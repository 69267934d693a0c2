import ActiveHarmony.Server.CodeGenerator

/-!
# The URLs of the code server

The code server and the helper of the layer each have a `url_parse` for `ssh://[user@]<host>[:port]/<path>`.
`urlParse_ssh_iff` says for which of these URLs both take them apart as they are written.
-/

namespace ActiveHarmony.CodeServer

/-! ## The helper of the layer -/

/-- What the helper finds around it: the directory for temporary files, the name of the session, the time as
`%lx` prints it, and which directories and strings it can make. `stat` says if there is a file, and if it
is a directory. -/
structure HelperEnv where
  tmpdir : Option Bytes
  name : Bytes
  stamp : Bytes
  stat : Bytes → Option Bool
  mkdir : Bytes → Bool
  alloc : Bytes → Bool

/-- The variables that `url_parse` sets; `message` is `mesg.data.string`. -/
structure HelperUrl where
  replyDir : Option Bytes
  replyDirCreated : Bool
  scpCmd : Option Bytes
  scpDst : Option Bytes
  message : Option Bytes
deriving DecidableEq, Repr

/-- `sprintf_alloc` and `stralloc`. -/
def HelperEnv.allocated (env : HelperEnv) (text : Bytes) : Option Bytes :=
  if env.alloc text then some text else none

/-- The conversion `%.*s`: a negative precision is none at all. -/
def printPrecision (precision : ℤ) (s : Bytes) : Bytes :=
  if precision < 0 then s else s.take precision.toNat

/-- The port in the first `len` characters of the host, and the new value of `host_len`. -/
def helperPort (host : Bytes) (len : ℕ) : Option (Bytes × ℤ) × ℤ :=
  match strchr (host.take len) 58 with
  | none => (none, len)
  | some (front, _) =>
    let port := host.drop (front.length + 1)
    let portLen : ℤ := len - (front.length + 1)
    (some (port, portLen), -portLen)

/-- `url_parse` of the helper. Lengths are those that an `int` has. -/
def helperUrlParse (env : HelperEnv) (url : Bytes) (st : HelperUrl) : ℤ × HelperUrl :=
  match splitScheme url with
  | none => (-1, st)
  | some (scheme, url) =>
    if scheme = cstr "dir://" then
      match env.stat url with
      | none => (-1, { st with message := some (cstr "Could not stat reply directory") })
      | some false => (-1, { st with message := some (cstr "Reply path is not a directory") })
      | some true =>
        match env.allocated url with
        | none =>
          (-1, { st with replyDir := none, message := some (cstr "Could not allocate memory for reply dir") })
        | some dir => (0, { st with replyDir := some dir })
    else if scheme = cstr "ssh://" then
      let cfgval := env.tmpdir.getD (cstr "/tmp")
      match env.allocated (cfgval ++ cstr "/codegen-" ++ env.name ++ cstr "." ++ env.stamp) with
      | none =>
        (-1, { st with
          replyDir := none
          message := some (cstr "Could not allocate memory for temp directory") })
      | some dir =>
        let st := { st with replyDir := some dir }
        if env.mkdir dir then
          let st := { st with replyDirCreated := true }
          let (len, path) := match strchr url 47 with
            | some (front, path) => (front.length, path)
            | none => (url.length, [])
          let (port, hostLen) := helperPort url len
          let cmd := match port with
            | some (port, portLen) => cstr "scp " ++ cstr "-P " ++ printPrecision portLen port
            | none => cstr "scp "
          let st := { st with
            scpCmd := env.allocated cmd
            scpDst := env.allocated (printPrecision hostLen url ++ cstr ":" ++ path) }
          if st.scpCmd = none ∨ st.scpDst = none then
            (-1, { st with message := some (cstr "Could not allocate memory for scp strings.") })
          else (0, st)
        else (-1, { st with message := some (cstr "Could not create temp directory") })
    else (-1, { st with message := some (cstr "Invalid use of codegen-helper") })

/-! ## The documented form -/

/-- There is no character that separates the parts of a URL. -/
def Plain (text : Bytes) : Prop := 64 ∉ text ∧ 58 ∉ text ∧ 47 ∉ text

/-- The parts of `ssh://[user@]<host>[:port]/<path>`. -/
structure SshUrl where
  user : Option Bytes
  host : Bytes
  port : Option Bytes
  path : Bytes
  user_plain : ∀ text, user = some text → Plain text
  host_plain : Plain host
  port_digits : ∀ text, port = some text → ∀ c ∈ text, 48 ≤ c ∧ c ≤ 57

/-- `[user@]<host>`. -/
def SshUrl.destination (u : SshUrl) : Bytes :=
  match u.user with
  | some user => user ++ 64 :: u.host
  | none => u.host

/-- `<host>[:port]`. -/
def SshUrl.address (u : SshUrl) : Bytes :=
  match u.port with
  | some port => u.host ++ 58 :: port
  | none => u.host

/-- The URL as it is written. -/
def SshUrl.text (u : SshUrl) : Bytes :=
  cstr "ssh://" ++ (match u.user with
    | some user => user ++ 64 :: (u.address ++ 47 :: u.path)
    | none => u.address ++ 47 :: u.path)

/-- The code server has the parts, and what is absent is empty. -/
def SshUrl.parts (u : SshUrl) : Url where
  path := u.path
  host := u.host
  user := u.user.getD []
  port := u.port.getD []

/-- The command that copies to the port. -/
def SshUrl.scpCmd (u : SshUrl) : Bytes :=
  match u.port with
  | some port => cstr "scp -P " ++ port
  | none => cstr "scp "

/-- Both functions take the URL apart as it is written. -/
structure Decomposed (u : SshUrl) (url : Url) (env : HelperEnv) (st : HelperUrl) : Prop where
  server : urlParse u.text url = (0, u.parts)
  ret : (helperUrlParse env u.text st).1 = 0
  cmd : (helperUrlParse env u.text st).2.scpCmd = some u.scpCmd
  dst : (helperUrlParse env u.text st).2.scpDst = some (u.destination ++ cstr ":" ++ u.path)

/-! ## Searching for a separator -/

lemma strchr_none {s : Bytes} {c : UInt8} (h : c ∉ s) : strchr s c = none := if_neg h

/-- What stands in front of the first occurrence, and what stands behind it. -/
lemma strchr_append {pre : Bytes} {c : UInt8} (h : c ∉ pre) (post : Bytes) :
    strchr (pre ++ c :: post) c = some (pre, post) := by
  have hall : ∀ x ∈ pre, (decide (x ≠ c) : Bool) = true := by
    intro x hx
    exact decide_eq_true fun heq => h (heq ▸ hx)
  unfold strchr
  rw [if_pos (by simp), List.takeWhile_append_of_pos hall, List.dropWhile_append_of_pos hall]
  simp

/-- A separator that is only behind a part without it is found there. -/
lemma strchr_behind {pre text : Bytes} {c : UInt8} (hpre : c ∉ pre) (htext : c ∈ text) :
    ∃ more post, strchr (pre ++ text) c = some (pre ++ more, post) := by
  obtain ⟨more, post, rfl, hmore⟩ := List.eq_append_cons_of_mem htext
  have hfront : c ∉ pre ++ more := by
    rw [List.mem_append, not_or]
    exact ⟨hpre, hmore⟩
  refine ⟨more, post, ?_⟩
  rw [← List.append_assoc, strchr_append hfront]

lemma splitScheme_ssh (rest : Bytes) :
    splitScheme (cstr "ssh://" ++ rest) = some (cstr "ssh://", rest) := rfl

lemma SshUrl.port_plain (u : SshUrl) {text : Bytes} (h : u.port = some text) : Plain text := by
  have hdigit := u.port_digits text h
  refine ⟨?_, ?_, ?_⟩
  · intro hmem
    exact absurd (hdigit 64 hmem) (by decide)
  · intro hmem
    exact absurd (hdigit 58 hmem) (by decide)
  · intro hmem
    exact absurd (hdigit 47 hmem) (by decide)

lemma SshUrl.address_plain (u : SshUrl) : 64 ∉ u.address ∧ 47 ∉ u.address := by
  obtain ⟨hat, -, hslash⟩ := u.host_plain
  unfold SshUrl.address
  cases hport : u.port with
  | none => exact ⟨hat, hslash⟩
  | some port =>
    obtain ⟨hat', -, hslash'⟩ := u.port_plain hport
    constructor
    · rw [List.mem_append, List.mem_cons, not_or, not_or]
      exact ⟨hat, by decide, hat'⟩
    · rw [List.mem_append, List.mem_cons, not_or, not_or]
      exact ⟨hslash, by decide, hslash'⟩

/-! ## The code server -/

/-- The code server, behind the user. -/
def urlParseHost (url : Url) (str : Bytes) : ℤ × Url :=
  let url := match strchr str 58 with
    | some (host, _) => { url with host := host }
    | none => { url with host := [], port := [] }
  match strchr str 47 with
  | none => (-1, url)
  | some (front, path) =>
    let url := if url.host = [] then { url with host := front } else { url with port := front }
    (0, { url with path := path })

lemma urlParse_ssh (url : Url) (rest : Bytes) :
    urlParse (cstr "ssh://" ++ rest) url =
      urlParseHost { url with user := ((strchr rest 64).getD ([], rest)).1 }
        ((strchr rest 64).getD ([], rest)).2 := by
  unfold urlParse
  rw [splitScheme_ssh]
  rfl

/-- The user that is found, and what is left behind it. -/
lemma SshUrl.findUser (u : SshUrl) :
    ∃ rest, u.text = cstr "ssh://" ++ rest ∧
      ((u.user = none → 64 ∉ u.path) →
        (strchr rest 64).getD ([], rest) = (u.user.getD [], u.address ++ 47 :: u.path)) ∧
      (¬ (u.user = none → 64 ∉ u.path) → ((strchr rest 64).getD ([], rest)).1 ≠ u.user.getD []) := by
  obtain ⟨hat, hslash⟩ := u.address_plain
  unfold SshUrl.text
  cases huser : u.user with
  | some user =>
    obtain ⟨huserat, -, -⟩ := u.user_plain user huser
    refine ⟨_, rfl, ?_, ?_⟩
    · intro _
      rw [strchr_append huserat]
      rfl
    · intro h
      exact absurd (fun hnone => by cases hnone) h
  | none =>
    refine ⟨_, rfl, ?_, ?_⟩
    · intro h
      have hnone : 64 ∉ u.address ++ 47 :: u.path := by
        rw [List.mem_append, List.mem_cons, not_or, not_or]
        exact ⟨hat, by decide, h rfl⟩
      rw [strchr_none hnone]
      rfl
    · intro h
      have hpath : 64 ∈ u.path := by
        by_contra hpath
        exact h fun _ => hpath
      have hfront : 64 ∉ u.address ++ [47] := by
        rw [List.mem_append, List.mem_singleton, not_or]
        exact ⟨hat, by decide⟩
      -- The user that is found has the host and the slash behind it.
      obtain ⟨more, post, hfound⟩ := strchr_behind hfront hpath
      rw [List.append_assoc] at hfound
      change strchr (u.address ++ 47 :: u.path) 64 = _ at hfound
      rw [hfound]
      show u.address ++ [47] ++ more ≠ []
      simp

/-- With a port, the text up to the path is taken for the port, or for the host if the host is empty. -/
lemma urlParseHost_port (u : SshUrl) {port : Bytes} (hport : u.port = some port) (url : Url) :
    urlParseHost url (u.address ++ 47 :: u.path) ≠ (0, u.parts) := by
  obtain ⟨-, hcolon, -⟩ := u.host_plain
  obtain ⟨-, hslash⟩ := u.address_plain
  have haddress : u.address = u.host ++ 58 :: port := by
    unfold SshUrl.address
    rw [hport]
  have hhost : strchr (u.address ++ 47 :: u.path) 58 = some (u.host, port ++ 47 :: u.path) := by
    rw [haddress, List.append_assoc]
    exact strchr_append hcolon _
  unfold urlParseHost
  rw [hhost, strchr_append hslash]
  intro heq
  by_cases hempty : u.host = []
  · -- `url.host` is empty in front of the path, and the text goes there.
    have hfound : u.address = u.host := by
      simpa [hempty, SshUrl.parts] using congrArg (fun res : ℤ × Url => res.2.host) heq
    rw [haddress] at hfound
    simp at hfound
  · have hfound : u.address = port := by
      simpa [hempty, hport, SshUrl.parts] using congrArg (fun res : ℤ × Url => res.2.port) heq
    have hlen := congrArg List.length hfound
    rw [haddress, List.length_append, List.length_cons] at hlen
    omega

/-- A colon in the path is taken for the one of a port. -/
lemma urlParseHost_colon (u : SshUrl) (hport : u.port = none) (hpath : 58 ∈ u.path) (url : Url) :
    urlParseHost url (u.address ++ 47 :: u.path) ≠ (0, u.parts) := by
  obtain ⟨-, hcolon, hslash⟩ := u.host_plain
  have haddress : u.address = u.host := by
    unfold SshUrl.address
    rw [hport]
  have hfront : 58 ∉ u.host ++ [47] := by
    rw [List.mem_append, List.mem_singleton, not_or]
    exact ⟨hcolon, by decide⟩
  obtain ⟨more, post, hhost⟩ := strchr_behind hfront hpath
  rw [List.append_assoc] at hhost
  change strchr (u.host ++ 47 :: u.path) 58 = _ at hhost
  unfold urlParseHost
  rw [haddress, hhost, strchr_append hslash]
  intro heq
  have hfound : u.host ++ [47] ++ more = u.host := by
    simpa [SshUrl.parts] using congrArg (fun res : ℤ × Url => res.2.host) heq
  have hlen := congrArg List.length hfound
  rw [List.length_append, List.length_append, List.length_singleton] at hlen
  omega

lemma urlParseHost_iff (u : SshUrl) (url : Url) :
    urlParseHost { url with user := u.user.getD [] } (u.address ++ 47 :: u.path) = (0, u.parts) ↔
      u.port = none ∧ 58 ∉ u.path := by
  constructor
  · intro heq
    cases hport : u.port with
    | some port => exact absurd heq (urlParseHost_port u hport _)
    | none =>
      refine ⟨rfl, ?_⟩
      intro hpath
      exact urlParseHost_colon u hport hpath _ heq
  · rintro ⟨hport, hpath⟩
    obtain ⟨-, hcolon, hslash⟩ := u.host_plain
    have hnone : 58 ∉ u.host ++ 47 :: u.path := by
      rw [List.mem_append, List.mem_cons, not_or, not_or]
      exact ⟨hcolon, by decide, hpath⟩
    unfold urlParseHost SshUrl.address SshUrl.parts
    rw [hport]
    show (match strchr (u.host ++ 47 :: u.path) 47 with | none => _ | some (front, path) => _) = _
    rw [strchr_append hslash, strchr_none hnone]
    rfl

lemma urlParseHost_user (url : Url) (str : Bytes) : (urlParseHost url str).2.user = url.user := by
  unfold urlParseHost
  cases strchr str 58 <;> cases strchr str 47 <;> simp only <;> split_ifs <;> rfl

/-- When the code server has the parts of a URL. -/
lemma urlParse_iff (u : SshUrl) (url : Url) :
    urlParse u.text url = (0, u.parts) ↔ u.port = none ∧ 58 ∉ u.path ∧ (u.user = none → 64 ∉ u.path) := by
  obtain ⟨rest, htext, hfound, hother⟩ := u.findUser
  rw [htext, urlParse_ssh]
  by_cases hpath : u.user = none → 64 ∉ u.path
  · rw [hfound hpath, urlParseHost_iff]
    exact ⟨fun h => ⟨h.1, h.2, hpath⟩, fun h => ⟨h.1, h.2.1⟩⟩
  · constructor
    · intro heq
      have huser := congrArg (fun res : ℤ × Url => res.2.user) heq
      simp only [urlParseHost_user] at huser
      exact absurd huser (hother hpath)
    · intro h
      exact absurd h.2.2 hpath

/-! ## The helper -/

section
variable {env : HelperEnv} (halloc : ∀ text, env.alloc text = true) (hmkdir : ∀ dir, env.mkdir dir = true)
include halloc

lemma allocated_some (text : Bytes) : env.allocated text = some text := if_pos (halloc text)

include hmkdir

/-- What the helper does with the text behind `ssh://`, up to the path and behind it. -/
lemma helperUrlParse_ssh {front : Bytes} (hslash : 47 ∉ front) (path : Bytes) (st : HelperUrl) :
    ∃ dir, helperUrlParse env (cstr "ssh://" ++ (front ++ 47 :: path)) st = (0, { st with
      replyDir := some dir
      replyDirCreated := true
      scpCmd := some (match (helperPort (front ++ 47 :: path) front.length).1 with
        | some (port, portLen) => cstr "scp " ++ cstr "-P " ++ printPrecision portLen port
        | none => cstr "scp ")
      scpDst := some (printPrecision (helperPort (front ++ 47 :: path) front.length).2
        (front ++ 47 :: path) ++ cstr ":" ++ path) }) := by
  have hscheme : cstr "ssh://" ≠ cstr "dir://" := by decide
  unfold helperUrlParse
  rw [splitScheme_ssh]
  simp only [if_neg hscheme, if_pos, allocated_some halloc, hmkdir, strchr_append hslash]
  exact ⟨_, rfl⟩

omit halloc hmkdir in
lemma helperPort_none {front : Bytes} (hcolon : 58 ∉ front) (rest : Bytes) :
    helperPort (front ++ rest) front.length = (none, (front.length : ℤ)) := by
  unfold helperPort
  rw [List.take_left, strchr_none hcolon]

omit halloc hmkdir in
/-- The length of the host is negated instead of diminished. -/
lemma helperPort_some {front : Bytes} (hcolon : 58 ∉ front) (port rest : Bytes) :
    helperPort (front ++ 58 :: port ++ rest) (front ++ 58 :: port).length =
      (some (port ++ rest, (port.length : ℤ)), -(port.length : ℤ)) := by
  have hdrop : (front ++ 58 :: port ++ rest).drop (front.length + 1) = port ++ rest := by
    rw [List.append_assoc, ← List.drop_drop, List.drop_left]
    rfl
  have hlen : (front ++ 58 :: port).length = front.length + 1 + port.length := by
    rw [List.length_append, List.length_cons]
    omega
  have hint : ((front ++ 58 :: port).length : ℤ) - (front.length + 1 : ℕ) = port.length := by omega
  unfold helperPort
  rw [List.take_left, strchr_append hcolon]
  simp only [hdrop]
  rw [← hint]
  rfl

omit halloc hmkdir in
lemma SshUrl.destination_plain (u : SshUrl) : 58 ∉ u.destination ∧ 47 ∉ u.destination := by
  obtain ⟨-, hcolon, hslash⟩ := u.host_plain
  unfold SshUrl.destination
  cases huser : u.user with
  | none => exact ⟨hcolon, hslash⟩
  | some user =>
    obtain ⟨-, hcolon', hslash'⟩ := u.user_plain user huser
    rw [List.mem_append, List.mem_cons, not_or, not_or, List.mem_append, List.mem_cons, not_or, not_or]
    exact ⟨⟨hcolon', by decide, hcolon⟩, ⟨hslash', by decide, hslash⟩⟩

/-- With a port, the whole URL is printed for the host. -/
lemma helperUrlParse_port (u : SshUrl) {port : Bytes} (hport : u.port = some port) (hne : port ≠ [])
    (st : HelperUrl) :
    (helperUrlParse env u.text st).1 = 0 ∧ (helperUrlParse env u.text st).2.scpCmd = some u.scpCmd ∧
      (helperUrlParse env u.text st).2.scpDst =
        some (u.destination ++ 58 :: port ++ 47 :: u.path ++ cstr ":" ++ u.path) := by
  have htext : u.text = cstr "ssh://" ++ (u.destination ++ 58 :: port ++ 47 :: u.path) := by
    unfold SshUrl.text SshUrl.destination SshUrl.address
    rw [hport]
    cases u.user with
    | none => rfl
    | some user => simp only [List.append_assoc, List.cons_append]
  obtain ⟨hcolon, hslash⟩ := u.destination_plain
  have hfront : 47 ∉ u.destination ++ 58 :: port := by
    rw [List.mem_append, List.mem_cons, not_or, not_or]
    exact ⟨hslash, by decide, (u.port_plain hport).2.2⟩
  have hnegative : -(port.length : ℤ) < 0 := by
    have hpos := List.length_pos_iff.mpr hne
    omega
  have hpositive : ¬ (port.length : ℤ) < 0 := by omega
  obtain ⟨dir, hrun⟩ := helperUrlParse_ssh halloc hmkdir hfront u.path st
  rw [htext, hrun, helperPort_some hcolon]
  refine ⟨rfl, ?_, ?_⟩
  · unfold SshUrl.scpCmd
    rw [hport]
    show some (cstr "scp " ++ cstr "-P " ++ printPrecision port.length _) = _
    unfold printPrecision
    rw [if_neg hpositive, Int.toNat_natCast, List.take_left]
    rfl
  · -- A negative precision counts as none.
    show some (printPrecision (-(port.length : ℤ)) _ ++ _ ++ _) = _
    unfold printPrecision
    rw [if_pos hnegative]

/-- Without a port the helper takes the URL apart as it is written. -/
lemma helperUrlParse_noPort (u : SshUrl) (hport : u.port = none) (st : HelperUrl) :
    (helperUrlParse env u.text st).1 = 0 ∧ (helperUrlParse env u.text st).2.scpCmd = some u.scpCmd ∧
      (helperUrlParse env u.text st).2.scpDst = some (u.destination ++ cstr ":" ++ u.path) := by
  have hdst : u.text = cstr "ssh://" ++ (u.destination ++ 47 :: u.path) := by
    unfold SshUrl.text SshUrl.destination SshUrl.address
    rw [hport]
    cases u.user with
    | none => rfl
    | some user => simp only [List.append_assoc, List.cons_append]
  have hplain := u.destination_plain
  obtain ⟨dir, hrun⟩ := helperUrlParse_ssh halloc hmkdir hplain.2 u.path st
  rw [hdst, hrun, helperPort_none hplain.1]
  refine ⟨rfl, ?_, ?_⟩
  · unfold SshUrl.scpCmd
    rw [hport]
  · have hpositive : ¬ (u.destination.length : ℤ) < 0 := by omega
    show some (printPrecision u.destination.length _ ++ _ ++ _) = _
    unfold printPrecision
    rw [if_neg hpositive, Int.toNat_natCast, List.take_left]

end

/-- Both functions take a URL apart as it is written if and only if it has no port, there is no colon in its path,
and, without a user, no at sign. -/
theorem urlParse_ssh_iff (u : SshUrl) (url : Url) (env : HelperEnv) (halloc : ∀ text, env.alloc text = true)
    (hmkdir : ∀ dir, env.mkdir dir = true) (st : HelperUrl) :
    Decomposed u url env st ↔ u.port = none ∧ 58 ∉ u.path ∧ (u.user = none → 64 ∉ u.path) := by
  constructor
  · intro h
    exact (urlParse_iff u url).mp h.server
  · intro h
    obtain ⟨hret, hcmd, hdst⟩ := helperUrlParse_noPort halloc hmkdir u h.1 st
    exact ⟨(urlParse_iff u url).mpr h, hret, hcmd, hdst⟩

/-- A helper that can make every directory and every string. -/
def HelperEnv.roomy : HelperEnv where
  tmpdir := none
  name := cstr "search"
  stamp := cstr "53a0f1c2"
  stat _ := none
  mkdir _ := true
  alloc _ := true

/-- `ssh://me@code.server.net//tmp/codegen`. -/
def userUrl : SshUrl where
  user := some (cstr "me")
  host := cstr "code.server.net"
  port := none
  path := cstr "/tmp/codegen"
  user_plain text h := by
    cases h
    unfold Plain
    decide
  host_plain := by
    unfold Plain
    decide
  port_digits _ h := by cases h

theorem urlParse_ssh_user :
    Decomposed userUrl ⟨[], [], [], []⟩ .roomy ⟨none, false, none, none, none⟩ :=
  (urlParse_ssh_iff userUrl ⟨[], [], [], []⟩ .roomy (fun _ => rfl) (fun _ => rfl) _).mpr
    ⟨rfl, by decide, fun h => by cases h⟩

/-- `ssh://code.server.net:2222//tmp/codegen`. -/
def portUrl : SshUrl where
  user := none
  host := cstr "code.server.net"
  port := some (cstr "2222")
  path := cstr "/tmp/codegen"
  user_plain _ h := by cases h
  host_plain := by
    unfold Plain
    decide
  port_digits text h := by
    cases h
    have hall : (cstr "2222").all (fun c => 48 ≤ c ∧ c ≤ 57) = true := by decide
    intro c hc
    exact of_decide_eq_true (List.all_eq_true.mp hall c hc)

/-- The code server has the host in the port, and the helper has the URL in the destination. -/
theorem urlParse_ssh_port :
    portUrl.text = cstr "ssh://code.server.net:2222//tmp/codegen" ∧
      urlParse portUrl.text ⟨[], [], [], []⟩ =
        (0, ⟨cstr "/tmp/codegen", cstr "code.server.net", [], cstr "code.server.net:2222"⟩) ∧
      (helperUrlParse .roomy portUrl.text ⟨none, false, none, none, none⟩).2.scpDst =
        some (cstr "code.server.net:2222//tmp/codegen:/tmp/codegen") ∧
      ¬ Decomposed portUrl ⟨[], [], [], []⟩ .roomy ⟨none, false, none, none, none⟩ := by
  have hserver : urlParse portUrl.text ⟨[], [], [], []⟩ =
      (0, ⟨cstr "/tmp/codegen", cstr "code.server.net", [], cstr "code.server.net:2222"⟩) := by decide
  refine ⟨by decide, hserver, by decide, ?_⟩
  intro h
  have hport := hserver.symm.trans h.server
  exact absurd hport (by decide)

end ActiveHarmony.CodeServer

import ActiveHarmony.Client.Core
import ActiveHarmony.Config.SaveFile
import ActiveHarmony.Strategy.Common
import ActiveHarmony.Wire.Deserialize

/-!
# The calls on a descriptor

A program may make the calls of `hclient.c` on a descriptor in any order, and the server may answer
anything. `calls_in_order` says which calls keep to the rules of the library: no more reports than
points fetched, and no use of a performance buffer that was not allocated.
-/

namespace ActiveHarmony

/-- Why a call leaves what the language defines. -/
inductive Fault where
  /-- The performance buffer is used, but the pointer to it is not one to a buffer. -/
  | perf
  | other
deriving DecidableEq, Repr

/-- The field `perf` of `hdesc_t`. -/
inductive PerfPtr (V : Type) where
  /-- Not initialised. -/
  | wild
  | null
  | buf (perf : HPerf V)
deriving DecidableEq, Repr

/-- `hdesc_t`. -/
structure Descriptor (V : Type) extends HDesc V where
  sig : HSignature V
  cfg : Hcfg
  cmd : List Bytes
  perf : PerfPtr V
  /-- Not in the source: the requests that were sent. -/
  sent : List HMesgType
deriving DecidableEq, Repr

/-- What C has for its doubles beside their values. -/
structure Doubles (V : Type) where
  infinity : V
  nan : V
  isnan : V → Bool

/-- What happens to a request: the messages that arrive after it was sent. After these the connection
fails. -/
inductive Exchange (V : Type) where
  | sendFails
  | sent (inbox : List (HMesg V))

variable {V : Type}

/-- The request leaves the client. -/
def Exchange.IsSent : Exchange V → Bool
  | .sendFails => false
  | .sent _ => true

/-- The answer to a request of a type: the first message that is not for the HTTP server, unless it is
of another type or an error. -/
def Exchange.reply (type : HMesgType) : Exchange V → Option (HMesg V)
  | .sendFails => none
  | .sent inbox =>
    match inbox.find? (·.dest ≠ -1) with
    | none => none
    | some mesg => if mesg.type ≠ type ∨ mesg.status = .fail then none else some mesg

/-- `mesg.data.string` -/
def HMesgData.str : HMesgData V → Option Bytes
  | .string s => s
  | _ => Option.none

/-- `hcfg_is_cmd` -/
def hcfgIsCmd (buf : Bytes) : Bool :=
  (((buf.dropWhile TextScan.isSpace).dropWhile isKeyChar).dropWhile TextScan.isSpace).head? == some 61

def cfgkeyHarmonyHome : Bytes := cstr "HARMONY_HOME"
def cfgkeyPerfCount : Bytes := cstr "PERF_COUNT"
def defaultPerfCount : ℤ := 1

namespace Descriptor

/-- Set `errstr`. -/
def fail (d : Descriptor V) (msg : String) : Descriptor V := { d with toHDesc := d.toHDesc.error msg }

/-- `harmony_init`, with the arguments of the program. -/
def harmonyInit (argv : List Bytes) : Descriptor V where
  toHDesc := HDesc.initial
  sig := { name := none, range := [] }
  cfg := hcfgAlloc
  -- Stop looking for configuration directives upon "--" token.
  cmd := (argv.takeWhile (· ≠ cstr "--")).filter hcfgIsCmd
  perf := .wild
  sent := []

/-- `send_request` -/
def sendRequest (d : Descriptor V) (type : HMesgType) (x : Exchange V) :
    Option (HMesg V) × Descriptor V :=
  match x with
  | .sendFails => (none, d.fail "Error sending Harmony message to server.")
  | .sent inbox =>
    let d := { d with sent := d.sent ++ [type] }
    match inbox.find? (·.dest ≠ -1) with
    | none => (none, d.fail "Error retrieving Harmony message from server.")
    | some mesg =>
      if mesg.type ≠ type then (none, d.fail "Internal error: Server response message mismatch.")
      else if mesg.status = .fail then (none, { d with errstr := mesg.data.str })
      else (some mesg, d)

/-! ## Establishing a session -/

/-- The circumstances of `harmony_launch`: its host, the environment, the connection, the default id. -/
structure LaunchEnv (V : Type) where
  host : Option Bytes
  sHost : Option Bytes
  home : Option Bytes
  connects : Bool
  osError : Bytes
  defaultId : Bytes
  session : Exchange V

/-- The directives of the command line, as `harmony_launch` applies them: an error, and the
configuration. -/
def launchArgv : List Bytes → Hcfg → Except Fault (Option String × Hcfg)
  | [], cfg => .ok (none, cfg)
  | cmd :: cmds, cfg =>
    if hcfgNext cmd = none then .ok (some "Internal error parsing argv config directive.", cfg)
    else
      match hcfgParse cmd with
      | some (some key, val) =>
        match hcfgSet cfg key val with
        | some (ret, cfg) =>
          if ret ≠ 0 then .ok (some "Internal error applying argv config directive.", cfg)
          else launchArgv cmds cfg
        | none => .error .other
      | _ => .error .other

/-- `harmony_launch`, from where it has a socket. -/
def launched (d : Descriptor V) (e : LaunchEnv V) : Except Fault (ℤ × Descriptor V) :=
  if e.connects = false then .ok (-1, { d with errstr := some e.osError })
  else
    let d := { d with id := some (d.id.getD e.defaultId), state := .connected }
    match launchArgv d.cmd d.cfg with
    | .error fault => .error fault
    | .ok (some msg, cfg) => .ok (-1, { d with cfg := cfg }.fail msg)
    | .ok (none, cfg) =>
      -- without a name, ranges that were not copied are sent
      if d.sig.name = none then .error .other
      else
        let (mesg, d) := { d with cfg := cfg }.sendRequest .session e.session
        .ok (if mesg = none then -1 else 0, d)

/-- `harmony_launch` -/
def harmonyLaunch (d : Descriptor V) (e : LaunchEnv V) : Except Fault (ℤ × Descriptor V) :=
  if d.sig.range.length < 1 then .ok (-1, d.fail "No tuning variables defined")
  else if e.host = none ∧ e.sHost = none then
    -- Provide a default name, if one isn't defined.
    let d := { d with sig := { d.sig with name := some (d.sig.name.getD (cstr "NONAME")) } }
    match e.home with
    | none => .ok (-1, d.fail "No host or HARMONY_HOME specified")
    | some home =>
      match hcfgSet d.cfg cfgkeyHarmonyHome (some home) with
      | none => .error .other
      | some (ret, cfg) =>
        if ret ≠ 0 then .ok (-1, { d with cfg := cfg }.fail "Could not set HARMONY_HOME")
        else { d with cfg := cfg }.launched e
  else d.launched e

/-- `ptr_bind`: a new name is added to the signature, with bounds that are not set. -/
def ptrBind (d : Descriptor V) (name : Bytes) (bounds : HBounds V) (var : HVal V) :
    ℤ × Descriptor V :=
  let range :=
    if d.sig.range.any (·.name == some name) then d.sig.range
    else d.sig.range ++ [⟨some name, bounds⟩]
  (0, { d with sig := { d.sig with range := range }, vars := d.vars ++ [var] })

/-- `harmony_getcfg` -/
def harmonyGetcfg (d : Descriptor V) (x : Exchange V) : Option Bytes × Descriptor V :=
  if d.state.toNat < HarmonyState.connected.toNat then
    (none, d.fail "Descriptor not currently joined to any session.")
  else
    match d.sendRequest .getcfg x with
    | (none, d) => (none, d)
    | (some mesg, d) =>
      if mesg.status ≠ .ok then (none, d.fail "Invalid message received from server.")
      else (mesg.data.str, d)

/-- The circumstances of `harmony_join`. -/
structure JoinEnv (V : Type) where
  name : Option Bytes
  connects : Bool
  defaultId : Bytes
  join : Exchange V
  getcfg : Exchange V
  /-- `hperf_alloc` finds memory. -/
  allocates : Bool

/-- The directives of the command line, as `harmony_join` applies them: its test of `hcfg_parse` is the
other way round. -/
def joinArgv : List Bytes → Hcfg → Except Fault (Option String × Hcfg)
  | [], cfg => .ok (none, cfg)
  | cmd :: cmds, cfg =>
    if hcfgNext cmd ≠ none then .ok (some "Error parsing argv config directive.", cfg)
    else
      match hcfgParse cmd with
      | some (some key, val) =>
        match hcfgSet cfg key val with
        | some (ret, cfg) =>
          if ret ≠ 0 then .ok (some "Error applying argv config directive.", cfg)
          else joinArgv cmds cfg
        | none => .error .other
      | _ => .error .other

/-- So `harmony_join` refuses every directive that can be parsed. -/
lemma joinArgv_parsed {cmd next : Bytes} (h : hcfgNext cmd = some next) (cmds : List Bytes) (cfg : Hcfg) :
    joinArgv (cmd :: cmds) cfg = .ok (some "Error parsing argv config directive.", cfg) := by
  rw [joinArgv, h]
  rfl

variable (D : Doubles V)

/-- The end of `harmony_join`: the performance buffer. -/
def joinPerf (d : Descriptor V) (e : JoinEnv V) : ℤ × Descriptor V :=
  let (cfgval, d) := d.harmonyGetcfg e.getcfg
  -- atoi
  let perfLen := (cfgval.map fun val => ((scanD val).map Prod.fst).getD 0).getD defaultPerfCount
  if perfLen < 1 then (-1, d.fail "Invalid value for PERF_COUNT")
  else if e.allocates = false then
    (-1, { d with perf := .null }.fail "Error allocating performance array.")
  else
    (0, { d with perf := .buf ⟨List.replicate perfLen.toNat D.infinity⟩, state := .ready })

/-- `harmony_join`, on a socket. -/
def joinRequest (d : Descriptor V) (e : JoinEnv V) (applyArgv : Bool) :
    Except Fault (ℤ × Descriptor V) :=
  if d.sig.name = none then .ok (-1, d.fail "Internal error copying signature data")
  else
    match d.sendRequest .join e.join with
    | (none, d) => .ok (-1, d)
    | (some mesg, d) =>
      if mesg.status ≠ .ok then .ok (-1, d.fail "Invalid message received")
      else
        match mesg.data with
        | .join sig =>
          let d := { d with sig := sig }
          match joinArgv (if applyArgv then d.cmd else []) d.cfg with
          | .error fault => .error fault
          | .ok (some msg, cfg) => .ok (-1, { d with cfg := cfg }.fail msg)
          | .ok (none, cfg) => .ok ({ d with cfg := cfg }.joinPerf D e)
        | _ => .error .other

/-- `harmony_join` -/
def harmonyJoin (d : Descriptor V) (e : JoinEnv V) : Except Fault (ℤ × Descriptor V) :=
  if d.vars.length = 0 then .ok (-1, d.fail "No variables bound to Harmony session")
  else if d.state.toNat ≥ HarmonyState.ready.toNat then
    .ok (-1, d.fail "Descriptor already joined with an existing session")
  else if d.state = .init then
    if e.connects = false then .ok (-1, d.fail "Error establishing TCP connection with server")
    else
      let d := { d with
        id := some (d.id.getD e.defaultId)
        state := .connected
        sig := { d.sig with name := e.name } }
      if e.name = none then .ok (-1, d.fail "Error allocating memory for signature name")
      else d.joinRequest D e true
  else d.joinRequest D e (d.state.toNat < HarmonyState.connected.toNat)

/-- `harmony_leave` -/
def harmonyLeave (d : Descriptor V) : ℤ × Descriptor V :=
  if d.state.toNat ≤ HarmonyState.init.toNat then
    (-1, d.fail "Descriptor not currently joined to any session.")
  else
    -- Reset the hsession_t to prepare for hdesc reuse.
    (0, { d with
      state := .init
      sig := { name := none, range := [] }
      cfg := hcfgAlloc
      vars := []
      best := { d.best with id := -1 } })

/-! ## Testing points -/

/-- The end of `harmony_fetch`. -/
def installCurr (d : Descriptor V) : Except Fault (ℤ × Descriptor V) :=
  let (ret, h) := d.setValues d.curr
  let d := { d with toHDesc := h }
  if ret ≠ 0 then .ok (-1, d)
  else
    match d.perf with
    | .buf perf =>
      -- Initialize our internal performance array.
      .ok (1, { d with perf := .buf ⟨List.replicate perf.p.length D.nan⟩, state := .testing })
    | _ => .error .perf

/-- `harmony_fetch` -/
def harmonyFetch (d : Descriptor V) (x : Exchange V) : Except Fault (ℤ × Descriptor V) :=
  if d.state.toNat < HarmonyState.connected.toNat then
    .ok (-1, d.fail "Descriptor not currently joined to any session.")
  else
    match d.sendRequest .fetch x with
    | (none, d) => .ok (-1, d)
    | (some mesg, d) =>
      if mesg.status = .busy then
        match mesg.data with
        | .point pt =>
          let d := { d with toHDesc := d.updateBest pt }
          -- No best point is available.
          if d.best.id = -1 then .ok (0, d)
          else { d with curr := hpointCopy d.best }.installCurr D
        | _ => .error .other
      else if mesg.status = .ok then
        match mesg.data with
        | .point pt => { d with curr := hpointCopy pt }.installCurr D
        | _ => .error .other
      else .ok (-1, d.fail "Invalid message received from server.")

/-- The performance that `harmony_report` would send: the caller's, or what is in the buffer. -/
def reportPerf (perf : HPerf V) : Option (ℕ → V) → HPerf V
  | some vals => ⟨(List.range perf.p.length).map vals⟩
  | none => perf

/-- `harmony_report` -/
def harmonyReport (d : Descriptor V) (perf : Option (ℕ → V)) (x : Exchange V) :
    Except Fault (ℤ × Descriptor V) :=
  if d.state.toNat < HarmonyState.connected.toNat then
    .ok (-1, d.fail "Descriptor not currently joined to any session.")
  else if d.state.toNat < HarmonyState.testing.toNat then .ok (0, d)
  else
    match d.perf with
    | .buf buf =>
      let d := { d with perf := .buf (reportPerf buf perf) }
      if (reportPerf buf perf).p.any D.isnan then
        .ok (-1, d.fail "Error: Performance report incomplete.")
      else
        match d.sendRequest .report x with
        | (none, d) => .ok (-1, d)
        | (some mesg, d) =>
          if mesg.status ≠ .ok then .ok (-1, d.fail "Invalid message received from server.")
          else .ok (0, { d with state := .ready })
    | _ => .error .perf

/-- `harmony_report_one` -/
def harmonyReportOne (d : Descriptor V) (index : ℤ) (value : V) : Except Fault (ℤ × Descriptor V) :=
  if d.state.toNat < HarmonyState.connected.toNat then
    .ok (-1, d.fail "Descriptor not currently joined to any session.")
  else if index < 0 then .ok (-1, d.fail "Invalid performance index.")
  else
    match d.perf with
    | .buf perf =>
      if index ≥ perf.p.length then .ok (-1, d.fail "Invalid performance index.")
      else if d.state = .testing then .ok (0, { d with perf := .buf ⟨perf.p.set index.toNat value⟩ })
      else .ok (0, d)
    | _ => .error .perf

/-- The end of `harmony_best`. -/
def installBest (d : Descriptor V) (retval : ℤ) : ℤ × Descriptor V :=
  -- Make sure our best known point is valid.
  if d.best.id < 0 then (-1, d)
  else
    let (ret, h) := d.setValues d.best
    (if ret ≠ 0 then -1 else retval, { d with toHDesc := h })

/-- `harmony_best` -/
def harmonyBest (d : Descriptor V) (x : Exchange V) : Except Fault (ℤ × Descriptor V) :=
  if d.state.toNat ≥ HarmonyState.connected.toNat then
    match d.sendRequest .best x with
    | (none, d) => .ok (-1, d)
    | (some mesg, d) =>
      if mesg.status ≠ .ok then .ok (-1, d.fail "Invalid message received from server.")
      else
        match mesg.data with
        | .point pt =>
          if d.best.id < pt.id then .ok ({ d with toHDesc := d.updateBest pt }.installBest 1)
          else .ok (d.installBest 0)
        | _ => .error .other
  else .ok (d.installBest 0)

/-- `harmony_converged` -/
def harmonyConverged (d : Descriptor V) (x : Exchange V) : ℤ × Descriptor V :=
  let (str, d) := d.harmonyGetcfg x
  if (str.bind List.head?) = some 49 then (1, { d with state := .converged }) else (0, d)

/-- `harmony_fini`: the performance buffer is freed if the pointer to it is not `NULL`. -/
def harmonyFini (d : Descriptor V) : Except Fault Unit :=
  match d.perf with
  | .wild => .error .perf
  | _ => .ok ()

/-! ## Runs -/

/-- A call on a descriptor, with what happens in it. -/
inductive ApiCall (V : Type) where
  | launch (e : LaunchEnv V)
  | bind (name : Bytes) (bounds : HBounds V) (var : HVal V)
  | join (e : JoinEnv V)
  | fetch (x : Exchange V)
  | reportOne (index : ℤ) (value : V)
  | report (perf : Option (ℕ → V)) (x : Exchange V)
  | best (x : Exchange V)
  | converged (x : Exchange V)
  | leave
  | fini

/-- One call: what it returns, and the descriptor after it. -/
def call (d : Descriptor V) : ApiCall V → Except Fault (ℤ × Descriptor V)
  | .launch e => d.harmonyLaunch e
  | .bind name bounds var => .ok (d.ptrBind name bounds var)
  | .join e => d.harmonyJoin D e
  | .fetch x => d.harmonyFetch D x
  | .reportOne index value => d.harmonyReportOne index value
  | .report perf x => d.harmonyReport D perf x
  | .best x => d.harmonyBest x
  | .converged x => .ok (d.harmonyConverged x)
  | .leave => .ok d.harmonyLeave
  | .fini => d.harmonyFini.map fun _ => (0, d)

/-- The number of REPORT requests sent. -/
def reports (d : Descriptor V) : ℕ := d.sent.count .report

/-- One more if a call is a fetch that returns 1. -/
def countFetch (c : ApiCall V) (ret : ℤ) (fetches : ℕ) : ℕ :=
  match c with
  | .fetch _ => if ret = 1 then fetches + 1 else fetches
  | _ => fetches

/-- The descriptors that are reached by calls of a kind, with the number of fetches that returned 1. -/
inductive Reached (ok : Descriptor V → ApiCall V → Prop) : Descriptor V → ℕ → Prop where
  | init (argv : List Bytes) : Reached ok (harmonyInit argv) 0
  | call {d d' : Descriptor V} {n : ℕ} {c : ApiCall V} {ret : ℤ} : Reached ok d n → c ≠ .fini →
      ok d c → d.call D c = .ok (ret, d') → Reached ok d' (countFetch c ret n)

/-! ## Proper calls -/

/-- The performance buffer is there. -/
def HasPerf (d : Descriptor V) : Prop := ∃ perf, d.perf = .buf perf

/-- `set_values` can write the point to the variables. -/
def Fits (d : Descriptor V) (pt : HPoint V) : Prop :=
  d.vars.length = pt.val.length ∧ .unknown ∉ pt.val

/-- The point that an answer to `harmony_fetch` makes the current one. -/
def nextPoint (d : Descriptor V) (mesg : HMesg V) : Option (HPoint V) :=
  match mesg.status, mesg.data with
  | .busy, .point pt =>
    if (d.updateBest pt).best.id = -1 then none else some (hpointCopy (d.updateBest pt).best)
  | .ok, .point pt => some (hpointCopy pt)
  | _, _ => none

/-- The calls that keep to the rules. Before a join has allocated the performance buffer there is no
`harmony_fini` and no `harmony_report_one`, and no fetch that is answered with a point for the variables;
a report is answered with OK if it is sent; and the search is found to have converged only while a
point is being tested, or again. -/
def Proper (d : Descriptor V) : ApiCall V → Prop
  | .fetch x =>
    d.state.toNat < HarmonyState.connected.toNat ∨ d.HasPerf ∨
      ∀ mesg, x.reply .fetch = some mesg → ∀ pt, d.nextPoint mesg = some pt → ¬ d.Fits pt
  | .reportOne index _ => d.state.toNat < HarmonyState.connected.toNat ∨ index < 0 ∨ d.HasPerf
  | .report perf x =>
    d.state.toNat < HarmonyState.testing.toNat ∨
      (∃ buf, d.perf = .buf buf ∧ (reportPerf buf perf).p.any D.isnan = true) ∨
      x.IsSent = false ∨ ∃ mesg, x.reply .report = some mesg ∧ mesg.status = .ok
  | .converged x =>
    d.state.toNat < HarmonyState.connected.toNat ∨ d.state = .testing ∨ d.state = .converged ∨
      ∀ mesg, x.reply .getcfg = some mesg → mesg.status = .ok → mesg.data.str.bind List.head? ≠ some 49
  | .fini => d.perf ≠ .wild
  | _ => True

/-! ## What a request does -/

/-- `send_request` returns the answer, and changes `errstr` at most. -/
lemma sendRequest_eq (d : Descriptor V) (type : HMesgType) (x : Exchange V) :
    (d.sendRequest type x).1 = x.reply type ∧ ∃ msg, (d.sendRequest type x).2 =
      { d with errstr := msg, sent := if x.IsSent then d.sent ++ [type] else d.sent } := by
  unfold sendRequest Exchange.reply
  cases x with
  | sendFails => exact ⟨rfl, _, rfl⟩
  | sent inbox =>
    dsimp only
    cases inbox.find? (·.dest ≠ -1) with
    | none => exact ⟨rfl, _, rfl⟩
    | some mesg =>
      by_cases htype : mesg.type ≠ type
      · simp only [if_pos htype, if_pos (Or.inl htype)]
        exact ⟨trivial, _, rfl⟩
      · by_cases hstatus : mesg.status = .fail
        · simp only [if_neg htype, if_pos hstatus, if_pos (Or.inr hstatus)]
          exact ⟨trivial, _, rfl⟩
        · simp only [if_neg htype, if_neg hstatus, if_neg (not_or.mpr ⟨htype, hstatus⟩)]
          exact ⟨trivial, _, rfl⟩

/-- The call leaves the reports, the buffer and the permission to report alone, or takes that away. -/
structure Keeps (d d' : Descriptor V) : Prop where
  reports : d'.reports = d.reports
  perf : d'.perf = d.perf
  state : d'.state = d.state ∨ d'.state.toNat < HarmonyState.ready.toNat

lemma Keeps.refl (d : Descriptor V) : Keeps d d := ⟨rfl, rfl, Or.inl rfl⟩

lemma Keeps.trans {d d' d'' : Descriptor V} (h : Keeps d d') (h' : Keeps d' d'') : Keeps d d'' where
  reports := h'.reports.trans h.reports
  perf := h'.perf.trans h.perf
  state := by
    obtain heq | hlt := h'.state
    · rw [heq]
      exact h.state
    · exact Or.inr hlt

lemma Keeps.fail {d d' : Descriptor V} (h : Keeps d d') (msg : String) : Keeps d (d'.fail msg) :=
  ⟨h.reports, h.perf, h.state⟩

lemma sendRequest_state (d : Descriptor V) (type : HMesgType) (x : Exchange V) :
    (d.sendRequest type x).2.state = d.state := by
  obtain ⟨-, msg, heq⟩ := sendRequest_eq d type x
  rw [heq]

lemma sendRequest_perf (d : Descriptor V) (type : HMesgType) (x : Exchange V) :
    (d.sendRequest type x).2.perf = d.perf := by
  obtain ⟨-, msg, heq⟩ := sendRequest_eq d type x
  rw [heq]

lemma sendRequest_reports (d : Descriptor V) {type : HMesgType} (htype : type ≠ .report)
    (x : Exchange V) : (d.sendRequest type x).2.reports = d.reports := by
  obtain ⟨-, msg, heq⟩ := sendRequest_eq d type x
  rw [heq]
  show List.count _ (if _ then _ else _) = List.count _ _
  by_cases hsent : x.IsSent = true
  · rw [if_pos hsent, List.count_append, List.count_singleton, beq_false_of_ne htype]
    rfl
  · rw [if_neg hsent]

/-- The reports that a REPORT request adds. -/
lemma sendRequest_count (d : Descriptor V) (x : Exchange V) :
    (d.sendRequest .report x).2.reports = d.reports + if x.IsSent then 1 else 0 := by
  obtain ⟨-, msg, heq⟩ := sendRequest_eq d .report x
  rw [heq]
  show List.count _ (if _ then _ else _) = List.count _ _ + _
  by_cases hsent : x.IsSent = true
  · rw [if_pos hsent, if_pos hsent, List.count_append]
    rfl
  · rw [if_neg hsent, if_neg hsent]
    rfl

lemma sendRequest_keeps (d : Descriptor V) {type : HMesgType} (htype : type ≠ .report)
    (x : Exchange V) : Keeps d (d.sendRequest type x).2 :=
  ⟨d.sendRequest_reports htype x, d.sendRequest_perf type x, Or.inl (d.sendRequest_state type x)⟩

lemma harmonyGetcfg_keeps (d : Descriptor V) (x : Exchange V) : Keeps d (d.harmonyGetcfg x).2 := by
  have hsend := @sendRequest_keeps _ d .getcfg (by decide) x
  unfold harmonyGetcfg
  split_ifs
  · exact (Keeps.refl d).fail _
  · split
    · next d' heq =>
      rw [heq] at hsend
      exact hsend
    · next mesg d' heq =>
      rw [heq] at hsend
      split_ifs
      · exact hsend.fail _
      · exact hsend

lemma init_lt_ready : HarmonyState.init.toNat < HarmonyState.ready.toNat := by decide

lemma connected_lt_ready : HarmonyState.connected.toNat < HarmonyState.ready.toNat := by decide

lemma launched_keeps {d d' : Descriptor V} {e : LaunchEnv V} {ret : ℤ}
    (h : d.launched e = .ok (ret, d')) : Keeps d d' := by
  unfold launched at h
  split_ifs at h
  · cases h
    exact ⟨rfl, rfl, Or.inl rfl⟩
  · dsimp only at h
    split at h
    · cases h
    · cases h
      exact ⟨rfl, rfl, Or.inr connected_lt_ready⟩
    · next cfg _ =>
      by_cases hname : d.sig.name = none
      · rw [if_pos hname] at h
        cases h
      · rw [if_neg hname] at h
        obtain ⟨-, rfl⟩ := Prod.mk.inj (Except.ok.inj h)
        let d₁ : Descriptor V :=
          { d with id := some (d.id.getD e.defaultId), state := .connected, cfg := cfg }
        have hconnected : Keeps d d₁ := ⟨rfl, rfl, Or.inr connected_lt_ready⟩
        exact hconnected.trans (@sendRequest_keeps _ d₁ .session (by decide) e.session)

lemma harmonyLaunch_keeps {d d' : Descriptor V} {e : LaunchEnv V} {ret : ℤ}
    (h : d.harmonyLaunch e = .ok (ret, d')) : Keeps d d' := by
  unfold harmonyLaunch at h
  split_ifs at h
  · cases h
    exact (Keeps.refl d).fail _
  · dsimp only at h
    split at h
    · cases h
      exact ⟨rfl, rfl, Or.inl rfl⟩
    · split at h
      · cases h
      · split_ifs at h
        · cases h
          exact ⟨rfl, rfl, Or.inl rfl⟩
        · obtain ⟨hreports, hperf, hstate⟩ := launched_keeps h
          exact ⟨hreports, hperf, hstate⟩
  · exact launched_keeps h

lemma harmonyLeave_keeps (d : Descriptor V) : Keeps d d.harmonyLeave.2 := by
  unfold harmonyLeave
  split_ifs
  · exact (Keeps.refl d).fail _
  · exact ⟨rfl, rfl, Or.inr init_lt_ready⟩

/-- `set_values` leaves the state of the descriptor alone. -/
lemma setValues_keeps {d : Descriptor V} {pt : HPoint V} {ret : ℤ} {h : HDesc V}
    (hset : d.setValues pt = (ret, h)) : Keeps d { d with toHDesc := h } := by
  have hframe := d.toHDesc.setValues_frame pt
  rw [hset] at hframe
  exact ⟨rfl, rfl, Or.inl hframe.2.2⟩

lemma updateBest_state (h : HDesc V) (pt : HPoint V) : (h.updateBest pt).state = h.state := by
  unfold HDesc.updateBest
  split_ifs <;> rfl

lemma installBest_keeps (d : Descriptor V) (retval : ℤ) : Keeps d (d.installBest retval).2 := by
  unfold installBest
  split_ifs
  · exact Keeps.refl d
  · exact setValues_keeps rfl

lemma harmonyBest_keeps {d d' : Descriptor V} {x : Exchange V} {ret : ℤ}
    (h : d.harmonyBest x = .ok (ret, d')) : Keeps d d' := by
  have hsend := @sendRequest_keeps _ d .best (by decide) x
  unfold harmonyBest at h
  split_ifs at h
  · split at h
    · next d₁ heq =>
      rw [heq] at hsend
      cases h
      exact hsend
    · next mesg d₁ heq =>
      rw [heq] at hsend
      split_ifs at h
      · cases h
        exact hsend.fail _
      · split at h
        · next pt _ =>
          let d₂ : Descriptor V := { d₁ with toHDesc := d₁.updateBest pt }
          have hbest : Keeps d₁ d₂ := ⟨rfl, rfl, Or.inl (updateBest_state _ _)⟩
          by_cases hnew : d₁.best.id < pt.id
          · rw [if_pos hnew] at h
            have hinstall := installBest_keeps d₂ 1
            rw [Except.ok.inj h] at hinstall
            exact (hsend.trans hbest).trans hinstall
          · rw [if_neg hnew] at h
            have hinstall := installBest_keeps d₁ 0
            rw [Except.ok.inj h] at hinstall
            exact hsend.trans hinstall
        · cases h
  · have hinstall := installBest_keeps d 0
    rw [Except.ok.inj h] at hinstall
    exact hinstall

/-- A join reports nothing, and makes the descriptor ready only with a performance buffer. -/
def Joins (d d' : Descriptor V) : Prop :=
  d'.reports = d.reports ∧
    (d'.state = .ready ∧ d'.HasPerf ∨ d'.state.toNat < HarmonyState.ready.toNat)

lemma Keeps.joins {d d' : Descriptor V} (h : Keeps d d')
    (hstate : d.state.toNat < HarmonyState.ready.toNat) : Joins d d' := by
  refine ⟨h.reports, Or.inr ?_⟩
  obtain heq | hlt := h.state
  · rw [heq]
    exact hstate
  · exact hlt

lemma Joins.of_keeps {d d' d'' : Descriptor V} (h : Keeps d d') (h' : Joins d' d'') : Joins d d'' :=
  ⟨h'.1.trans h.reports, h'.2⟩

lemma Keeps.lt_ready {d d' : Descriptor V} (h : Keeps d d')
    (hstate : d.state.toNat < HarmonyState.ready.toNat) :
    d'.state.toNat < HarmonyState.ready.toNat := by
  obtain heq | hlt := h.state
  · rw [heq]
    exact hstate
  · exact hlt

variable {D}

lemma joinPerf_joins {d d' : Descriptor V} {e : JoinEnv V} {ret : ℤ}
    (hstate : d.state.toNat < HarmonyState.ready.toNat) (h : d.joinPerf D e = (ret, d')) :
    Joins d d' := by
  have hkeep := d.harmonyGetcfg_keeps e.getcfg
  unfold joinPerf at h
  dsimp only at h
  split_ifs at h
  · cases h
    exact (hkeep.fail _).joins hstate
  · cases h
    exact ⟨hkeep.reports, Or.inr (hkeep.lt_ready hstate)⟩
  · cases h
    exact ⟨hkeep.reports, Or.inl ⟨rfl, _, rfl⟩⟩

lemma joinRequest_joins {d d' : Descriptor V} {e : JoinEnv V} {applyArgv : Bool} {ret : ℤ}
    (hstate : d.state.toNat < HarmonyState.ready.toNat)
    (h : d.joinRequest D e applyArgv = .ok (ret, d')) : Joins d d' := by
  have hsend := @sendRequest_keeps _ d .join (by decide) e.join
  unfold joinRequest at h
  by_cases hname : d.sig.name = none
  · rw [if_pos hname] at h
    cases h
    exact ((Keeps.refl d).fail _).joins hstate
  · rw [if_neg hname] at h
    split at h
    · next d₁ heq =>
      rw [heq] at hsend
      cases h
      exact hsend.joins hstate
    · next mesg d₁ heq =>
      rw [heq] at hsend
      by_cases hstatus : mesg.status ≠ .ok
      · rw [if_pos hstatus] at h
        cases h
        exact (hsend.fail _).joins hstate
      · rw [if_neg hstatus] at h
        split at h
        · next sig _ =>
          dsimp only at h
          split at h
          · cases h
          · cases h
            exact ⟨hsend.reports, Or.inr (hsend.lt_ready hstate)⟩
          · next cfg _ =>
            let d₂ : Descriptor V := { d₁ with sig := sig, cfg := cfg }
            have hcopy : Keeps d d₂ := hsend.trans ⟨rfl, rfl, Or.inl rfl⟩
            exact Joins.of_keeps hcopy (joinPerf_joins (hcopy.lt_ready hstate) (Except.ok.inj h))
        · cases h

lemma harmonyJoin_joins {d d' : Descriptor V} {e : JoinEnv V} {ret : ℤ}
    (h : d.harmonyJoin D e = .ok (ret, d')) : Keeps d d' ∨ Joins d d' := by
  unfold harmonyJoin at h
  split_ifs at h with hvars hready hinit hconnect hname
  · cases h
    exact Or.inl ((Keeps.refl d).fail _)
  · cases h
    exact Or.inl ((Keeps.refl d).fail _)
  · cases h
    exact Or.inl ((Keeps.refl d).fail _)
  · cases h
    exact Or.inl ⟨rfl, rfl, Or.inr connected_lt_ready⟩
  · let d₁ : Descriptor V := { d with
      id := some (d.id.getD e.defaultId)
      state := .connected
      sig := { d.sig with name := e.name } }
    have hconnected : Keeps d d₁ := ⟨rfl, rfl, Or.inr connected_lt_ready⟩
    exact Or.inr (Joins.of_keeps hconnected (joinRequest_joins connected_lt_ready h))
  · exact Or.inr (joinRequest_joins (not_le.mp hready) h)

/-- A fetch reports nothing; if it returns 1 a point can be tested, otherwise the state stays. -/
def Fetches (d d' : Descriptor V) (ret : ℤ) : Prop :=
  d'.reports = d.reports ∧ (ret = 1 ∧ d'.state = .testing ∧ d'.HasPerf ∨ ret ≠ 1 ∧ Keeps d d')

lemma setValues_fst_iff {d : Descriptor V} {pt : HPoint V} : (d.setValues pt).1 = 0 ↔ d.Fits pt := by
  have hwrite : ∀ vals vars : List (HVal V), vars.length = vals.length →
      ((HDesc.writeVals vals vars).1 = true ↔ .unknown ∉ vals) := by
    intro vals
    induction vals with
    | nil => exact fun vars _ => ⟨fun _ => List.not_mem_nil, fun _ => rfl⟩
    | cons v vals ih =>
      intro vars hlen
      cases vars with
      | nil => cases hlen
      | cons old vars =>
        have hrest := ih vars (Nat.succ.inj hlen)
        cases v with
        | unknown =>
          constructor
          · intro h
            cases h
          · intro h
            exact absurd List.mem_cons_self h
        | int i =>
          rw [List.mem_cons, not_or]
          exact ⟨fun h => ⟨nofun, hrest.mp h⟩, fun h => hrest.mpr h.2⟩
        | real r =>
          rw [List.mem_cons, not_or]
          exact ⟨fun h => ⟨nofun, hrest.mp h⟩, fun h => hrest.mpr h.2⟩
        | str t =>
          rw [List.mem_cons, not_or]
          exact ⟨fun h => ⟨nofun, hrest.mp h⟩, fun h => hrest.mpr h.2⟩
  unfold HDesc.setValues Fits
  by_cases hlen : d.vars.length = pt.val.length
  · rw [if_neg (not_not_intro hlen), ← hwrite pt.val d.vars hlen]
    split
    · next vars heq =>
      rw [heq]
      exact ⟨fun _ => ⟨hlen, rfl⟩, fun _ => rfl⟩
    · next vars heq =>
      rw [heq]
      exact ⟨fun h => absurd (show (-1 : ℤ) = 0 from h) (by decide), fun h => Bool.noConfusion h.2⟩
  · rw [if_pos hlen]
    exact ⟨fun h => absurd (show (-1 : ℤ) = 0 from h) (by decide), fun h => absurd h.1 hlen⟩

lemma installCurr_fetches {d d' : Descriptor V} {ret : ℤ} (h : d.installCurr D = .ok (ret, d')) :
    Fetches d d' ret := by
  unfold installCurr at h
  cases hset : d.setValues d.curr with
  | mk r hd =>
    have hkeep := setValues_keeps hset
    rw [hset] at h
    dsimp only at h
    by_cases hr : r ≠ 0
    · rw [if_pos hr] at h
      cases h
      exact ⟨rfl, Or.inr ⟨by decide, hkeep⟩⟩
    · rw [if_neg hr] at h
      split at h
      · cases h
        exact ⟨rfl, Or.inl ⟨rfl, rfl, _, rfl⟩⟩
      · cases h

/-- The buffer is missed exactly if the point fits the variables. -/
lemma installCurr_perf_iff {d d₁ : Descriptor V} (hvars : d₁.vars = d.vars) (hperf : d₁.perf = d.perf) :
    d₁.installCurr D = .error .perf ↔ d.Fits d₁.curr ∧ ¬ d.HasPerf := by
  have hfits : d.Fits d₁.curr ↔ d₁.Fits d₁.curr := by
    unfold Fits
    rw [hvars]
  rw [hfits, ← setValues_fst_iff]
  unfold installCurr HasPerf
  rw [← hperf]
  cases hset : d₁.setValues d₁.curr with
  | mk r hd =>
    dsimp only
    by_cases hr : r ≠ 0
    · rw [if_pos hr]
      exact ⟨nofun, fun h => absurd h.1 hr⟩
    · rw [if_neg hr]
      cases d₁.perf with
      | wild => exact ⟨fun _ => ⟨not_not.mp hr, nofun⟩, fun _ => rfl⟩
      | null => exact ⟨fun _ => ⟨not_not.mp hr, nofun⟩, fun _ => rfl⟩
      | buf perf => exact ⟨nofun, fun h => absurd ⟨perf, rfl⟩ h.2⟩

lemma updateBest_best (h : HDesc V) (pt : HPoint V) : (h.updateBest pt).best =
    if h.best.id ≥ pt.id then h.best else hpointCopy pt := by
  unfold HDesc.updateBest
  split_ifs <;> rfl

lemma updateBest_vars (h : HDesc V) (pt : HPoint V) : (h.updateBest pt).vars = h.vars := by
  unfold HDesc.updateBest
  split_ifs <;> rfl

lemma Fetches.of_keeps {d d₁ d' : Descriptor V} {ret : ℤ} (h : Keeps d d₁) (h' : Fetches d₁ d' ret) :
    Fetches d d' ret := by
  obtain ⟨hreports, htested | ⟨hret, hkeep⟩⟩ := h'
  · exact ⟨hreports.trans h.reports, Or.inl htested⟩
  · exact ⟨hreports.trans h.reports, Or.inr ⟨hret, h.trans hkeep⟩⟩

lemma Keeps.fetches {d d' : Descriptor V} (h : Keeps d d') {ret : ℤ} (hret : ret ≠ 1) :
    Fetches d d' ret :=
  ⟨h.reports, Or.inr ⟨hret, h⟩⟩

lemma harmonyFetch_fetches {d d' : Descriptor V} {x : Exchange V} {ret : ℤ}
    (h : d.harmonyFetch D x = .ok (ret, d')) : Fetches d d' ret := by
  have hsend := @sendRequest_keeps _ d .fetch (by decide) x
  unfold harmonyFetch at h
  split_ifs at h
  · cases h
    exact ((Keeps.refl d).fail _).fetches (by decide)
  · split at h
    · next d₁ heq =>
      rw [heq] at hsend
      cases h
      exact hsend.fetches (by decide)
    · next mesg d₁ heq =>
      rw [heq] at hsend
      split_ifs at h
      · split at h
        · next pt _ =>
          dsimp only at h
          let d₂ : Descriptor V := { d₁ with toHDesc := d₁.updateBest pt }
          have hbest : Keeps d d₂ := hsend.trans ⟨rfl, rfl, Or.inl (updateBest_state _ _)⟩
          split_ifs at h
          · cases h
            exact hbest.fetches (by decide)
          · let d₃ : Descriptor V := { d₂ with curr := hpointCopy d₂.best }
            have hcurr : Keeps d d₃ := hbest.trans ⟨rfl, rfl, Or.inl rfl⟩
            exact Fetches.of_keeps hcurr (installCurr_fetches h)
        · cases h
      · split at h
        · next pt _ =>
          let d₂ : Descriptor V := { d₁ with curr := hpointCopy pt }
          have hcurr : Keeps d d₂ := hsend.trans ⟨rfl, rfl, Or.inl rfl⟩
          exact Fetches.of_keeps hcurr (installCurr_fetches h)
        · cases h
      · cases h
        exact (hsend.fail _).fetches (by decide)

/-- A fetch misses the buffer exactly if it is not proper. -/
lemma harmonyFetch_perf_iff {d : Descriptor V} {x : Exchange V} :
    d.harmonyFetch D x = .error .perf ↔ ¬ d.Proper D (.fetch x) := by
  obtain ⟨hreply, msg, hafter⟩ := sendRequest_eq d .fetch x
  show _ ↔ ¬ (_ ∨ _ ∨ _)
  unfold harmonyFetch
  split_ifs with hstate
  · exact ⟨nofun, fun h => absurd (Or.inl hstate) h⟩
  · rw [not_or, not_or]
    split
    · next d₁ heq =>
      rw [heq] at hreply
      constructor
      · intro h
        cases h
      · intro h
        apply absurd _ h.2.2
        intro mesg hmesg
        rw [← hreply] at hmesg
        cases hmesg
    · next mesg d₁ heq =>
      rw [heq] at hreply hafter
      have hafter : d₁ = _ := hafter
      have hpoint : (¬ d.HasPerf ∧ ¬ ∀ mesg, x.reply .fetch = some mesg →
          ∀ pt, d.nextPoint mesg = some pt → ¬ d.Fits pt) ↔
          ∃ pt, d.nextPoint mesg = some pt ∧ d.Fits pt ∧ ¬ d.HasPerf := by
        rw [← hreply]
        constructor
        · intro ⟨hperf, hall⟩
          by_contra hnone
          apply hall
          intro mesg' heq' pt hpt hfits
          obtain rfl := Option.some.inj heq'
          exact hnone ⟨pt, hpt, hfits, hperf⟩
        · intro ⟨pt, hpt, hfits, hperf⟩
          exact ⟨hperf, fun hall => hall mesg rfl pt hpt hfits⟩
      rw [hpoint]
      unfold nextPoint
      by_cases hbusy : mesg.status = .busy
      · rw [if_pos hbusy, hbusy]
        cases hdata : mesg.data with
        | point pt =>
          dsimp only
          have hbest : (d₁.updateBest pt).best = (d.updateBest pt).best := by
            rw [updateBest_best, updateBest_best, hafter]
          rw [hbest]
          by_cases hid : (d.updateBest pt).best.id = -1
          · rw [if_pos hid, if_pos hid]
            exact ⟨nofun, nofun⟩
          · rw [if_neg hid, if_neg hid,
              @installCurr_perf_iff _ _ d _ (by rw [updateBest_vars, hafter]) (by rw [hafter])]
            constructor
            · intro h
              exact ⟨hstate, _, rfl, h⟩
            · intro h
              obtain ⟨-, pt', heq, h⟩ := h
              rwa [Option.some.inj heq]
        | none => exact ⟨nofun, nofun⟩
        | session s => exact ⟨nofun, nofun⟩
        | join sig => exact ⟨nofun, nofun⟩
        | report candId perf => exact ⟨nofun, nofun⟩
        | string t => exact ⟨nofun, nofun⟩
      · rw [if_neg hbusy]
        by_cases hok : mesg.status = .ok
        · rw [if_pos hok, hok]
          cases hdata : mesg.data with
          | point pt =>
            dsimp only
            rw [@installCurr_perf_iff _ _ d _ (by rw [hafter]) (by rw [hafter])]
            constructor
            · intro h
              exact ⟨hstate, _, rfl, h⟩
            · intro h
              obtain ⟨-, pt', heq, h⟩ := h
              rwa [Option.some.inj heq]
          | none => exact ⟨nofun, nofun⟩
          | session s => exact ⟨nofun, nofun⟩
          | join sig => exact ⟨nofun, nofun⟩
          | report candId perf => exact ⟨nofun, nofun⟩
          | string t => exact ⟨nofun, nofun⟩
        · rw [if_neg hok]
          refine ⟨nofun, ?_⟩
          intro h
          obtain ⟨-, pt, hpt, -⟩ := h
          split at hpt
          · next hstatus _ => exact absurd hstatus hbusy
          · next hstatus _ => exact absurd hstatus hok
          · cases hpt

/-- `harmony_report_one` misses the buffer exactly if it is not proper. -/
lemma harmonyReportOne_perf_iff {d : Descriptor V} {index : ℤ} {value : V} :
    d.harmonyReportOne index value = .error .perf ↔ ¬ d.Proper D (.reportOne index value) := by
  show _ ↔ ¬ (_ ∨ _ ∨ _)
  unfold harmonyReportOne HasPerf
  by_cases hstate : d.state.toNat < HarmonyState.connected.toNat
  · rw [if_pos hstate]
    exact ⟨nofun, fun h => absurd (Or.inl hstate) h⟩
  · rw [if_neg hstate, not_or, not_or]
    by_cases hneg : index < 0
    · rw [if_pos hneg]
      exact ⟨nofun, fun h => absurd hneg h.2.1⟩
    · rw [if_neg hneg]
      cases d.perf with
      | wild => exact ⟨fun _ => ⟨hstate, hneg, nofun⟩, fun _ => rfl⟩
      | null => exact ⟨fun _ => ⟨hstate, hneg, nofun⟩, fun _ => rfl⟩
      | buf perf =>
        dsimp only
        refine ⟨fun h => ?_, fun h => absurd ⟨perf, rfl⟩ h.2.2⟩
        split_ifs at h

/-- And so does `harmony_fini`. -/
lemma harmonyFini_perf_iff {d : Descriptor V} :
    d.call D .fini = .error .perf ↔ ¬ d.Proper D .fini := by
  show d.harmonyFini.map _ = _ ↔ ¬ (d.perf ≠ .wild)
  unfold harmonyFini
  cases d.perf with
  | wild => exact ⟨fun _ => not_not_intro rfl, fun _ => rfl⟩
  | null => exact ⟨nofun, fun h => absurd nofun h⟩
  | buf perf => exact ⟨nofun, fun h => absurd nofun h⟩

lemma harmonyReportOne_keeps {d d' : Descriptor V} {index : ℤ} {value : V} {ret : ℤ}
    (h : d.harmonyReportOne index value = .ok (ret, d')) :
    d'.reports = d.reports ∧ d'.state = d.state ∧ (d.HasPerf → d'.HasPerf) := by
  unfold harmonyReportOne at h
  by_cases hstate : d.state.toNat < HarmonyState.connected.toNat
  · rw [if_pos hstate] at h
    cases h
    exact ⟨rfl, rfl, id⟩
  · rw [if_neg hstate] at h
    by_cases hneg : index < 0
    · rw [if_pos hneg] at h
      cases h
      exact ⟨rfl, rfl, id⟩
    · rw [if_neg hneg] at h
      split at h
      · split_ifs at h
        · cases h
          exact ⟨rfl, rfl, id⟩
        · cases h
          exact ⟨rfl, rfl, fun _ => ⟨_, rfl⟩⟩
        · cases h
          exact ⟨rfl, rfl, id⟩
      · cases h

/-! ## The invariant -/

/-- While a point is being tested one more point was fetched than reported, and a joined descriptor has
its performance buffer. -/
structure Inv (d : Descriptor V) (n : ℕ) : Prop where
  reports : d.reports ≤ n
  permit : d.state = .testing ∨ d.state = .converged → d.reports < n
  perf : d.state = .testing ∨ d.state = .converged ∨ d.state = .ready → d.HasPerf

lemma Inv.of_lt {d : Descriptor V} {n : ℕ} (hreports : d.reports ≤ n)
    (hstate : d.state.toNat < HarmonyState.ready.toNat) : Inv d n := by
  have hne : ∀ s : HarmonyState, HarmonyState.ready.toNat ≤ s.toNat → d.state ≠ s := by
    intro s hle heq
    rw [heq] at hstate
    omega
  have htesting := hne .testing (by decide)
  have hconverged := hne .converged (by decide)
  have hready := hne .ready (by decide)
  refine ⟨hreports, ?_, ?_⟩
  · intro h
    exact absurd h (not_or.mpr ⟨htesting, hconverged⟩)
  · intro h
    exact absurd h (not_or.mpr ⟨htesting, not_or.mpr ⟨hconverged, hready⟩⟩)

lemma Inv.keeps {d d' : Descriptor V} {n : ℕ} (h : Inv d n) (hkeep : Keeps d d') : Inv d' n := by
  obtain heq | hlt := hkeep.state
  · refine ⟨hkeep.reports.le.trans h.reports, ?_, ?_⟩
    · rw [heq, hkeep.reports]
      exact h.permit
    · rw [heq]
      unfold HasPerf
      rw [hkeep.perf]
      exact h.perf
  · exact Inv.of_lt (hkeep.reports.le.trans h.reports) hlt

/-- A state with at least the value of TESTING is TESTING or CONVERGED. -/
lemma testing_or_converged {d : Descriptor V} (h : ¬ d.state.toNat < HarmonyState.testing.toNat) :
    d.state = .testing ∨ d.state = .converged := by
  cases hstate : d.state with
  | testing => exact Or.inl rfl
  | converged => exact Or.inr rfl
  | unknown => exact absurd (by rw [hstate]; decide) h
  | init => exact absurd (by rw [hstate]; decide) h
  | connected => exact absurd (by rw [hstate]; decide) h
  | ready => exact absurd (by rw [hstate]; decide) h

lemma harmonyReport_inv {d d' : Descriptor V} {n : ℕ} {perf : Option (ℕ → V)} {x : Exchange V} {ret : ℤ}
    (hinv : Inv d n) (hproper : d.Proper D (.report perf x))
    (h : d.harmonyReport D perf x = .ok (ret, d')) : Inv d' n := by
  unfold harmonyReport at h
  split_ifs at h with hconnected htesting
  · cases h
    exact hinv.keeps ((Keeps.refl d).fail _)
  · cases h
    exact hinv
  · have hlt := hinv.permit (testing_or_converged htesting)
    split at h
    · next buf hbuf =>
      dsimp only at h
      split_ifs at h with hnan
      · -- nothing is sent
        cases h
        exact ⟨hinv.reports, hinv.permit, fun _ => ⟨_, rfl⟩⟩
      · let d₁ : Descriptor V := { d with perf := .buf (reportPerf buf perf) }
        have hreply := (sendRequest_eq d₁ .report x).1
        have hcount := sendRequest_count d₁ x
        have hstate := d₁.sendRequest_state .report x
        have hperf := d₁.sendRequest_perf .report x
        have hsent : x.IsSent = false ∨ ∃ mesg, x.reply .report = some mesg ∧ mesg.status = .ok := by
          obtain hlow | ⟨buf', hbuf', hnan'⟩ | hsent := hproper
          · exact absurd hlow htesting
          · rw [hbuf] at hbuf'
            cases hbuf'
            exact absurd hnan' hnan
          · exact hsent
        split at h
        · next d₂ heq =>
          cases h
          rw [heq] at hreply hcount hstate hperf
          -- there was no answer, so nothing was sent
          have hnot : x.IsSent = false := by
            apply hsent.resolve_right
            intro ⟨mesg, hmesg, _⟩
            rw [← hreply] at hmesg
            cases hmesg
          have hsame : d'.reports = d.reports := by
            rw [hnot] at hcount
            exact hcount
          exact ⟨hsame.le.trans hinv.reports, fun _ => hsame.trans_lt hlt, fun _ => ⟨_, hperf⟩⟩
        · next mesg d₂ heq =>
          rw [heq] at hreply hcount hperf
          have hok : mesg.status = .ok := by
            obtain hnot | ⟨mesg', hmesg', hok⟩ := hsent
            · cases x with
              | sendFails => cases hreply
              | sent inbox => cases hnot
            · rw [← hreply] at hmesg'
              cases hmesg'
              exact hok
          rw [if_neg (not_not_intro hok)] at h
          cases h
          have hle : d₂.reports ≤ d.reports + 1 := by
            have heq' : d₂.reports = d.reports + if x.IsSent then 1 else 0 := hcount
            rw [heq']
            split_ifs <;> omega
          refine ⟨hle.trans hlt, ?_, fun _ => ⟨_, hperf⟩⟩
          intro hwrong
          obtain hwrong | hwrong := hwrong
          · cases hwrong
          · cases hwrong
    · cases h

lemma harmonyGetcfg_some {d : Descriptor V} {x : Exchange V} {val : Bytes}
    (h : (d.harmonyGetcfg x).1 = some val) : ¬ d.state.toNat < HarmonyState.connected.toNat ∧
      ∃ mesg, x.reply .getcfg = some mesg ∧ mesg.status = .ok ∧ mesg.data.str = some val := by
  obtain ⟨hreply, -⟩ := sendRequest_eq d .getcfg x
  unfold harmonyGetcfg at h
  by_cases hstate : d.state.toNat < HarmonyState.connected.toNat
  · rw [if_pos hstate] at h
    cases h
  · rw [if_neg hstate] at h
    refine ⟨hstate, ?_⟩
    split at h
    · cases h
    · next mesg d₁ heq =>
      rw [heq] at hreply
      by_cases hok : mesg.status = .ok
      · rw [if_neg (not_not_intro hok)] at h
        exact ⟨mesg, hreply.symm, hok, h⟩
      · rw [if_pos hok] at h
        cases h

lemma harmonyConverged_inv {d : Descriptor V} {n : ℕ} {x : Exchange V} (hinv : Inv d n)
    (hproper : d.Proper D (.converged x)) : Inv (d.harmonyConverged x).2 n := by
  have hkeep := d.harmonyGetcfg_keeps x
  unfold harmonyConverged
  dsimp only
  by_cases hone : (d.harmonyGetcfg x).1.bind List.head? = some 49
  · rw [if_pos hone]
    -- the descriptor was allowed to report before
    obtain ⟨val, hval, hhead⟩ := Option.bind_eq_some_iff.mp hone
    obtain ⟨hconnected, mesg, hmesg, hok, hstr⟩ := harmonyGetcfg_some hval
    have hstate : d.state = .testing ∨ d.state = .converged := by
      obtain hlow | htesting | hconverged | hother := hproper
      · exact absurd hlow hconnected
      · exact Or.inl htesting
      · exact Or.inr hconverged
      · apply absurd _ (hother mesg hmesg hok)
        rw [hstr]
        exact hhead
    obtain ⟨perf, hperf⟩ := hinv.perf (hstate.imp_right Or.inl)
    refine ⟨hkeep.reports.le.trans hinv.reports, ?_, ?_⟩
    · intro _
      exact hkeep.reports.trans_lt (hinv.permit hstate)
    · intro _
      exact ⟨perf, hkeep.perf.trans hperf⟩
  · rw [if_neg hone]
    exact hinv.keeps hkeep

/-- A proper call keeps the invariant. -/
lemma Inv.call {d d' : Descriptor V} {n : ℕ} {c : ApiCall V} {ret : ℤ} (hinv : Inv d n)
    (hproper : d.Proper D c) (h : d.call D c = .ok (ret, d')) : Inv d' (countFetch c ret n) := by
  cases c with
  | launch e => exact hinv.keeps (harmonyLaunch_keeps h)
  | bind name bounds var =>
    cases h
    exact hinv.keeps ⟨rfl, rfl, Or.inl rfl⟩
  | join e =>
    obtain hkeep | ⟨hreports, ⟨hready, hperf⟩ | hlt⟩ := harmonyJoin_joins h
    · exact hinv.keeps hkeep
    · refine ⟨hreports.le.trans hinv.reports, ?_, fun _ => hperf⟩
      intro hwrong
      rw [hready] at hwrong
      obtain hwrong | hwrong := hwrong
      · cases hwrong
      · cases hwrong
    · exact Inv.of_lt (hreports.le.trans hinv.reports) hlt
  | fetch x =>
    obtain ⟨hreports, ⟨hret, htesting, hperf⟩ | ⟨hret, hkeep⟩⟩ := harmonyFetch_fetches h
    · have hcount : countFetch (.fetch x : ApiCall V) ret n = n + 1 := if_pos hret
      have hle := hreports.le.trans hinv.reports
      rw [hcount]
      exact ⟨by omega, fun _ => by omega, fun _ => hperf⟩
    · have hcount : countFetch (.fetch x : ApiCall V) ret n = n := if_neg hret
      rw [hcount]
      exact hinv.keeps hkeep
  | reportOne index value =>
    obtain ⟨hreports, hstate, hperf⟩ := harmonyReportOne_keeps h
    refine ⟨hreports.le.trans hinv.reports, ?_, ?_⟩
    · rw [hstate, hreports]
      exact hinv.permit
    · rw [hstate]
      exact fun hjoined => hperf (hinv.perf hjoined)
  | report perf x => exact harmonyReport_inv hinv hproper h
  | best x => exact hinv.keeps (harmonyBest_keeps h)
  | converged x =>
    have hnext := harmonyConverged_inv hinv hproper
    rw [Except.ok.inj h] at hnext
    exact hnext
  | leave =>
    have hkeep := d.harmonyLeave_keeps
    rw [Except.ok.inj h] at hkeep
    exact hinv.keeps hkeep
  | fini =>
    have hsame : (0, d) = (ret, d') := by
      have hfini : d.harmonyFini.map (fun _ => (0, d)) = .ok (ret, d') := h
      cases hfree : d.harmonyFini with
      | error fault =>
        rw [hfree] at hfini
        cases hfini
      | ok u =>
        rw [hfree] at hfini
        exact Except.ok.inj hfini
    cases hsame
    exact hinv

/-- The directives of the command line have nothing to do with the performance buffer. -/
lemma launchArgv_ne (cmds : List Bytes) (cfg : Hcfg) : launchArgv cmds cfg ≠ .error .perf := by
  intro h
  induction cmds generalizing cfg with
  | nil => cases h
  | cons cmd cmds ih =>
    rw [launchArgv] at h
    split_ifs at h
    split at h
    · split at h
      · split_ifs at h
        exact ih _ h
      · cases h
    · cases h

lemma joinArgv_ne (cmds : List Bytes) (cfg : Hcfg) : joinArgv cmds cfg ≠ .error .perf := by
  intro h
  induction cmds generalizing cfg with
  | nil => cases h
  | cons cmd cmds ih =>
    rw [joinArgv] at h
    split_ifs at h
    split at h
    · split at h
      · split_ifs at h
        exact ih _ h
      · cases h
    · cases h

lemma launched_ne (d : Descriptor V) (e : LaunchEnv V) : d.launched e ≠ .error .perf := by
  intro h
  unfold launched at h
  split_ifs at h
  dsimp only at h
  split at h
  · next fault heq =>
    cases h
    exact launchArgv_ne _ _ heq
  · cases h
  · split_ifs at h
    cases h

lemma harmonyLaunch_ne (d : Descriptor V) (e : LaunchEnv V) : d.harmonyLaunch e ≠ .error .perf := by
  intro h
  unfold harmonyLaunch at h
  split_ifs at h
  · dsimp only at h
    split at h
    · cases h
    · split at h
      · cases h
      · split_ifs at h
        exact launched_ne _ _ h
  · exact launched_ne _ _ h

lemma joinRequest_ne (d : Descriptor V) (e : JoinEnv V) (applyArgv : Bool) :
    d.joinRequest D e applyArgv ≠ .error .perf := by
  intro h
  unfold joinRequest at h
  by_cases hname : d.sig.name = none
  · rw [if_pos hname] at h
    cases h
  · rw [if_neg hname] at h
    split at h
    · cases h
    · next mesg d₁ _ =>
      by_cases hstatus : mesg.status ≠ .ok
      · rw [if_pos hstatus] at h
        cases h
      · rw [if_neg hstatus] at h
        split at h
        · dsimp only at h
          split at h
          · next fault heq =>
            cases h
            exact joinArgv_ne _ _ heq
          · cases h
          · cases h
        · cases h

lemma harmonyJoin_ne (d : Descriptor V) (e : JoinEnv V) : d.harmonyJoin D e ≠ .error .perf := by
  intro h
  unfold harmonyJoin at h
  split_ifs at h
  · exact joinRequest_ne _ _ _ h
  · exact joinRequest_ne _ _ _ h

lemma harmonyBest_ne (d : Descriptor V) (x : Exchange V) : d.harmonyBest x ≠ .error .perf := by
  intro h
  unfold harmonyBest at h
  split_ifs at h
  split at h
  · cases h
  · split_ifs at h
    split at h
    · split_ifs at h
    · cases h

/-- Nor does a proper call miss the performance buffer. -/
lemma Inv.no_fault {d : Descriptor V} {n : ℕ} {c : ApiCall V} (hinv : Inv d n)
    (hproper : d.Proper D c) : d.call D c ≠ .error .perf := by
  cases c with
  | launch e => exact d.harmonyLaunch_ne e
  | bind name bounds var => nofun
  | join e => exact d.harmonyJoin_ne e
  | fetch x => exact fun h => harmonyFetch_perf_iff.mp h hproper
  | reportOne index value => exact fun h => harmonyReportOne_perf_iff.mp h hproper
  | report perf x =>
    intro h
    have hreport : d.harmonyReport D perf x = .error .perf := h
    unfold harmonyReport at hreport
    split_ifs at hreport with hconnected htesting
    obtain ⟨buf, hbuf⟩ := hinv.perf ((testing_or_converged htesting).imp_right Or.inl)
    rw [hbuf] at hreport
    dsimp only at hreport
    split_ifs at hreport
    split at hreport
    · cases hreport
    · split_ifs at hreport
  | best x => exact d.harmonyBest_ne x
  | converged x => nofun
  | leave => nofun
  | fini => exact fun h => harmonyFini_perf_iff.mp h hproper

/-- In a run of proper calls no more reports are sent than fetches have returned 1, and the performance
buffer is used only when a join has allocated it. -/
theorem calls_in_order {d : Descriptor V} {n : ℕ} (h : Reached D (Proper D) d n) :
    d.reports ≤ n ∧ ∀ c, d.Proper D c → d.call D c ≠ .error .perf := by
  have hinv : Inv d n := by
    induction h with
    | init argv => exact Inv.of_lt (le_refl _) init_lt_ready
    | call _ _ hproper hcall ih => exact ih.call hproper hcall
  exact ⟨hinv.reports, fun c hproper => hinv.no_fault hproper⟩

/-! ## Two programs -/

/-- Integers, with `none` for NaN. -/
def intDoubles : Doubles (Option ℤ) where
  infinity := some (2 ^ 63)
  nan := none
  isnan := Option.isNone

/-- A session with one variable. -/
def tileSig : HSignature (Option ℤ) := ⟨some (cstr "s"), [⟨some (cstr "tile"), .int 1 8 1⟩]⟩

/-- Joining it. -/
def joinTile : JoinEnv (Option ℤ) where
  name := some (cstr "s")
  connects := true
  defaultId := cstr "host_1_3"
  join := .sent [⟨0, .join, .ok, none, .join tileSig⟩]
  getcfg := .sent [⟨0, .getcfg, .ok, none, .string (some (cstr "1"))⟩]
  allocates := true

/-- The program has bound the variable. -/
def boundTile : Descriptor (Option ℤ) :=
  ((harmonyInit []).ptrBind (cstr "tile") (.int 0 0 0) (.int 0)).2

lemma Reached.step {ok : Descriptor V → ApiCall V → Prop} {d d' : Descriptor V} {n : ℕ} {c : ApiCall V}
    {ret : ℤ} (h : Reached D ok d n) (hcall : (d.call D c).toOption = some (ret, d')) (hok : ok d c)
    (hfini : c ≠ .fini) : Reached D ok d' (countFetch c ret n) := by
  apply h.call hfini hok
  cases hres : d.call D c with
  | error fault =>
    rw [hres] at hcall
    cases hcall
  | ok res =>
    rw [hres] at hcall
    rw [Option.some.inj hcall]

lemma boundTile_reached (ok : Descriptor (Option ℤ) → ApiCall (Option ℤ) → Prop)
    (h : ok (harmonyInit []) (.bind (cstr "tile") (.int 0 0 0) (.int 0))) :
    Reached intDoubles ok boundTile 0 :=
  @Reached.step _ _ _ _ _ _ (.bind (cstr "tile") (.int 0 0 0) (.int 0)) 0 (.init []) rfl h nofun

/-- It joins, fetches a point and reports its performance. -/
theorem tile_reported : ∃ d : Descriptor (Option ℤ), d.reports = 1 ∧ d.reports ≤ 1 ∧
    ∀ c, d.Proper intDoubles c → d.call intDoubles c ≠ .error .perf := by
  have hall : ((boundTile.call intDoubles (.join joinTile)).toOption.bind fun r =>
      (r.2.call intDoubles (.fetch (.sent [⟨0, .fetch, .ok, none, .point ⟨1, [.int 4]⟩⟩]))).toOption.bind
        fun r' => (r'.2.call intDoubles (.report (some fun _ => some 7)
          (.sent [⟨0, .report, .ok, none, .none⟩]))).toOption.map
            fun r'' => (r.2.perf, r'.1, r''.2.reports)) =
      some (.buf ⟨[some (2 ^ 63)]⟩, 1, 1) := by decide +kernel
  obtain ⟨⟨ret, d⟩, hjoin, hall⟩ := Option.bind_eq_some_iff.mp hall
  obtain ⟨⟨ret', d'⟩, hfetch, hall⟩ := Option.bind_eq_some_iff.mp hall
  obtain ⟨⟨ret'', d''⟩, hreport, hall⟩ := Option.map_eq_some_iff.mp hall
  obtain ⟨hperf, hall⟩ := Prod.mk.inj hall
  obtain ⟨rfl, hreports⟩ := Prod.mk.inj hall
  have hjoined : Reached intDoubles (Proper intDoubles) d 0 :=
    (boundTile_reached _ trivial).step hjoin trivial nofun
  have hfetched : Reached intDoubles (Proper intDoubles) d' 1 :=
    hjoined.step hfetch (Or.inr (Or.inl ⟨_, hperf⟩)) nofun
  have hreported : Reached intDoubles (Proper intDoubles) d'' 1 :=
    hfetched.step hreport (Or.inr (Or.inr (Or.inr ⟨_, rfl, rfl⟩))) nofun
  exact ⟨d'', hreports, calls_in_order hreported⟩

/-- A descriptor that never joined cannot be freed, and one that has joined and finds that the search has
converged reports a point that it never fetched. -/
theorem report_without_fetch :
    (harmonyInit []).call intDoubles .fini = .error .perf ∧
      ∃ d : Descriptor (Option ℤ), Reached intDoubles (fun _ _ => True) d 0 ∧ d.reports = 1 := by
  refine ⟨rfl, ?_⟩
  have hall : ((boundTile.call intDoubles (.join joinTile)).toOption.bind fun r =>
      (r.2.call intDoubles (.converged
        (.sent [⟨0, .getcfg, .ok, none, .string (some (cstr "1"))⟩]))).toOption.bind
        fun r' => (r'.2.call intDoubles (.report (some fun _ => some 7)
          (.sent [⟨0, .report, .ok, none, .none⟩]))).toOption.map fun r'' => r''.2.reports) =
      some 1 := by decide +kernel
  obtain ⟨⟨ret, d⟩, hjoin, hall⟩ := Option.bind_eq_some_iff.mp hall
  obtain ⟨⟨ret', d'⟩, hconverged, hall⟩ := Option.bind_eq_some_iff.mp hall
  obtain ⟨⟨ret'', d''⟩, hreport, hreports⟩ := Option.map_eq_some_iff.mp hall
  have hjoined : Reached intDoubles (fun _ _ => True) d 0 :=
    (boundTile_reached _ trivial).step hjoin trivial nofun
  have hfound : Reached intDoubles (fun _ _ => True) d' 0 :=
    hjoined.step hconverged trivial nofun
  exact ⟨d'', hfound.step hreport trivial nofun, hreports⟩

end Descriptor

end ActiveHarmony

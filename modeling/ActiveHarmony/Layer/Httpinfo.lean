import ActiveHarmony.Config.ParseBuffer
import ActiveHarmony.Server.HttpRequest
import ActiveHarmony.Server.SlotReuse
import ActiveHarmony.Session.Core
import ActiveHarmony.Wire.Reception

/-!
# The status that the `httpinfo` layer reports

A session tells the server about three keys of its configuration: `httpinfo_setcfg` sends each value as
`key=value` text, which `handle_http_info` parses. Here both run, with the stream between them, and with
hooks that set keys in their turn.
-/

namespace ActiveHarmony

open TextScan
open Hserver (cfgkeySessionStrategy)

variable {V : Type}

/-! ## The session -/

/-- The keys that `httpinfo_setcfg` compares with. -/
def infoKeys : List Bytes := [cfgkeyStrategyConverged, cfgkeySessionStrategy, cfgkeySessionPaused]

/-- The message of `httpinfo_setcfg`. -/
def infoMesg (text : Bytes) : HMesg V where
  dest := -1
  type := .setcfg
  status := .req
  srcId := none
  data := .string (some text)

/-- `httpinfo_setcfg`: what it sends, if `mesg_send` does not fail. -/
def httpinfoSetcfg (fmt : LaFormat V) (key : Bytes) (val : Option Bytes) : Option Bytes :=
  if infoKeys.contains key then hmesgSerialize fmt (infoMesg (setcfgRequest key val)) else some []

/-- A call of `session_setcfg` that has not returned, and whether `httpinfo_setcfg` has returned in it. -/
structure SetcfgCall where
  key : Bytes
  val : Option Bytes
  told : Bool
deriving DecidableEq, Repr

/-! ## The server -/

/-- `val && *val == '1'`. -/
def startsWithOne (val : Option Bytes) : Bool := val.bind List.head? = some 49

/-- `handle_http_info`. There is no result where it reads behind the text, or from a null pointer. -/
def handleHttpInfo (sess : HttpEntry V) (buf : Bytes) : Option (ℤ × HttpEntry V) :=
  match hcfgParse buf with
  | none => none
  | some (key, val) =>
    if hcfgNext buf = none then some (-1, sess)
    else
      match key with
      | none => none
      | some key =>
        if key = cfgkeySessionStrategy then some (0, { sess with strategy := val })
        else if key = cfgkeyStrategyConverged then
          val.map fun val => (0, { sess with converged := startsWithOne (some val) })
        else if key = cfgkeySessionPaused then
          val.map fun val => (0, { sess with paused := startsWithOne (some val) })
        else some (0, sess)

/-- `handle_session_socket`, for a message to the server itself. There is no result if it fails. -/
def handleInfoMesg (sess : HttpEntry V) (mesg : HMesg V) : Option (HttpEntry V) :=
  if mesg.dest = -1 ∧ mesg.status = .req then
    match mesg.data with
    | .string (some text) =>
      match handleHttpInfo sess text with
      | some (ret, sess) => if ret ≠ 0 then none else some sess
      | none => none
    | _ => none
  else some sess

/-! ## Both of them -/

/-- The configuration of the session, its calls of `session_setcfg` from the inmost to the first, the bytes
under way, and the entry of the session in the server. -/
structure InfoRun (V : Type) where
  cfg : Hcfg
  calls : List SetcfgCall
  stream : Bytes
  sess : HttpEntry V
deriving DecidableEq

/-- What one of the two does next. -/
inductive InfoAct where
  /-- `session_setcfg` is called, by a hook or by the session itself. -/
  | setcfg (key : Bytes) (val : Option Bytes)
  /-- The hooks in front of `httpinfo_setcfg` return, and say whether one of them fails. -/
  | hooks (ok : Bool)
  /-- The call returns. -/
  | done
  /-- The server takes a message off the stream. -/
  | deliver
deriving DecidableEq, Repr

/-- One step; one that is not possible changes nothing. There is no result if the server fails. -/
def infoStep (fmt : LaFormat V) (s : InfoRun V) : InfoAct → Option (InfoRun V)
  | .setcfg key val =>
    (hcfgSet s.cfg key val).map fun res =>
      if res.1 ≠ 0 then { s with cfg := res.2 }
      else { s with cfg := res.2, calls := ⟨key, val, false⟩ :: s.calls }
  | .hooks ok =>
    match s.calls with
    | ⟨key, val, false⟩ :: calls =>
      match if ok then httpinfoSetcfg fmt key val else none with
      | none => some { s with calls := calls }
      | some bytes => some { s with calls := ⟨key, val, true⟩ :: calls, stream := s.stream ++ bytes }
    | _ => some s
  | .done =>
    match s.calls with
    | ⟨_, _, true⟩ :: calls => some { s with calls := calls }
    | _ => some s
  | .deliver =>
    if s.stream = [] then some s
    else do
      let (frame, rest) ← mesgRecvFrame s.stream
      let mesg ← hmesgDeserialize fmt frame
      let sess ← handleInfoMesg s.sess mesg
      return { s with stream := rest, sess := sess }

/-- A run. -/
def infoSteps (fmt : LaFormat V) (s : InfoRun V) : List InfoAct → Option (InfoRun V)
  | [] => some s
  | act :: acts => (infoStep fmt s act).bind fun s => infoSteps fmt s acts

/-- The two bits of the status. -/
inductive HttpStatus where
  | converged | paused
deriving DecidableEq, Repr

/-- The key of a bit. -/
def HttpStatus.key : HttpStatus → Bytes
  | .converged => cfgkeyStrategyConverged
  | .paused => cfgkeySessionPaused

/-- The bit in the entry of the session. -/
def HttpStatus.bit (sess : HttpEntry V) : HttpStatus → Bool
  | .converged => sess.converged
  | .paused => sess.paused

/-- A `#` that is not quoted stands in the text, before any newline. -/
def Commented (u : Bytes) : Prop :=
  ∃ (items : List Bytes) (rest : Bytes), u = items.flatten ++ 35 :: rest ∧ ∀ w ∈ items, IsItem w

/-- The text is read as a value that starts with `1`. -/
def ReadAsOne (u : Bytes) : Prop :=
  [49] <+: u ∨ [92, 49] <+: u ∨ ([92, 92, 49] <+: u ∨ [92, 92, 92, 49] <+: u) ∧ ¬Commented u

/-- The server sees the first character of the value: there is one that is not blank, and a `1` behind
blanks or backslashes only if the value starts with it. -/
structure Shown (val : Bytes) : Prop where
  visible : ∃ c u, val.dropWhile isBlank = c :: u ∧ c ≠ 10
  first : ReadAsOne (val.dropWhile isBlank) → val.head? = some 49

/-- The message about a value reaches the server, and is read by it. -/
structure Reported (key : Bytes) (val : Option Bytes) : Prop where
  /-- The message has less than ten thousand bytes. -/
  short : 30 + (decimal (setcfgRequest key val).length).length + (setcfgRequest key val).length < 10000
  /-- The value does not end in an escape. -/
  closed : ¬∃ items : List Bytes, val.getD [] = items.flatten ++ [92] ∧ ∀ w ∈ items, IsItem w
  shown : ∀ f : HttpStatus, key = f.key → Shown (val.getD [])

/-- The conditions on a step. -/
def StepOk (s : InfoRun V) : InfoAct → Prop
  | .setcfg key val =>
    SafeOp s.cfg (.set key val) ∧ (key ∈ infoKeys → Reported key val) ∧
      ∀ f : HttpStatus, foldCase key = foldCase f.key →
        key = f.key ∧ ∀ call ∈ s.calls, call.told = false → call.key ≠ f.key
  | .hooks ok => ∀ call ∈ s.calls.head?, call.told = false → ok = false → ∀ f : HttpStatus, call.key ≠ f.key
  | _ => True

/-- Every step of the run meets the conditions. -/
def StepsOk (fmt : LaFormat V) (s : InfoRun V) : List InfoAct → Prop
  | [] => True
  | act :: acts => StepOk s act ∧ ∀ s', infoStep fmt s act = some s' → StepsOk fmt s' acts

/-! ## What the server reads -/

lemma head_rdropWhile (l : Bytes) : (l.rdropWhile isSpace).head? = some 49 ↔ l.head? = some 49 := by
  cases l with
  | nil => rfl
  | cons c l =>
    by_cases hc : c = 49
    · rw [hc, rdropWhile_cons (by decide)]
      rfl
    · constructor
      · intro h
        cases hdrop : (c :: l).rdropWhile isSpace with
        | nil =>
          rw [hdrop] at h
          cases h
        | cons d l' =>
          have hbefore := List.rdropWhile_prefix isSpace (l := c :: l)
          rw [hdrop] at h hbefore
          obtain ⟨rest, hrest⟩ := hbefore
          cases hrest
          exact h
      · intro h
        exact absurd (Option.some.inj h) hc

lemma singleton_prefix_iff {d c : UInt8} {l : Bytes} : [d] <+: c :: l ↔ d = c := by
  rw [List.cons_prefix_cons]
  exact ⟨fun h => h.1, fun h => ⟨h, List.nil_prefix⟩⟩

/-- The first character of an unquoted text. -/
lemma unquote_head {d : UInt8} (hd : d ≠ 10 ∧ d ≠ 35) {u out : Bytes} {comment : Bool}
    (h : unquote u = some (out, comment)) : out.head? = some d ↔ d ≠ 92 ∧ [d] <+: u ∨ [92, d] <+: u := by
  cases u using unquote.fun_cases with
  | case1 =>
    cases h
    simp
  | case2 buf =>
    rw [unquote_newline] at h
    cases h
    rw [singleton_prefix_iff, List.cons_prefix_cons]
    simp [hd.1]
  | case3 buf =>
    rw [unquote_hash] at h
    cases h
    rw [singleton_prefix_iff, List.cons_prefix_cons]
    simp [hd.2]
  | case4 => cases h
  | case5 e buf _ _ =>
    rw [unquote_backslash] at h
    obtain ⟨⟨out', comment'⟩, -, heq⟩ := Option.map_eq_some_iff.mp h
    cases heq
    rw [singleton_prefix_iff, List.cons_prefix_cons, singleton_prefix_iff, List.head?_cons, Option.some_inj]
    constructor
    · intro h
      exact Or.inr ⟨rfl, h.symm⟩
    · rintro (⟨hne, heq⟩ | ⟨-, h⟩)
      · exact absurd heq hne
      · exact h.symm
  | case6 c buf hnl hhash hback =>
    rw [unquote_char ⟨hnl, hhash, hback⟩] at h
    obtain ⟨⟨out', comment'⟩, -, heq⟩ := Option.map_eq_some_iff.mp h
    cases heq
    rw [singleton_prefix_iff, List.cons_prefix_cons, List.head?_cons, Option.some_inj]
    constructor
    · rintro rfl
      exact Or.inl ⟨hback, rfl⟩
    · rintro (⟨-, h⟩ | ⟨h, -⟩)
      · exact h.symm
      · exact absurd h.symm hback

/-- A comment ends the value exactly if a `#` does that is not quoted. -/
lemma unquote_comment {u out : Bytes} {comment : Bool} (h : unquote u = some (out, comment)) :
    comment = true ↔ Commented u := by
  constructor
  · intro hcomment
    subst hcomment
    -- `unquote` takes the text item by item, up to the first `#` of its own.
    induction u using unquote.induct generalizing out with
    | case1 => cases h
    | case2 buf =>
      rw [unquote_newline] at h
      cases h
    | case3 buf => exact ⟨[], buf, rfl, fun w hw => absurd hw List.not_mem_nil⟩
    | case4 => cases h
    | case5 d buf _ _ ih =>
      rw [unquote_backslash] at h
      obtain ⟨⟨out', comment'⟩, hrest, heq⟩ := Option.map_eq_some_iff.mp h
      cases heq
      obtain ⟨items, rest, rfl, hitems⟩ := ih hrest
      refine ⟨[92, d] :: items, rest, rfl, ?_⟩
      intro w hw
      obtain rfl | hw := List.mem_cons.mp hw
      · exact Or.inr ⟨d, rfl⟩
      · exact hitems w hw
    | case6 c buf hnl hhash hback ih =>
      rw [unquote_char ⟨hnl, hhash, hback⟩] at h
      obtain ⟨⟨out', comment'⟩, hrest, heq⟩ := Option.map_eq_some_iff.mp h
      cases heq
      obtain ⟨items, rest, rfl, hitems⟩ := ih hrest
      refine ⟨[c] :: items, rest, rfl, ?_⟩
      intro w hw
      obtain rfl | hw := List.mem_cons.mp hw
      · exact Or.inl ⟨c, rfl, hnl, hhash, hback⟩
      · exact hitems w hw
  · rintro ⟨items, rest, rfl, hitems⟩
    induction items generalizing out with
    | nil =>
      rw [List.flatten_nil, List.nil_append, unquote_hash] at h
      cases h
      rfl
    | cons w items ih =>
      obtain ⟨c, rfl, hc⟩ | ⟨d, rfl⟩ := hitems w List.mem_cons_self
      · rw [List.flatten_cons, List.append_assoc, List.singleton_append, unquote_char hc] at h
        obtain ⟨⟨out', comment'⟩, hout, heq⟩ := Option.map_eq_some_iff.mp h
        cases heq
        exact ih (fun w hw => hitems w (List.mem_cons_of_mem _ hw)) hout
      · rw [List.flatten_cons, List.append_assoc] at h
        have h' : unquote (92 :: d :: (items.flatten ++ 35 :: rest)) = some (out, comment) := h
        rw [unquote_backslash] at h'
        obtain ⟨⟨out', comment'⟩, hout, heq⟩ := Option.map_eq_some_iff.mp h'
        cases heq
        exact ih (fun w hw => hitems w (List.mem_cons_of_mem _ hw)) hout

/-- The first character of the value that the server reads. -/
lemma valueOf_first {val : Bytes} (hvisible : ∃ c u, val.dropWhile isBlank = c :: u ∧ c ≠ 10)
    (hclosed : unquote val ≠ none) :
    ∃ w, valueOf val = some (some w) ∧ (w.head? = some 49 ↔ ReadAsOne (val.dropWhile isBlank)) := by
  obtain ⟨c, u, hdrop, hc⟩ := hvisible
  have hsome : valueOf val ≠ none := fun h => hclosed ((valueOf_eq_none_iff val).mp h)
  unfold valueOf at hsome ⊢
  rw [hdrop] at hsome ⊢
  dsimp only at hsome ⊢
  rw [if_neg hc] at hsome ⊢
  cases hunquote : unquote (c :: u) with
  | none =>
    rw [hunquote] at hsome
    exact absurd rfl hsome
  | some res =>
    obtain ⟨out, comment⟩ := res
    refine ⟨_, rfl, (head_rdropWhile _).trans ?_⟩
    have hcomment := unquote_comment hunquote
    have hone := unquote_head (d := 49) (by decide) hunquote
    have hquote := unquote_head (d := 92) (by decide) hunquote
    unfold ReadAsOne
    rw [← hcomment]
    by_cases hback : out.head? = some 92
    · -- a quoted backslash, which is passed over unless a comment ends the value
      obtain ⟨u', hu'⟩ : [92, 92] <+: c :: u := (hquote.mp hback).resolve_left fun h => h.1 rfl
      rw [← hu'] at hunquote ⊢
      have hstep : unquote (92 :: 92 :: u') = some (out, comment) := hunquote
      rw [unquote_backslash] at hstep
      obtain ⟨⟨out', comment'⟩, hrest, heq⟩ := Option.map_eq_some_iff.mp hstep
      cases heq
      have hnext := unquote_head (d := 49) (by decide) hrest
      have hcons : ∀ l : Bytes, 92 :: 92 :: l <+: [92, 92] ++ u' ↔ l <+: u' := by
        intro l
        exact List.prefix_append_right_inj [92, 92]
      rw [hcons, hcons]
      cases comment' with
      | true => simp [dropQuote, List.cons_prefix_cons]
      | false =>
        have hdropQuote : dropQuote (92 :: out') false = out' := rfl
        rw [hdropQuote, hnext]
        simp [List.cons_prefix_cons]
    · -- There is no backslash to pass over.
      have hsame : dropQuote out comment = out := by
        unfold dropQuote
        rw [if_neg fun h => hback h.2]
      have hno : ∀ l : Bytes, ¬92 :: 92 :: l <+: c :: u := by
        intro l hl
        apply hback
        exact hquote.mpr (Or.inr ((List.prefix_append [92, 92] l).trans hl))
      rw [hsame, hone]
      simp [hno]

/-! ## A message arrives -/

variable (fmt : LaFormat V)

lemma textLength_infoMesg (text : Bytes) :
    (infoMesg text : HMesg V).textLength fmt = 20 + (decimal text.length).length + text.length := by
  show 10 + 2 + 5 + ((decimal text.length).length + text.length + 3) = _
  omega

/-- A short message is sent. -/
lemma infoMesg_sent {text : Bytes} (hshort : 30 + (decimal text.length).length + text.length < 10000) :
    ∃ frame, hmesgSerialize fmt (infoMesg text) = some frame ∧ frame.length < 10000 := by
  have hmod : text.length % 2 ^ 32 = text.length := Nat.mod_eq_of_lt (by omega)
  obtain ⟨e, he⟩ : ∃ e, printstrSerial (some text) = some e := by
    refine ⟨_, if_pos ?_⟩
    rw [hmod]
    simp only [List.length_append]
    show _ + (1 + (_ + 2)) ≤ 2 ^ 31 - 1
    omega
  have hdata : hmesgSerializeData fmt (infoMesg text) = some e := he
  obtain ⟨body, hbody⟩ : ∃ body, hmesgSerializeBody fmt (infoMesg text) = some body := by
    refine ⟨cstr ":-1:INF:REQ:" ++ (cstr "0\"0\" " ++ e), ?_⟩
    show (hmesgSerializeData fmt (infoMesg text) >>= fun data =>
      pure (cstr ":-1:INF:REQ:" ++ (cstr "0\"0\" " ++ data))) = _
    rw [hdata]
    rfl
  have hlen := length_hmesgSerializeBody hbody
  rw [textLength_infoMesg] at hlen
  have hframe : hmesgSerialize fmt (infoMesg text) =
      some (hmesgHeader (hmesgHdrlen + body.length) ++ body) := by
    refine Option.bind_eq_some_iff.mpr ⟨body, hbody, if_pos ?_⟩
    show 10 + body.length ≤ 2 ^ 31 - 1
    omega
  refine ⟨_, hframe, ?_⟩
  rw [(hmesgSerialize_eq_some hframe).1, textLength_infoMesg]
  show 10 + _ < 10000
  omega

/-- The server takes a short message off the stream. -/
lemma infoMesg_received {text frame : Bytes} (hframe : hmesgSerialize fmt (infoMesg text) = some frame)
    (hshort : frame.length < 10000) (rest : Bytes) :
    mesgRecvFrame (frame ++ rest) = some (frame, rest) ∧
      ∃ mesg, hmesgDeserialize fmt frame = some mesg ∧ mesg.dest = -1 ∧ mesg.status = .req ∧
        mesg.data = .string (some text) := by
  have hfits : (infoMesg text : HMesg V).Fits := ⟨show IsInt (-1) by unfold IsInt; decide, trivial⟩
  obtain ⟨-, body, hbody⟩ := hmesgSerialize_eq_some hframe
  have hheader := headers_of_lt hshort (body ++ rest)
  rw [← List.append_assoc, ← hbody] at hheader
  refine ⟨mesgRecvFrame_append hheader.1, ?_⟩
  obtain ⟨mesg, left, hread, hdest, -, hstatus, -, hdata⟩ :=
    hmesgDeserializeBody_hmesgSerialize (infoMesg text) hfits frame hframe
  have hversion := (headers_of_lt hshort body).2
  rw [← hbody] at hversion
  refine ⟨mesg, ?_, hdest, hstatus, ?_⟩
  · unfold hmesgDeserialize
    rw [hversion, hread]
    rfl
  · have hsame := hdata rfl
    cases hmesg : mesg.data with
    | string s =>
      rw [hmesg] at hsame
      exact hsame
    | _ =>
      rw [hmesg] at hsame
      cases hsame

lemma infoKeys_cases {key : Bytes} (h : key ∈ infoKeys) :
    key = cfgkeyStrategyConverged ∨ key = cfgkeySessionStrategy ∨ key = cfgkeySessionPaused := by
  simpa [infoKeys] using h

lemma infoKeys_upper {key : Bytes} (h : key ∈ infoKeys) : IsKey key ∧ key.map toupper = key := by
  obtain rfl | rfl | rfl := infoKeys_cases h
  all_goals exact ⟨⟨by decide, List.all_eq_true.mp (by decide)⟩, by decide⟩

lemma HttpStatus.key_mem (f : HttpStatus) : f.key ∈ infoKeys := by
  cases f <;> decide

/-- The first character of a value that the server sees is that of the value. -/
lemma Shown.reads {val : Option Bytes} (h : Shown (val.getD [])) (hclosed : unquote (val.getD []) ≠ none) :
    ∃ w, valueOf (val.getD []) = some (some w) ∧ startsWithOne (some w) = startsWithOne val := by
  obtain ⟨w, hvalue, hhead⟩ := valueOf_first h.visible hclosed
  refine ⟨w, hvalue, ?_⟩
  cases val with
  | none =>
    -- The value `NULL` is sent as an empty one, which the server does not see.
    obtain ⟨c, u, hdrop, -⟩ := h.visible
    cases hdrop
  | some v =>
    have hiff : w.head? = some 49 ↔ v.head? = some 49 := by
      refine hhead.trans ⟨h.first, ?_⟩
      intro hv
      cases v with
      | nil => cases hv
      | cons c v =>
        obtain rfl := Option.some.inj hv
        exact Or.inl (singleton_prefix_iff.mpr rfl)
    exact decide_eq_decide.mpr hiff

/-- A message that is reported sets the bit of its key. -/
lemma handleHttpInfo_reported {key : Bytes} {val : Option Bytes} (hkey : key ∈ infoKeys)
    (hok : Reported key val) (sess : HttpEntry V) :
    ∃ sess', handleHttpInfo sess (setcfgRequest key val) = some (0, sess') ∧
      ∀ f : HttpStatus, f.bit sess' = if key = f.key then startsWithOne val else f.bit sess := by
  obtain ⟨hisKey, hupper⟩ := infoKeys_upper hkey
  have hclosed : unquote (val.getD []) ≠ none := fun h => hok.closed ((unquote_eq_none_iff _).mp h)
  obtain ⟨out, hout⟩ := Option.ne_none_iff_exists'.mp fun h => hclosed ((valueOf_eq_none_iff _).mp h)
  have hparse := hcfgParse_request hisKey val
  have hnext : hcfgNext (setcfgRequest key val) ≠ none := by
    unfold setcfgRequest
    rw [hcfgNext_request hisKey]
    exact Option.some_ne_none _
  rw [hout, hupper, Option.map_some] at hparse
  have hread : ∀ f : HttpStatus, key = f.key →
      ∃ w, out = some w ∧ startsWithOne (some w) = startsWithOne val := by
    intro f hf
    obtain ⟨w, hvalue, hone⟩ := (hok.shown f hf).reads hclosed
    rw [hout] at hvalue
    exact ⟨w, Option.some.inj hvalue, hone⟩
  unfold handleHttpInfo
  rw [hparse]
  dsimp only
  rw [if_neg hnext]
  obtain rfl | rfl | rfl := infoKeys_cases hkey
  · obtain ⟨w, rfl, hone⟩ := hread .converged rfl
    rw [if_neg (by decide), if_pos rfl]
    refine ⟨_, rfl, ?_⟩
    intro f
    cases f with
    | converged => exact hone
    | paused => rfl
  · rw [if_pos rfl]
    refine ⟨_, rfl, ?_⟩
    intro f
    cases f <;> rfl
  · obtain ⟨w, rfl, hone⟩ := hread .paused rfl
    rw [if_neg (by decide), if_neg (by decide), if_pos rfl]
    refine ⟨_, rfl, ?_⟩
    intro f
    cases f with
    | converged => rfl
    | paused => exact hone

/-! ## What is under way -/

/-- The bit behind the messages that are under way. -/
def heard (f : HttpStatus) (bit : Bool) (msgs : List (Bytes × Option Bytes)) : Bool :=
  msgs.foldl (fun bit msg => if msg.1 = f.key then startsWithOne msg.2 else bit) bit

/-- The stream carries the messages. -/
def Carries (fmt : LaFormat V) (stream : Bytes) (msgs : List (Bytes × Option Bytes)) : Prop :=
  ∃ frames, List.Forall₂ (fun msg frame =>
    hmesgSerialize fmt (infoMesg (setcfgRequest msg.1 msg.2)) = some frame) msgs frames ∧
      stream = frames.flatten

/-- A call has set the bit's key, and the message about it was not sent yet. -/
def Untold (f : HttpStatus) (call : SetcfgCall) : Prop := call.told = false ∧ call.key = f.key

instance (f : HttpStatus) : DecidablePred (Untold f) := fun _ => inferInstanceAs (Decidable (_ ∧ _))

/-- The server will have the bits of the configuration when it has read the messages under way and each
value was sent. -/
structure Mirroring (fmt : LaFormat V) (s : InfoRun V) (msgs : List (Bytes × Option Bytes)) : Prop where
  valid : s.cfg.Valid
  carries : Carries fmt s.stream msgs
  reported : ∀ msg ∈ msgs, msg.1 ∈ infoKeys ∧ Reported msg.1 msg.2
  calls : ∀ call ∈ s.calls, call.told = false → call.key ∈ infoKeys → Reported call.key call.val
  once : ∀ f, (s.calls.filter (Untold f)).length ≤ 1
  held : ∀ f, ∀ call ∈ s.calls, Untold f call →
    startsWithOne (hcfgGet s.cfg f.key) = startsWithOne call.val
  agrees : ∀ f, (∀ call ∈ s.calls, ¬Untold f call) →
    heard f (f.bit s.sess) msgs = startsWithOne (hcfgGet s.cfg f.key)

variable {fmt}
variable {s : InfoRun V} {msgs : List (Bytes × Option Bytes)}

lemma heard_append (f : HttpStatus) (bit : Bool) (msgs : List (Bytes × Option Bytes))
    (msg : Bytes × Option Bytes) :
    heard f bit (msgs ++ [msg]) = if msg.1 = f.key then startsWithOne msg.2 else heard f bit msgs := by
  unfold heard
  rw [List.foldl_append]
  rfl

lemma Carries.append {stream frame : Bytes} (h : Carries fmt stream msgs) {msg : Bytes × Option Bytes}
    (hframe : hmesgSerialize fmt (infoMesg (setcfgRequest msg.1 msg.2)) = some frame) :
    Carries fmt (stream ++ frame) (msgs ++ [msg]) := by
  obtain ⟨frames, hall, rfl⟩ := h
  refine ⟨frames ++ [frame], List.rel_append hall (.cons hframe .nil), ?_⟩
  rw [List.flatten_append, List.flatten_singleton]

/-- A value that is shown is not missing, so it is stored. -/
lemma hcfgSet_shown {cfg cfg' : Hcfg} {key : Bytes} {val : Option Bytes} {ret : ℤ} (hvalid : cfg.Valid)
    (hsafe : SafeOp cfg (.set key val)) (hshown : Shown (val.getD []))
    (hset : hcfgSet cfg key val = some (ret, cfg')) : ret = 0 := by
  cases val with
  | none =>
    obtain ⟨c, u, hdrop, -⟩ := hshown.visible
    cases hdrop
  | some v =>
    obtain ⟨cfg'', hinsert, -⟩ := hashInsert_spec hvalid hsafe v
    have hsame : some (ret, cfg') = some (0, cfg'') := hset.symm.trans hinsert
    exact congrArg Prod.fst (Option.some.inj hsame)

/-- `session_setcfg` sets the value; it is not told yet. -/
lemma Mirroring.setcfg (h : Mirroring fmt s msgs) {key : Bytes} {val : Option Bytes}
    (hok : StepOk s (.setcfg key val)) :
    ∃ s', infoStep fmt s (.setcfg key val) = some s' ∧ Mirroring fmt s' msgs := by
  obtain ⟨hsafe, hreported, hkeys⟩ := hok
  obtain ⟨cfg', happly, hvalid, hget⟩ := CfgOp.apply_spec h.valid hsafe
  obtain ⟨⟨ret, cfg''⟩, hset, heq⟩ := Option.map_eq_some_iff.mp happly
  obtain rfl : cfg'' = cfg' := heq
  have hother : ∀ f : HttpStatus, key ≠ f.key → hcfgGet cfg'' f.key = hcfgGet s.cfg f.key := by
    intro f hne
    rw [hget]
    exact if_neg fun hfold => hne (hkeys f hfold).1
  have hself : ∀ f : HttpStatus, key = f.key → hcfgGet cfg'' f.key = val ∧
      ∀ call ∈ s.calls, ¬Untold f call := by
    intro f hf
    refine ⟨?_, ?_⟩
    · rw [hget, hf]
      exact if_pos rfl
    · intro call hcall huntold
      exact (hkeys f (by rw [hf])).2 call hcall huntold.1 huntold.2
  rw [infoStep, hset, Option.map_some]
  refine ⟨_, rfl, ?_⟩
  by_cases hret : ret ≠ 0
  · rw [if_pos hret]
    have hne : ∀ f : HttpStatus, key ≠ f.key := by
      intro f hf
      exact hret (hcfgSet_shown h.valid hsafe ((hreported (hf ▸ f.key_mem)).shown f hf) hset)
    exact {
      valid := hvalid
      carries := h.carries
      reported := h.reported
      calls := h.calls
      once := h.once
      held := fun f call hcall huntold => (congrArg _ (hother f (hne f))).trans
        (h.held f call hcall huntold)
      agrees := fun f hnone => (h.agrees f hnone).trans (congrArg _ (hother f (hne f)).symm) }
  · rw [if_neg hret]
    exact {
      valid := hvalid
      carries := h.carries
      reported := h.reported
      calls := by
        intro call hcall htold hkey
        obtain rfl | hcall := List.mem_cons.mp hcall
        · exact hreported hkey
        · exact h.calls call hcall htold hkey
      once := by
        intro f
        by_cases hf : key = f.key
        · have hnone : s.calls.filter (Untold f) = [] := by
            rw [List.filter_eq_nil_iff]
            intro call hcall
            simpa using (hself f hf).2 call hcall
          rw [List.filter_cons, hnone]
          split_ifs
          all_goals simp
        · rw [List.filter_cons_of_neg (by simpa [Untold] using hf)]
          exact h.once f
      held := by
        intro f call hcall huntold
        obtain rfl | hcall := List.mem_cons.mp hcall
        · rw [(hself f huntold.2).1]
        · by_cases hf : key = f.key
          · exact absurd huntold ((hself f hf).2 call hcall)
          · rw [hother f hf]
            exact h.held f call hcall huntold
      agrees := by
        intro f hnone
        have hf : key ≠ f.key := fun hf => hnone _ List.mem_cons_self ⟨rfl, hf⟩
        rw [hother f hf]
        exact h.agrees f fun call hcall => hnone call (List.mem_cons_of_mem _ hcall) }

/-- The inmost call is no longer untold: no bit waits for it. -/
lemma Mirroring.pop (h : Mirroring fmt s msgs) {call : SetcfgCall} {calls : List SetcfgCall}
    (hcalls : s.calls = call :: calls) (hnot : ∀ f, ¬Untold f call) :
    Mirroring fmt { s with calls := calls } msgs where
  valid := h.valid
  carries := h.carries
  reported := h.reported
  calls := by
    intro call' hcall'
    exact h.calls call' (hcalls ▸ List.mem_cons_of_mem _ hcall')
  once := by
    intro f
    have hle := h.once f
    rw [hcalls, List.filter_cons_of_neg (by simpa using hnot f)] at hle
    exact hle
  held := by
    intro f call' hcall'
    exact h.held f call' (hcalls ▸ List.mem_cons_of_mem _ hcall')
  agrees := by
    intro f hnone
    apply h.agrees f
    intro call' hcall'
    rw [hcalls] at hcall'
    obtain rfl | hcall' := List.mem_cons.mp hcall'
    · exact hnot f
    · exact hnone call' hcall'

/-- The inmost call is told, with the message if its key has one. -/
lemma Mirroring.tell (h : Mirroring fmt s msgs) {key : Bytes} {val : Option Bytes} {calls : List SetcfgCall}
    (hcalls : s.calls = ⟨key, val, false⟩ :: calls) :
    ∃ bytes msgs', httpinfoSetcfg fmt key val = some bytes ∧
      Mirroring fmt { s with calls := ⟨key, val, true⟩ :: calls, stream := s.stream ++ bytes } msgs' := by
  have htop : (⟨key, val, false⟩ : SetcfgCall) ∈ s.calls := hcalls ▸ List.mem_cons_self
  have hrest : ∀ call ∈ calls, call ∈ s.calls := fun call hcall => hcalls ▸ List.mem_cons_of_mem _ hcall
  have hcallsOk : ∀ call ∈ (⟨key, val, true⟩ : SetcfgCall) :: calls, call.told = false →
      call.key ∈ infoKeys → Reported call.key call.val := by
    intro call hcall htold
    obtain rfl | hcall := List.mem_cons.mp hcall
    · cases htold
    · exact h.calls call (hrest call hcall) htold
  have honce : ∀ f, (((⟨key, val, true⟩ : SetcfgCall) :: calls).filter (Untold f)).length ≤ 1 := by
    intro f
    have hle := h.once f
    rw [hcalls, List.filter_cons] at hle
    rw [List.filter_cons_of_neg (by simp [Untold])]
    split_ifs at hle
    · exact (Nat.le_succ _).trans hle
    · exact hle
  have hheld : ∀ f, ∀ call ∈ (⟨key, val, true⟩ : SetcfgCall) :: calls, Untold f call →
      startsWithOne (hcfgGet s.cfg f.key) = startsWithOne call.val := by
    intro f call hcall huntold
    obtain rfl | hcall := List.mem_cons.mp hcall
    · cases huntold.1
    · exact h.held f call (hrest call hcall) huntold
  have hnone : ∀ f : HttpStatus, key ≠ f.key →
      (∀ call ∈ (⟨key, val, true⟩ : SetcfgCall) :: calls, ¬Untold f call) →
        ∀ call ∈ s.calls, ¬Untold f call := by
    intro f hf hnone call hcall
    rw [hcalls] at hcall
    obtain rfl | hcall := List.mem_cons.mp hcall
    · exact fun huntold => hf huntold.2
    · exact hnone call (List.mem_cons_of_mem _ hcall)
  unfold httpinfoSetcfg
  by_cases hkey : key ∈ infoKeys
  · have hreported := h.calls _ htop rfl hkey
    obtain ⟨frame, hframe, -⟩ := infoMesg_sent fmt hreported.short
    rw [if_pos (List.contains_iff_mem.mpr hkey)]
    refine ⟨frame, msgs ++ [(key, val)], hframe, ?_⟩
    exact {
      valid := h.valid
      carries := h.carries.append hframe
      reported := by
        intro msg hmsg
        obtain hmsg | hmsg := List.mem_append.mp hmsg
        · exact h.reported msg hmsg
        · cases List.mem_singleton.mp hmsg
          exact ⟨hkey, hreported⟩
      calls := hcallsOk
      once := honce
      held := hheld
      agrees := by
        intro f hf
        rw [heard_append]
        by_cases hkeyf : key = f.key
        · rw [if_pos hkeyf]
          exact (h.held f _ htop ⟨rfl, hkeyf⟩).symm
        · rw [if_neg hkeyf]
          exact h.agrees f (hnone f hkeyf hf) }
  · -- Of another key the server is told nothing.
    rw [if_neg fun hcontains => hkey (List.contains_iff_mem.mp hcontains)]
    refine ⟨[], msgs, rfl, ?_⟩
    rw [List.append_nil]
    exact {
      valid := h.valid
      carries := h.carries
      reported := h.reported
      calls := hcallsOk
      once := honce
      held := hheld
      agrees := fun f hf => h.agrees f (hnone f (fun hkeyf => hkey (hkeyf ▸ f.key_mem)) hf) }

/-- The server reads the first message under way. -/
lemma Mirroring.deliver (h : Mirroring fmt s msgs) :
    ∃ s' msgs', infoStep fmt s .deliver = some s' ∧ Mirroring fmt s' msgs' := by
  obtain ⟨frames, hall, hstream⟩ := h.carries
  cases hall with
  | nil =>
    rw [List.flatten_nil] at hstream
    rw [infoStep, if_pos hstream]
    exact ⟨s, [], rfl, h⟩
  | @cons msg frame msgs frames hframe hall =>
    obtain ⟨key, val⟩ := msg
    obtain ⟨hkey, hreported⟩ := h.reported _ List.mem_cons_self
    obtain ⟨frame', hframe', hshort⟩ := infoMesg_sent fmt hreported.short
    obtain rfl : frame' = frame := Option.some.inj (hframe'.symm.trans hframe)
    obtain ⟨hrecv, mesg, hmesg, hdest, hstatus, hdata⟩ := infoMesg_received fmt hframe hshort frames.flatten
    obtain ⟨sess', hhandle, hbits⟩ := handleHttpInfo_reported hkey hreported s.sess
    have hne : s.stream ≠ [] := by
      intro hnil
      rw [hnil] at hstream
      rw [List.flatten_cons] at hstream
      have hlen := (hmesgSerialize_eq_some hframe).1
      rw [(List.append_eq_nil_iff.mp hstream.symm).1] at hlen
      unfold hmesgHdrlen at hlen
      rw [List.length_nil] at hlen
      omega
    rw [List.flatten_cons] at hstream
    rw [infoStep, if_neg hne, hstream, hrecv]
    show ∃ s' msgs', (hmesgDeserialize fmt frame').bind _ = some s' ∧ _
    rw [hmesg, Option.bind_some]
    have hserver : handleInfoMesg s.sess mesg = some sess' := by
      unfold handleInfoMesg
      rw [if_pos ⟨hdest, hstatus⟩, hdata]
      dsimp only
      rw [hhandle]
      rfl
    rw [hserver]
    refine ⟨_, msgs, rfl, ?_⟩
    exact {
      valid := h.valid
      carries := ⟨frames, hall, rfl⟩
      reported := fun msg hmsg => h.reported msg (List.mem_cons_of_mem _ hmsg)
      calls := h.calls
      once := h.once
      held := h.held
      agrees := by
        intro f hnone
        rw [hbits]
        exact h.agrees f hnone }

lemma Mirroring.hooks (h : Mirroring fmt s msgs) {ok : Bool} (hok : StepOk s (.hooks ok)) :
    ∃ s' msgs', infoStep fmt s (.hooks ok) = some s' ∧ Mirroring fmt s' msgs' := by
  cases hcalls : s.calls with
  | nil =>
    rw [infoStep, hcalls]
    exact ⟨s, msgs, rfl, h⟩
  | cons call calls =>
    obtain ⟨key, val, _ | _⟩ := call
    · rw [infoStep, hcalls]
      dsimp only
      cases ok with
      | true =>
        obtain ⟨bytes, msgs', hsent, hnext⟩ := h.tell hcalls
        rw [if_pos rfl, hsent]
        exact ⟨_, msgs', rfl, hnext⟩
      | false =>
        rw [if_neg (by decide)]
        refine ⟨_, msgs, rfl, h.pop hcalls fun f huntold => ?_⟩
        exact hok ⟨key, val, false⟩ (by rw [hcalls]; rfl) rfl rfl f huntold.2
    · rw [infoStep, hcalls]
      exact ⟨s, msgs, rfl, h⟩

lemma Mirroring.done (h : Mirroring fmt s msgs) :
    ∃ s' msgs', infoStep fmt s .done = some s' ∧ Mirroring fmt s' msgs' := by
  cases hcalls : s.calls with
  | nil =>
    rw [infoStep, hcalls]
    exact ⟨s, msgs, rfl, h⟩
  | cons call calls =>
    obtain ⟨key, val, _ | _⟩ := call
    · rw [infoStep, hcalls]
      exact ⟨s, msgs, rfl, h⟩
    · rw [infoStep, hcalls]
      refine ⟨_, msgs, rfl, h.pop hcalls fun f huntold => ?_⟩
      cases huntold.1

/-- One step. -/
lemma Mirroring.step (h : Mirroring fmt s msgs) {act : InfoAct} (hok : StepOk s act) :
    ∃ s' msgs', infoStep fmt s act = some s' ∧ Mirroring fmt s' msgs' := by
  cases act with
  | setcfg key val =>
    obtain ⟨s', hstep, hnext⟩ := h.setcfg hok
    exact ⟨s', msgs, hstep, hnext⟩
  | hooks ok => exact h.hooks hok
  | done => exact h.done
  | deliver => exact h.deliver

/-- Many steps. -/
lemma Mirroring.steps (h : Mirroring fmt s msgs) {acts : List InfoAct} (hok : StepsOk fmt s acts) :
    ∃ s' msgs', infoSteps fmt s acts = some s' ∧ Mirroring fmt s' msgs' := by
  induction acts generalizing s msgs with
  | nil => exact ⟨s, msgs, rfl, h⟩
  | cons act acts ih =>
    obtain ⟨s₁, msgs₁, hstep, hnext⟩ := h.step hok.1
    obtain ⟨s', msgs', hrun, hend⟩ := ih hnext (hok.2 s₁ hstep)
    refine ⟨s', msgs', ?_, hend⟩
    rw [infoSteps, hstep]
    exact hrun

end ActiveHarmony

import ActiveHarmony.Session.Core

/-!
# The client library of `hclient.c`

`harmony_fetch`, `harmony_report`, `harmony_best` and `harmony_leave` of clients that share a session.
A call sends one request and waits for the answer; the session handles one request at a time, so
that the calls of several clients are run one after the other.

`V` stands for the doubles of a point and `W` for those of a performance, without NaN.
-/

namespace ActiveHarmony

/-- `harmony_state_t`. -/
inductive HarmonyState where
  | unknown | init | connected | ready | testing | converged
deriving DecidableEq, Repr

/-- The value of a state. -/
def HarmonyState.toNat : HarmonyState → ℕ
  | unknown => 0
  | init => 1
  | connected => 2
  | ready => 3
  | testing => 4
  | converged => 5

/-- `hdesc_t`. `vars` is what the bound variables hold. -/
structure HDesc (V : Type) where
  state : HarmonyState
  id : Option Bytes
  vars : List (HVal V)
  curr : HPoint V
  best : HPoint V
  errstr : Option Bytes
deriving DecidableEq, Repr

variable {V : Type}

namespace HDesc

/-- The descriptor after `harmony_init`. -/
def initial : HDesc V where
  state := .init
  id := none
  vars := []
  curr := hpointInitializer V
  best := hpointInitializer V
  errstr := none

/-- Set `errstr`. -/
def error (h : HDesc V) (msg : String) : HDesc V := { h with errstr := some (cstr msg) }

/-- `update_best`. -/
def updateBest (h : HDesc V) (pt : HPoint V) : HDesc V :=
  if h.best.id ≥ pt.id then h else { h with best := hpointCopy pt }

/-- The loop of `set_values`: whether all values have a type, and the variables. -/
def writeVals : List (HVal V) → List (HVal V) → Bool × List (HVal V)
  | [], vars => (true, vars)
  | _ :: _, [] => (true, [])
  | .unknown :: _, vars => (false, vars)
  | v :: vs, _ :: vars => ((writeVals vs vars).1, v :: (writeVals vs vars).2)

/-- `set_values`. -/
def setValues (h : HDesc V) (pt : HPoint V) : ℤ × HDesc V :=
  if h.vars.length ≠ pt.val.length then (-1, h.error "Invalid internal point structure.")
  else
    match writeVals pt.val h.vars with
    | (true, vars) => (0, { h with vars := vars })
    | (false, vars) =>
      (-1, { h with vars := vars }.error "Internal error: Invalid signature value type.")

lemma writeVals_true {vals vars : List (HVal V)} (hlen : vars.length = vals.length)
    (h : (writeVals vals vars).1 = true) : (writeVals vals vars).2 = vals := by
  induction vals generalizing vars with
  | nil => exact List.eq_nil_of_length_eq_zero hlen
  | cons v vals ih =>
    cases vars with
    | nil => cases hlen
    | cons old vars =>
      cases v with
      | unknown => cases h
      | _ => exact congrArg (_ :: ·) (ih (Nat.succ.inj hlen) h)

/-- If `set_values` succeeds, the variables hold the values of the point. -/
lemma setValues_ok {h h' : HDesc V} {pt : HPoint V} (hset : h.setValues pt = (0, h')) :
    h' = { h with vars := pt.val } := by
  unfold setValues at hset
  by_cases hlen : h.vars.length = pt.val.length
  · rw [if_neg (not_not_intro hlen)] at hset
    rcases hwrite : writeVals pt.val h.vars with ⟨_ | _, vars⟩
    · rw [hwrite] at hset
      cases hset
    · rw [hwrite] at hset
      have hvars := writeVals_true hlen (by rw [hwrite])
      rw [hwrite] at hvars
      cases hset
      rw [← hvars]
  · rw [if_pos hlen] at hset
    cases hset

/-- `set_values` leaves everything else alone. -/
lemma setValues_frame (h : HDesc V) (pt : HPoint V) :
    (h.setValues pt).2.best = h.best ∧ (h.setValues pt).2.curr = h.curr ∧
      (h.setValues pt).2.state = h.state := by
  unfold setValues
  split_ifs
  · exact ⟨rfl, rfl, rfl⟩
  · rcases writeVals pt.val h.vars with ⟨_ | _, vars⟩
    · exact ⟨rfl, rfl, rfl⟩
    · exact ⟨rfl, rfl, rfl⟩

end HDesc

/-- A session and its clients. `sent` is not in the source: the best points that the session sent to a
client since it joined. -/
structure Tuning (σ V W : Type) where
  sess : Sess σ V W
  alive : Bool
  clients : ℕ → HDesc V
  sent : ℕ → List (HPoint V)

variable {σ W : Type}

/-! ## Requests -/

/-- The session while it handles a request: the name of the client is in the configuration. -/
def Sess.withCfg (s : Sess σ V W) (cfg : Hcfg) : Sess σ V W :=
  { s with world := { s.world with cfg := cfg } }

/-- A message is handled by its handler, and the session goes on if that succeeds. -/
lemma handleMesg_cases {P : Plugins σ V W} {fuel : ℕ} {s s' : Sess σ V W} {srcId : Option Bytes}
    {req : Request W} {alive : Bool} {reply : Reply V}
    (h : handleMesg P fuel s srcId req = some (alive, s', reply)) :
    ∃ res ret s₁ reply', hcfgSet s.world.cfg cfgkeyCurrentClient srcId = some res ∧
      handleRequest P fuel (s.withCfg res.2) req = some (ret, s₁, reply') ∧
      (ret ≠ 0 ∧ alive = false ∧ s' = s₁ ∧ reply = .fail s₁.world.errmsg ∨
        ret = 0 ∧ alive = true ∧ (∃ cfg, s' = s₁.withCfg cfg) ∧ reply = reply') := by
  rcases Option.bind_eq_some_iff.mp h with ⟨res, hset, hmesg⟩
  rcases Option.bind_eq_some_iff.mp hmesg with ⟨⟨ret, s₁, reply'⟩, hreq, hmesg⟩
  refine ⟨res, ret, s₁, reply', hset, hreq, ?_⟩
  by_cases hret : ret ≠ 0
  · simp only [if_pos hret] at hmesg
    cases hmesg
    exact Or.inl ⟨hret, rfl, rfl, rfl⟩
  · simp only [if_neg hret] at hmesg
    rcases Option.bind_eq_some_iff.mp hmesg with ⟨res', -, hmesg⟩
    cases hmesg
    exact Or.inr ⟨not_not.mp hret, rfl, ⟨res'.2, rfl⟩, rfl⟩

/-- A point as it arrives: of a point with a negative id only the id is sent. -/
def HPoint.arrived (pt : HPoint V) : HPoint V :=
  if pt.id ≥ 0 then pt else { hpointInitializer V with id := pt.id }

lemma HPoint.arrived_id (pt : HPoint V) : pt.arrived.id = pt.id := by
  unfold HPoint.arrived
  split_ifs <;> rfl

/-- An answer as it arrives. -/
def Reply.arrived : Reply V → Reply V
  | .point status pt => .point status pt.arrived
  | reply => reply

namespace Tuning

/-- Change the descriptor of a client. -/
def setClient (t : Tuning σ V W) (c : ℕ) (h : HDesc V) : Tuning σ V W :=
  { t with clients := Function.update t.clients c h }

@[simp]
lemma setClient_self (t : Tuning σ V W) (c : ℕ) (h : HDesc V) : (t.setClient c h).clients c = h := by
  show Function.update t.clients c h c = h
  rw [Function.update_self]

@[simp]
lemma setClient_of_ne (t : Tuning σ V W) {c d : ℕ} (hd : d ≠ c) (h : HDesc V) :
    (t.setClient c h).clients d = t.clients d := by
  show Function.update t.clients c h d = t.clients d
  rw [Function.update_of_ne hd]

/-- Record a best point that is sent. -/
def send (t : Tuning σ V W) (c : ℕ) (pt : HPoint V) : Tuning σ V W :=
  { t with sent := Function.update t.sent c (t.sent c ++ [pt]) }

/-- The end of `harmony_fetch`. -/
def installCurr (t : Tuning σ V W) (c : ℕ) (h : HDesc V) : ℤ × Tuning σ V W :=
  let (ret, h) := h.setValues h.curr
  if ret ≠ 0 then (-1, t.setClient c h)
  else
    -- Client variables were changed.
    (1, t.setClient c { h with state := .testing })

/-- What `harmony_fetch` does with the answer. -/
def fetched (t : Tuning σ V W) (c : ℕ) : Option (Reply V) → ℤ × Tuning σ V W
  | none => (-1, t)
  | some (.point .busy pt) =>
    let h := (t.clients c).updateBest pt
    let t := t.send c pt
    -- No best point is available.
    if h.best.id = -1 then (0, t.setClient c h)
    else t.installCurr c { h with curr := hpointCopy h.best }
  | some (.point .ok pt) => t.installCurr c { t.clients c with curr := hpointCopy pt }
  | some _ => (-1, t.setClient c ((t.clients c).error "Invalid message received from server."))

/-- What `harmony_report` does with the answer. -/
def reported (t : Tuning σ V W) (c : ℕ) : Option (Reply V) → ℤ × Tuning σ V W
  | none => (-1, t)
  | some .ok => (0, t.setClient c { t.clients c with state := .ready })
  | some _ => (-1, t.setClient c ((t.clients c).error "Invalid message received from server."))

/-- The end of `harmony_best`. -/
def installBest (t : Tuning σ V W) (c : ℕ) (retval : ℤ) : ℤ × Tuning σ V W :=
  let h := t.clients c
  -- Make sure our best known point is valid.
  if h.best.id < 0 then (-1, t)
  else
    let (ret, h) := h.setValues h.best
    (if ret ≠ 0 then -1 else retval, t.setClient c h)

/-- What `harmony_best` does with the answer. -/
def answered (t : Tuning σ V W) (c : ℕ) : Option (Reply V) → ℤ × Tuning σ V W
  | none => (-1, t)
  | some (.point .ok pt) =>
    let h := t.clients c
    let t := t.send c pt
    if h.best.id < pt.id then (t.setClient c (h.updateBest pt)).installBest c 1
    else t.installBest c 0
  | some _ => (-1, t.setClient c ((t.clients c).error "Invalid message received from server."))

variable (P : Plugins σ V W) (fuel : ℕ)

/-- `send_request`: the answer, unless it is an error, which is left in `errstr`. -/
def sendRequest (t : Tuning σ V W) (c : ℕ) (req : Request W) :
    Option (Option (Reply V) × Tuning σ V W) :=
  let h := t.clients c
  if !t.alive then
    some (none, t.setClient c (h.error "Error retrieving Harmony message from server."))
  else do
    let (alive, sess, reply) ← handleMesg P fuel t.sess h.id req
    let t := { t with sess := sess, alive := alive }
    match reply with
    | .fail errmsg => some (none, t.setClient c { h with errstr := errmsg })
    | reply => some (some reply.arrived, t)

variable {P fuel} in
/-- A request is not handled by a session that has ended; otherwise its answer arrives. -/
lemma sendRequest_cases {t t' : Tuning σ V W} {c : ℕ} {req : Request W} {answer : Option (Reply V)}
    (h : t.sendRequest P fuel c req = some (answer, t')) :
    (t.alive = false ∧ answer = none ∧ ∃ msg, t' = t.setClient c ((t.clients c).error msg)) ∨
      ∃ alive sess reply, t.alive = true ∧
        handleMesg P fuel t.sess (t.clients c).id req = some (alive, sess, reply) ∧
        ((∃ msg, reply = .fail msg ∧ answer = none ∧ t' = { t with
            sess := sess
            alive := alive
            clients := Function.update t.clients c { t.clients c with errstr := msg } }) ∨
          ((∀ msg, reply ≠ .fail msg) ∧ answer = some reply.arrived ∧
            t' = { t with sess := sess, alive := alive })) := by
  unfold sendRequest at h
  cases halive : t.alive with
  | false =>
    rw [halive] at h
    cases h
    exact Or.inl ⟨rfl, rfl, _, rfl⟩
  | true =>
    rw [halive] at h
    rcases Option.bind_eq_some_iff.mp h with ⟨⟨alive, sess, reply⟩, hmesg, h⟩
    refine Or.inr ⟨alive, sess, reply, rfl, hmesg, ?_⟩
    cases reply with
    | fail msg =>
      cases h
      exact Or.inl ⟨msg, rfl, rfl, rfl⟩
    | ok =>
      cases h
      exact Or.inr ⟨nofun, rfl, rfl⟩
    | point status pt =>
      cases h
      exact Or.inr ⟨nofun, rfl, rfl⟩

/-- `harmony_fetch`. -/
def harmonyFetch (t : Tuning σ V W) (c : ℕ) : Option (ℤ × Tuning σ V W) :=
  let h := t.clients c
  if h.state.toNat < HarmonyState.connected.toNat then
    some (-1, t.setClient c (h.error "Descriptor not currently joined to any session."))
  else (sendRequest P fuel t c .fetch).map fun res => res.2.fetched c res.1

/-- `harmony_report`. -/
def harmonyReport (t : Tuning σ V W) (c : ℕ) (perf : HPerf W) : Option (ℤ × Tuning σ V W) :=
  let h := t.clients c
  if h.state.toNat < HarmonyState.connected.toNat then
    some (-1, t.setClient c (h.error "Descriptor not currently joined to any session."))
  else if h.state.toNat < HarmonyState.testing.toNat then some (0, t)
  else (sendRequest P fuel t c (.report h.curr.id perf)).map fun res => res.2.reported c res.1

/-- `harmony_best`. -/
def harmonyBest (t : Tuning σ V W) (c : ℕ) : Option (ℤ × Tuning σ V W) :=
  if (t.clients c).state.toNat ≥ HarmonyState.connected.toNat then
    (sendRequest P fuel t c .best).map fun res => res.2.answered c res.1
  else some (t.installBest c 0)

/-- `harmony_join`, for a descriptor with an id and with these variables bound. Its messages are not
modelled: they leave the trials and the strategy of the session alone. -/
def harmonyJoin (t : Tuning σ V W) (c : ℕ) (id : Bytes) (vars : List (HVal V)) : ℤ × Tuning σ V W :=
  let h := t.clients c
  if vars = [] then (-1, t.setClient c (h.error "No variables bound to Harmony session"))
  else if h.state.toNat ≥ HarmonyState.ready.toNat then
    (-1, t.setClient c (h.error "Descriptor already joined with an existing session"))
  else (0, t.setClient c { h with state := .ready, id := some id, vars := vars })

/-- `harmony_leave`. -/
def harmonyLeave (t : Tuning σ V W) (c : ℕ) : ℤ × Tuning σ V W :=
  let h := t.clients c
  if h.state.toNat ≤ HarmonyState.init.toNat then
    (-1, t.setClient c (h.error "Descriptor not currently joined to any session."))
  else
    let h := { h with state := .init, vars := [], best := { h.best with id := -1 } }
    (0, { t.setClient c h with sent := Function.update t.sent c [] })

/-- The calls of a client. -/
inductive ClientCall (V W : Type) where
  | join (id : Bytes) (vars : List (HVal V))
  | fetch
  | report (perf : HPerf W)
  | best
  | leave

/-- One call of a client. -/
def call (t : Tuning σ V W) (c : ℕ) : ClientCall V W → Option (ℤ × Tuning σ V W)
  | .join id vars => some (t.harmonyJoin c id vars)
  | .fetch => t.harmonyFetch P fuel c
  | .report perf => t.harmonyReport P fuel c perf
  | .best => t.harmonyBest P fuel c
  | .leave => some (t.harmonyLeave c)

/-- An event of the main loop that is no call of one of the clients. -/
def sessionEvent [Top W] (t : Tuning σ V W) (e : Event W) : Option (Tuning σ V W) :=
  if t.alive then
    (sessEvent P fuel t.sess e).map fun res => { t with sess := res.2.1, alive := res.1 }
  else none

/-- A session that has just been loaded, and clients that have not joined it. -/
structure Initial (t : Tuning σ V W) : Prop where
  sess : t.sess.Initial
  alive : t.alive = true
  clients : ∀ c, t.clients c = HDesc.initial
  sent : ∀ c, t.sent c = []

/-- The states that are reached when the clients call in any order. -/
inductive Reaches [Top W] : Tuning σ V W → Prop where
  | init {t : Tuning σ V W} : t.Initial → Reaches t
  | call {t t' : Tuning σ V W} {c fuel : ℕ} {r : ClientCall V W} {ret : ℤ} :
      Reaches t → t.call P fuel c r = some (ret, t') → Reaches t'
  | session {t t' : Tuning σ V W} {fuel : ℕ} {e : Event W} :
      Reaches t → t.sessionEvent P fuel e = some t' → Reaches t'

/-- A session with free slots, and clients that have not joined it. -/
def start (sess : Sess σ V W) : Tuning σ V W where
  sess := sess
  alive := true
  clients := fun _ => HDesc.initial
  sent := fun _ => []

lemma start_initial {sess : Sess σ V W} (h : sess.Initial) : (start sess).Initial :=
  ⟨h, rfl, fun _ => rfl, fun _ => rfl⟩

/-- Calls of clients and events of the main loop. -/
abbrev Happening (V W : Type) := (ℕ × ClientCall V W) ⊕ Event W

/-- Several of them. -/
def run [Top W] : Tuning σ V W → List (Happening V W) → Option (Tuning σ V W)
  | t, [] => some t
  | t, .inl (c, r) :: hs => (t.call P fuel c r).bind fun res => run res.2 hs
  | t, .inr e :: hs => (t.sessionEvent P fuel e).bind fun t => run t hs

variable {P fuel}

lemma Reaches.run [Top W] {t t' : Tuning σ V W} {hs : List (Happening V W)}
    (h : Reaches P t) (hrun : t.run P fuel hs = some t') : Reaches P t' := by
  induction hs generalizing t with
  | nil =>
    cases hrun
    exact h
  | cons a hs ih =>
    rcases a with ⟨c, r⟩ | e
    · rcases Option.bind_eq_some_iff.mp hrun with ⟨⟨ret, t₁⟩, hcall, hrest⟩
      exact ih (h.call hcall) hrest
    · rcases Option.bind_eq_some_iff.mp hrun with ⟨t₁, hevent, hrest⟩
      exact ih (h.session hevent) hrest

end Tuning

end ActiveHarmony

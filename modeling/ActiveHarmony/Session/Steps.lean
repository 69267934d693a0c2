import ActiveHarmony.Session.Extend
import ActiveHarmony.Session.Workflow

/-!
# The session core step by step

The main loop of `session-core.c` with the clients that join, in steps of one round of `plugin_workflow`
each. A step is `none` where an index is used that lies outside of its array. The functions of the core are
their steps one after the other (`generateTrial_eq`, `handleCallback_eq`, `handleReport_eq`,
`pluginWorkflow_succ`).
-/

namespace ActiveHarmony

variable {σ V W : Type}

/-! ## Rounds -/

section

variable (P : Plugins σ V W)

/-- One round of the loop of `plugin_workflow`, or what comes after the loop: the return value, if the
function returns. -/
def workflowRound (s : Sess σ V W) (trialIdx : ℕ) : Option (Option ℤ × Sess σ V W) :=
  if s.currLayer ≠ 0 ∧ s.currLayer ≤ P.lstack.length then do
    let (ret, s) ← callLayer P s trialIdx
    if ret ≠ 0 then some (some (-1), s)
    else
      let (retval, s) ← workflowTransition P s trialIdx
      if retval < 0 then some (some (-1), s)
      else if retval > 0 then some (some 0, s)
      else some (none, s)
  else (finishWorkflow P s trialIdx).map fun res => (some res.1, res.2)

/-- What a handler does first: it returns a value, or goes on with the workflow of a trial. -/
abbrev Head (σ V W : Type) := (ℤ ⊕ ℕ) × Sess σ V W

/-- The rest of a handler. -/
def Head.resume (fuel : ℕ) (head : Head σ V W) : Option (ℤ × Sess σ V W) :=
  Sum.elim (fun ret => some (ret, head.2)) (pluginWorkflow P fuel head.2) head.1

/-- `generate_trial` in front of the workflow. -/
def startTrial [Top W] (s : Sess σ V W) : Option (Head σ V W) :=
  let idx := s.pending.findIdx fun trial => trial.point.id = -1
  match s.pending[idx]? with
  | none => some (.inl (-1), s.raise .pointOverflow)
  | some trial =>
    let perf := hperfReset trial.perf
    let (ret, world, flow, point) := P.strategyGenerate s.world s.flow trial.point
    let act := Act.generate idx s.ids ret flow.status point.id
    let pending := s.pending.set idx { point := point, perf := perf }
    let s := ({ s with world := world, flow := flow, pending := pending }).log act
    if ret ≠ 0 then some (.inl (-1), s)
    else if s.flow.status = .wait then some (.inl 0, { s with pollstate := false })
    else some (.inr idx, { s with pendingLen := s.pendingLen + 1, currLayer := 1 })

/-- `handle_callback` in front of the workflow. -/
def startCallback (s : Sess σ V W) (cb : Callback σ V W) : Option (Head σ V W) :=
  let s := { s with currLayer := cb.index }
  let l := s.wait s.currLayer
  if l.len < 1 then some (.inl (-1), s.raise .emptyWaitlist)
  else do
    let trialList ← waitingTrials s l
    let (idx, world, flow, perfs) := cb.func s.world s.flow trialList
    if idx < 0 ∨ idx ≥ l.len then none
    else
      let cell ← l.cells[idx.toNat]?
      let trialIdx := cell.toNat
      let pending := setPerfs s.pending ((l.cells.take l.len).zip perfs)
      let s := ({ s with world := world, flow := flow, pending := pending }).log
        (.callback cb.index idx.toNat trialIdx flow.status)
      let (retval, s) ← workflowTransition P s trialIdx
      if retval < 0 then some (.inl (-1), s)
      else if retval > 0 then some (.inl 0, s)
      else
        let l := s.wait cb.index
        some (.inr trialIdx, { s with wait := Function.update s.wait cb.index (l.remove idx.toNat) })

/-- `handle_report` in front of the workflow. -/
def startReport (s : Sess σ V W) (candId : ℤ) (perf : HPerf W) : Head σ V W :=
  let idx := s.pending.findIdx fun trial => trial.point.id = candId
  match s.pending[idx]? with
  | none =>
    let s := s.log (.report candId none)
    if candId = s.pausedId then (.inl 0, s) else (.inl (-1), s.raise .rougePoint)
  | some trial =>
    let pending := s.pending.set idx { trial with perf := perf }
    (.inr idx, ({ s with
      pausedId := 0, pending := pending, currLayer := -P.lstack.length }).log (.report candId (some idx)))

end

variable {P : Plugins σ V W} {s s' : Sess σ V W} {fuel i : ℕ}

lemma pluginWorkflow_succ : pluginWorkflow P (fuel + 1) s i =
    (workflowRound P s i).bind fun res =>
      res.1.elim (pluginWorkflow P fuel res.2 i) fun ret => some (ret, res.2) := by
  rw [pluginWorkflow]
  unfold workflowRound
  by_cases hlayer : s.currLayer ≠ 0 ∧ s.currLayer ≤ P.lstack.length
  · rw [if_pos hlayer, if_pos hlayer]
    simp only [Option.bind_eq_bind, Option.bind_assoc]
    congr 1
    funext res
    by_cases hret : res.1 ≠ 0
    · rw [if_pos hret, if_pos hret]
      rfl
    · rw [if_neg hret, if_neg hret, Option.bind_assoc]
      congr 1
      funext res
      split_ifs <;> rfl
  · rw [if_neg hlayer, if_neg hlayer]
    cases finishWorkflow P s i <;> rfl

lemma generateTrial_eq [Top W] :
    generateTrial P fuel s = (startTrial P s).bind (Head.resume P fuel) := by
  unfold generateTrial startTrial
  simp only
  cases s.pending[s.pending.findIdx fun trial => trial.point.id = -1]? with
  | none => rfl
  | some trial =>
    simp only
    split_ifs <;> rfl

lemma handleCallback_eq {cb : Callback σ V W} :
    handleCallback P fuel s cb = (startCallback P s cb).bind (Head.resume P fuel) := by
  unfold handleCallback startCallback
  simp only
  split_ifs with hempty
  · rfl
  · simp only [Option.bind_eq_bind, Option.bind_assoc]
    congr 1
    funext trialList
    split_ifs
    · rfl
    · simp only [Option.bind_assoc]
      congr 1
      funext cell
      congr 1
      funext res
      split_ifs <;> rfl

lemma handleReport_eq {candId : ℤ} {perf : HPerf W} : handleReport P fuel s candId perf =
    ((startReport P s candId perf).resume P fuel).map fun res =>
      (if res.1 ≠ 0 then -1 else 0, res.2, Reply.ok) := by
  unfold handleReport startReport
  simp only
  cases s.pending[s.pending.findIdx fun trial => trial.point.id = candId]? with
  | none =>
    simp only
    split_ifs <;> rfl
  | some trial =>
    simp only
    unfold Head.resume
    simp only [Sum.elim_inr, Option.bind_eq_bind, Option.map_eq_bind]
    congr 1
    funext res
    simp only [Function.comp_apply]
    split_ifs <;> rfl

/-! ## The main loop -/

/-- What a session is started with: its plug-ins, the join hooks of the strategy and of the layers, and the
variables `per_client` and `perf_count`. `zero` is a trial in cleared memory. -/
structure Setup (σ V W : Type) where
  plugins : Plugins σ V W
  join : List (Option (Option Bytes → World σ → ℤ × World σ))
  perClient : ℕ
  perfCount : ℕ
  zero : HTrial V W

/-- Where the core is: in its main loop, in `plugin_workflow` with a trial, or at its end. `mesg` tells
whether a message is to be answered after the workflow. -/
inductive Position where
  | loop
  | workflow (trialIdx : ℕ) (mesg : Bool)
  | ended
deriving DecidableEq, Repr

/-- The variables of `session-core.c`. `rest` are the `int`s of the allocation of `ready` behind its
cells. -/
structure Core (σ V W : Type) where
  sess : Sess σ V W
  rest : List ℤ
  numClients : ℕ
  pos : Position

/-- What happens next. Memory that is not cleared is filled with `garbage`. -/
inductive Input (V W : Type) where
  | top
  | callback (j : ℕ)
  | mesg (srcId : Option Bytes) (req : Request W)
  /-- `matched`: the signature of the client is the one of the session. -/
  | join (srcId : Option Bytes) (matched : Bool) (garbage : ℕ → ℤ) (garbage' : ℕ → HTrial V W)
  | generate
  | round

/-- `hcfg_set` for `CFGKEY_CURRENT_CLIENT`. -/
def Sess.setClient (s : Sess σ V W) (srcId : Option Bytes) : Option (Sess σ V W) :=
  (hcfgSet s.world.cfg cfgkeyCurrentClient srcId).map fun res =>
    { s with world := { s.world with cfg := res.2 } }

namespace Core

/-- A message is answered. After an error the session ends. -/
def answer (c : Core σ V W) (ret : ℤ) (s : Sess σ V W) : Core σ V W :=
  if ret ≠ 0 then { c with sess := s, pos := .ended }
  else { c with sess := (s.setClient none).getD s, pos := .loop }

/-- A handler returns. Only the return value for a message is looked at. -/
def finish (c : Core σ V W) (mesg : Bool) (ret : ℤ) (s : Sess σ V W) : Core σ V W :=
  if mesg then c.answer ret s else { c with sess := s, pos := .loop }

/-- A handler returns, or goes on with a workflow. -/
def goOn (c : Core σ V W) (mesg : Bool) (head : Head σ V W) : Core σ V W :=
  match head.1 with
  | .inl ret => c.finish mesg ret head.2
  | .inr i => { c with sess := head.2, pos := .workflow i mesg }

variable [Top W] (S : Setup σ V W)

/-- `extend_lists`. -/
def extend (c : Core σ V W) (targetCap : ℕ) (garbage : ℕ → ℤ) (garbage' : ℕ → HTrial V W) :
    Core σ V W :=
  let q := (extendLists S.perfCount S.zero garbage garbage' (c.sess.queues c.rest) targetCap).2
  { c with
    sess := { c.sess with
      pending := q.pending
      ready := q.ready.take q.readyCap
      readyHead := q.readyHead
      readyTail := q.readyTail }
    rest := q.ready.drop q.readyCap }

/-- `handle_join`. -/
def handleJoin (c : Core σ V W) (srcId : Option Bytes) (matched : Bool) (garbage : ℕ → ℤ)
    (garbage' : ℕ → HTrial V W) : ℤ × Core σ V W :=
  if !matched then
    let error := cstr "Incompatible join signature."
    (-1, { c with sess := { c.sess with world := { c.sess.world with errmsg := some error } } })
  else
    -- Grow the pending and ready queues.
    let c := { c with numClients := c.numClients + 1 }
    let c := c.extend S (c.numClients * S.perClient) garbage garbage'
    -- Launch all join hooks defined in the plug-in stack.
    let (ret, world) := callHooks (S.join.map fun hook => hook.map fun hook => hook srcId) c.sess.world
    (ret, { c with sess := { c.sess with world := world } })

/-- One step. -/
def step (c : Core σ V W) : Input V W → Option (Core σ V W)
  | .top =>
    let flow := { status := .accept, point := hpointInitializer V }
    some { c with sess := { c.sess with flow := flow } }
  | .callback j =>
    (S.plugins.cb[j]?).bind fun cb => (startCallback S.plugins c.sess cb).map (c.goOn false)
  | .mesg srcId req =>
    (c.sess.setClient srcId).bind fun s =>
      match req with
      | .best =>
        let (ret, s, _) := handleBest S.plugins s
        some (c.answer ret s)
      | .fetch => (handleFetch S.plugins s).map fun res => c.answer res.1 res.2.1
      | .report candId perf => some (c.goOn true (startReport S.plugins s candId perf))
      | .restart =>
        let (ret, s, _) := handleRestart S.plugins s
        some (c.answer ret s)
  | .join srcId matched garbage garbage' =>
    (c.sess.setClient srcId).map fun s =>
      let (ret, c) := { c with sess := s }.handleJoin S srcId matched garbage garbage'
      c.answer ret c.sess
  | .generate => (startTrial S.plugins c.sess).map (c.goOn false)
  | .round =>
    match c.pos with
    | .workflow i mesg =>
      (workflowRound S.plugins c.sess i).map fun res =>
        res.1.elim { c with sess := res.2 } fun ret => c.finish mesg ret res.2
    | _ => some c

/-- What can happen next. The configuration has room for the id of a client. -/
def Takes (c : Core σ V W) : Input V W → Prop
  | .top => c.pos = .loop
  | .callback j => c.pos = .loop ∧ j < S.plugins.cb.length
  | .mesg srcId _ | .join srcId _ _ _ => c.pos = .loop ∧ (c.sess.setClient srcId).isSome
  | .generate => c.pos = .loop ∧ c.sess.pollstate ∧ c.sess.pendingLen < c.sess.pending.length
  | .round => ∃ i mesg, c.pos = .workflow i mesg

/-- The states that the core reaches from `c₀`. -/
inductive Run (c₀ : Core σ V W) : List (Input V W) → Core σ V W → Prop
  | nil : Run c₀ [] c₀
  | snoc {inputs : List (Input V W)} {input : Input V W} {c c' : Core σ V W} :
      Run c₀ inputs c → c.Takes S input → c.step S input = some c' → Run c₀ (inputs ++ [input]) c'

lemma Run.of_nil {S : Setup σ V W} {c₀ c : Core σ V W} (h : Run S c₀ [] c) : c = c₀ := by
  generalize hall : ([] : List (Input V W)) = all at h
  cases h with
  | nil => rfl
  | snoc => exact absurd hall.symm (List.concat_ne_nil _ _)

lemma Run.of_snoc {S : Setup σ V W} {c₀ c' : Core σ V W} {inputs : List (Input V W)} {input : Input V W}
    (h : Run S c₀ (inputs ++ [input]) c') :
    ∃ c, Run S c₀ inputs c ∧ c.Takes S input ∧ c.step S input = some c' := by
  generalize hall : inputs ++ [input] = all at h
  cases h with
  | nil => exact absurd hall (List.concat_ne_nil input inputs)
  | snoc hrun htakes hstep =>
    obtain ⟨rfl, hlast⟩ := List.append_inj' hall rfl
    cases hlast
    exact ⟨_, hrun, htakes, hstep⟩

/-- The state after `init_session` with `count` slots to prepare. -/
def start (world : World σ) (count : ℕ) (garbage : ℕ → ℤ) (garbage' : ℕ → HTrial V W) : Core σ V W :=
  extend S { sess := Sess.start world 0, rest := [], numClients := 0, pos := .loop } count garbage garbage'

/-! ## Events in steps -/

variable {S : Setup σ V W} {c₀ c : Core σ V W} {inputs : List (Input V W)} {input : Input V W} {mesg : Bool}
  {ret : ℤ}

/-- `plugin_workflow` is its rounds. -/
lemma Run.workflow (hrun : Run S c₀ inputs c) (hpos : c.pos = .workflow i mesg)
    (h : pluginWorkflow S.plugins fuel c.sess i = some (ret, s')) :
    ∃ inputs', Run S c₀ inputs' (c.finish mesg ret s') := by
  induction fuel generalizing c inputs with
  | zero => cases h
  | succ fuel ih =>
    rw [pluginWorkflow_succ] at h
    obtain ⟨⟨res, s⟩, hround, h⟩ := Option.bind_eq_some_iff.mp h
    have hstep : c.step S .round
        = some (res.elim { c with sess := s } fun ret => c.finish mesg ret s) := by
      unfold step
      simp only [hpos, hround, Option.map_some]
    have htakes : c.Takes S .round := ⟨i, mesg, hpos⟩
    have hnext := hrun.snoc htakes hstep
    cases res with
    | none =>
      exact ih (c := { c with sess := s }) hnext hpos h
    | some res =>
      cases h
      exact ⟨_, hnext⟩

/-- A handler is its start and the rounds after it. -/
lemma Run.resume {head : Head σ V W} (hrun : Run S c₀ inputs c) (htakes : c.Takes S input)
    (hstep : c.step S input = some (c.goOn mesg head)) (h : head.resume S.plugins fuel = some (ret, s')) :
    ∃ inputs', Run S c₀ inputs' (c.finish mesg ret s') := by
  have hnext := hrun.snoc htakes hstep
  obtain ⟨res | i, s⟩ := head
  · cases h
    exact ⟨_, hnext⟩
  · exact hnext.workflow rfl h

/-- What the core does for an event it does in steps. -/
theorem Run.event {e : Event W} {alive : Bool} {reply : Option (Reply V)} (hrun : Run S c₀ inputs c)
    (hpos : c.pos = .loop) (h : sessEvent S.plugins fuel c.sess e = some (alive, s', reply)) :
    ∃ inputs', Run S c₀ inputs' { c with sess := s', pos := if alive then .loop else .ended } := by
  cases e with
  | top =>
    cases h
    have htakes : c.Takes S .top := hpos
    have hnext := hrun.snoc htakes rfl
    rw [if_pos rfl, ← hpos]
    exact ⟨_, hnext⟩
  | callback j =>
    obtain ⟨cb, hcb, h⟩ := Option.bind_eq_some_iff.mp h
    obtain ⟨⟨ret, s⟩, hcall, h⟩ := Option.bind_eq_some_iff.mp h
    rw [handleCallback_eq] at hcall
    obtain ⟨head, hhead, hresume⟩ := Option.bind_eq_some_iff.mp hcall
    have hlt := (List.getElem?_eq_some_iff.mp hcb).1
    have hstep : c.step S (.callback j) = some (c.goOn false head) := by
      unfold step
      simp only [hcb, hhead, Option.bind_some, Option.map_some]
    have htakes : c.Takes S (.callback j) := ⟨hpos, hlt⟩
    cases h
    exact hrun.resume htakes hstep hresume
  | generate =>
    unfold sessEvent at h
    split_ifs at h with hroom
    obtain ⟨⟨ret, s⟩, hcall, h⟩ := Option.bind_eq_some_iff.mp h
    rw [generateTrial_eq] at hcall
    obtain ⟨head, hhead, hresume⟩ := Option.bind_eq_some_iff.mp hcall
    have hstep : c.step S .generate = some (c.goOn false head) := by
      unfold step
      simp only [hhead, Option.map_some]
    have htakes : c.Takes S .generate := ⟨hpos, hroom⟩
    cases h
    exact hrun.resume htakes hstep hresume
  | mesg srcId req =>
    obtain ⟨⟨alive', s₁, reply'⟩, hmesg, h⟩ := Option.bind_eq_some_iff.mp h
    cases h
    obtain ⟨⟨ret, cfg⟩, hset, hmesg⟩ := Option.bind_eq_some_iff.mp hmesg
    obtain ⟨⟨ret', s₂, reply₂⟩, hreq, hmesg⟩ := Option.bind_eq_some_iff.mp hmesg
    have hclient : c.sess.setClient srcId
        = some { c.sess with world := { c.sess.world with cfg := cfg } } := by
      unfold Sess.setClient
      rw [hset]
      rfl
    have htakes : c.Takes S (.mesg srcId req) := ⟨hpos, by rw [hclient]; rfl⟩
    -- after the message
    have hanswer : c.answer ret' s₂ = { c with sess := s', pos := if alive then .loop else .ended } := by
      unfold answer
      dsimp only at hmesg
      split_ifs at hmesg with hret
      · cases hmesg
        rw [if_pos hret]
        rfl
      · obtain ⟨⟨ret₃, cfg'⟩, hunset, hmesg⟩ := Option.bind_eq_some_iff.mp hmesg
        cases hmesg
        unfold Sess.setClient
        rw [if_neg hret, hunset]
        rfl
    rw [← hanswer]
    cases req with
    | best =>
      have hstep : c.step S (.mesg srcId .best) = some (c.answer ret' s₂) := by
        have hbest : handleBest S.plugins { c.sess with world := { c.sess.world with cfg := cfg } }
            = (ret', s₂, reply₂) := Option.some.inj hreq
        unfold step
        dsimp only
        rw [hclient, Option.bind_some, hbest]
      exact ⟨_, hrun.snoc htakes hstep⟩
    | fetch =>
      have hstep : c.step S (.mesg srcId .fetch) = some (c.answer ret' s₂) := by
        have hfetch : handleFetch S.plugins { c.sess with world := { c.sess.world with cfg := cfg } }
            = some (ret', s₂, reply₂) := hreq
        unfold step
        dsimp only
        rw [hclient, Option.bind_some, hfetch, Option.map_some]
      exact ⟨_, hrun.snoc htakes hstep⟩
    | report candId perf =>
      have hreport : handleReport S.plugins fuel { c.sess with world := { c.sess.world with cfg := cfg } }
          candId perf = some (ret', s₂, reply₂) := hreq
      rw [handleReport_eq] at hreport
      obtain ⟨⟨ret₁, s₁⟩, hresume, hres⟩ := Option.map_eq_some_iff.mp hreport
      cases hres
      have hstep : c.step S (.mesg srcId (.report candId perf)) = some (c.goOn true
          (startReport S.plugins { c.sess with world := { c.sess.world with cfg := cfg } } candId perf)) := by
        unfold step
        dsimp only
        rw [hclient, Option.bind_some]
      obtain ⟨inputs', hdone⟩ := hrun.resume htakes hstep hresume
      have hsame : c.answer (if ret₁ ≠ 0 then -1 else 0) s₁ = c.finish true ret₁ s₁ := by
        unfold finish answer
        by_cases hret : ret₁ ≠ 0
        · simp only [if_pos hret]
          rfl
        · simp only [if_neg hret]
          rfl
      rw [hsame]
      exact ⟨inputs', hdone⟩
    | restart =>
      have hstep : c.step S (.mesg srcId .restart) = some (c.answer ret' s₂) := by
        have hrestart : handleRestart S.plugins { c.sess with world := { c.sess.world with cfg := cfg } }
            = (ret', s₂, reply₂) := Option.some.inj hreq
        unfold step
        dsimp only
        rw [hclient, Option.bind_some, hrestart]
      exact ⟨_, hrun.snoc htakes hstep⟩

end Core

end ActiveHarmony

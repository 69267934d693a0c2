import ActiveHarmony.Session.Core

/-!
# The ledger of a session

An abstract view of the session core: only which slot is where, and what the core is doing. Its
steps are labelled by the acts that the core records; the plug-ins are gone, their answers are
part of the labels. `reachable_run` says that the trace of every reachable session is a run of the
ledger that ends in the view of the session, so that invariants of the core can be proved for
the steps of the ledger.
-/

namespace ActiveHarmony

/-! ## The abstract machine -/

/-- What the core is doing: waiting for an event, in the loop of `plugin_workflow` with
`curr_layer = c`, or about to act on the answer `st` of layer `c`. `pos` is the position in the
wait list if the answer came from a callback. -/
inductive Ctl where
  | idle
  | loop (i : ℕ) (c : ℤ)
  | trans (i : ℕ) (c : ℤ) (st : FlowStatus) (pos : Option ℕ)
deriving DecidableEq, Repr

/-- The ids of the slots, their number in use, the ready ring, the wait lists and `pollstate`. -/
structure Ledger where
  ids : List ℤ
  len : ℤ
  ring : List ℤ
  head : ℕ
  tail : ℕ
  wait : ℤ → WaitList
  poll : Bool
  ctl : Ctl

variable {σ V W : Type}

/-- The view of a session. -/
def Sess.ledger (s : Sess σ V W) (ctl : Ctl) : Ledger where
  ids := s.ids
  len := s.pendingLen
  ring := s.ready
  head := s.readyHead
  tail := s.readyTail
  wait := s.wait
  poll := s.pollstate
  ctl := ctl

/-- The wait list that `handle_wait` writes to. -/
def WaitList.grown (l : WaitList) : WaitList := if l.len = l.cells.length then l.grow else l

/-- The wait list with a slot appended. -/
def WaitList.append (l : WaitList) (i : ℕ) : WaitList :=
  { cells := l.cells.set l.len (i : ℤ), len := l.len + 1 }

/-- Go on with the workflow of `i` in layer `c'`; a trial resumed by a callback leaves the wait
list `c`. -/
def Ledger.resume (L : Ledger) (pos : Option ℕ) (i : ℕ) (c c' : ℤ) : Ledger :=
  { L with
    wait := match pos with
      | none => L.wait
      | some p => Function.update L.wait c ((L.wait c).remove p)
    ctl := .loop i c' }

/-- The layers of a stack of `n`, with their direction. -/
def IsLayer (n : ℕ) (c : ℤ) : Prop := c ≠ 0 ∧ c.natAbs ≤ n

/-- The steps of a ledger with `n` layers. -/
inductive Ledger.Step (n : ℕ) : Ledger → List Act → Ledger → Prop where
  | generateFail {L : Ledger} {i : ℕ} {ret id : ℤ} {st : FlowStatus} :
      L.ctl = .idle → L.ids[i]? = some (-1) → ret ≠ 0 → L.poll = true →
      Step n L [.generate i L.ids ret st id] { L with ids := L.ids.set i id }
  | generateWait {L : Ledger} {i : ℕ} {id : ℤ} :
      L.ctl = .idle → L.ids[i]? = some (-1) → L.poll = true →
      Step n L [.generate i L.ids 0 .wait id] { L with ids := L.ids.set i id, poll := false }
  | generateGo {L : Ledger} {i : ℕ} {id : ℤ} {st : FlowStatus} :
      L.ctl = .idle → L.ids[i]? = some (-1) → st ≠ .wait → L.poll = true →
      Step n L [.generate i L.ids 0 st id]
        { L with ids := L.ids.set i id, len := L.len + 1, ctl := .loop i 1 }
  | pointOverflow {L : Ledger} :
      L.ctl = .idle → L.len < L.ids.length → (∀ id ∈ L.ids, id ≠ -1) →
      Step n L [.raised .pointOverflow] L
  | layerFail {L : Ledger} {i : ℕ} {c ret : ℤ} {st : FlowStatus} :
      L.ctl = .loop i c → IsLayer n c → ret ≠ 0 →
      Step n L [.layer c i ret st] { L with ctl := .idle }
  | layer {L : Ledger} {i : ℕ} {c : ℤ} {st : FlowStatus} :
      L.ctl = .loop i c → IsLayer n c →
      Step n L [.layer c i 0 st] { L with ctl := .trans i c st none }
  | callback {L : Ledger} {c : ℤ} {pos : ℕ} {cell : ℤ} {st : FlowStatus} :
      L.ctl = .idle → IsLayer n c → pos < (L.wait c).len →
      (L.wait c).cells[pos]? = some cell →
      Step n L [.callback c pos cell.toNat st] { L with ctl := .trans cell.toNat c st (some pos) }
  | emptyWaitlist {L : Ledger} :
      L.ctl = .idle → Step n L [.raised .emptyWaitlist] L
  | accept {L : Ledger} {i : ℕ} {c : ℤ} {pos : Option ℕ} :
      L.ctl = .trans i c .accept pos → Step n L [] (L.resume pos i c (c + 1))
  | turn {L : Ledger} {i : ℕ} {c : ℤ} {st : FlowStatus} {pos : Option ℕ} :
      L.ctl = .trans i c st pos → st = .ret ∨ st = .retry →
      Step n L [] (L.resume pos i c (-c))
  | wait {L : Ledger} {i : ℕ} {c : ℤ} {pos : Option ℕ} :
      L.ctl = .trans i c .wait pos →
      (L.wait c).grown.cells[(L.wait c).grown.len]? = some (-1) →
      Step n L [] { L with
        wait := Function.update L.wait c ((L.wait c).grown.append i), ctl := .idle }
  | waitAppend {L : Ledger} {i : ℕ} {c cell : ℤ} {pos : Option ℕ} :
      L.ctl = .trans i c .wait pos →
      (L.wait c).grown.cells[(L.wait c).grown.len]? = some cell → cell ≠ -1 →
      Step n L [.raised .waitAppend] { L with
        wait := Function.update L.wait c (L.wait c).grown, ctl := .idle }
  | unknown {L : Ledger} {i : ℕ} {c : ℤ} {pos : Option ℕ} :
      L.ctl = .trans i c .unknown pos →
      Step n L [.raised .invalidStatus] { L with ctl := .idle }
  | rejectInAnalysis {L : Ledger} {i : ℕ} {c : ℤ} {pos : Option ℕ} :
      L.ctl = .trans i c .reject pos → c < 0 →
      Step n L [.raised .rejectInAnalysis] { L with ctl := .idle }
  | rejectedFail {L : Ledger} {i : ℕ} {c ret id : ℤ} {st : FlowStatus} {pos : Option ℕ} :
      L.ctl = .trans i c .reject pos → ¬ c < 0 → i < L.ids.length → ret ≠ 0 →
      Step n L [.rejected i L.ids ret st id] { L with ids := L.ids.set i id, ctl := .idle }
  | rejectedWait {L : Ledger} {i : ℕ} {c id : ℤ} {pos : Option ℕ} :
      L.ctl = .trans i c .reject pos → ¬ c < 0 → i < L.ids.length →
      Step n L [.rejected i L.ids 0 .wait id]
        { L with ids := L.ids.set i id, poll := false, ctl := .idle }
  | rejectedGo {L : Ledger} {i : ℕ} {c id : ℤ} {st : FlowStatus} {pos : Option ℕ} :
      L.ctl = .trans i c .reject pos → ¬ c < 0 → i < L.ids.length → st ≠ .wait →
      Step n L [.rejected i L.ids 0 st id]
        (({ L with ids := L.ids.set i id } : Ledger).resume pos i c 1)
  | analyzedFail {L : Ledger} {i : ℕ} {ret : ℤ} :
      L.ctl = .loop i 0 → ret ≠ 0 → Step n L [.analyzed i ret] { L with ctl := .idle }
  | analyzed {L : Ledger} {i : ℕ} :
      L.ctl = .loop i 0 → i < L.ids.length →
      Step n L [.analyzed i 0]
        { L with ids := L.ids.set i (-1), len := L.len - 1, poll := true, ctl := .idle }
  | enqueue {L : Ledger} {i : ℕ} {c : ℤ} :
      L.ctl = .loop i c → c > n → L.ring[L.tail]? = some (-1) →
      Step n L [.enqueue i] { L with
        ring := L.ring.set L.tail (i : ℤ), tail := (L.tail + 1) % L.ring.length, ctl := .idle }
  | readyOverflow {L : Ledger} {i : ℕ} {c cell : ℤ} :
      L.ctl = .loop i c → c > n → L.ring[L.tail]? = some cell → cell ≠ -1 →
      Step n L [.raised .readyOverflow] { L with ctl := .idle }
  | deliver {L : Ledger} {idx id : ℤ} :
      L.ctl = .idle → L.ring[L.head]? = some idx → 0 ≤ idx → L.ids[idx.toNat]? = some id →
      Step n L [.deliver idx.toNat id] { L with
        ring := L.ring.set L.head (-1), head := (L.head + 1) % L.ring.length }
  | busy {L : Ledger} {id : ℤ} : L.ctl = .idle → Step n L [.busy id] L
  | report {L : Ledger} {id : ℤ} {i : ℕ} :
      L.ctl = .idle → i = L.ids.findIdx (· = id) → i < L.ids.length →
      Step n L [.report id (some i)] { L with ctl := .loop i (-n) }
  | reportNone {L : Ledger} {id : ℤ} :
      L.ctl = .idle → (∀ x ∈ L.ids, x ≠ id) → Step n L [.report id none] L
  | rougePoint {L : Ledger} : L.ctl = .idle → Step n L [.raised .rougePoint] L
  | init {L : Ledger} {ret : ℤ} : L.ctl = .idle → Step n L [.init ret] L

/-- The runs of a ledger. -/
inductive Ledger.Run (n : ℕ) (L : Ledger) : List Act → Ledger → Prop where
  | nil : Run n L [] L
  | snoc {acts as : List Act} {L' L'' : Ledger} :
      Run n L acts L' → L'.Step n as L'' → Run n L (acts ++ as) L''

lemma Ledger.Run.single {n : ℕ} {L L' : Ledger} {as : List Act} (h : L.Step n as L') :
    L.Run n as L' := by
  have hrun := Ledger.Run.snoc (.nil (n := n)) h
  rwa [List.nil_append] at hrun

lemma Ledger.Run.trans {n : ℕ} {L L' L'' : Ledger} {acts acts' : List Act}
    (h : L.Run n acts L') (h' : L'.Run n acts' L'') : L.Run n (acts ++ acts') L'' := by
  induction h' with
  | nil => rwa [List.append_nil]
  | snoc _ hstep ih =>
    rw [← List.append_assoc]
    exact ih.snoc hstep

/-- A ledger without trials. -/
def Ledger.initial (cap : ℕ) : Ledger where
  ids := List.replicate cap (-1)
  len := 0
  ring := List.replicate cap (-1)
  head := 0
  tail := 0
  wait := fun _ => { cells := [], len := 0 }
  poll := true
  ctl := .idle

/-! ## The session core follows the ledger -/

/-- From `s`, seen with control `ctl`, the session went to `s'` while the ledger went to `L'`. -/
def Follows (n : ℕ) (s : Sess σ V W) (ctl : Ctl) (s' : Sess σ V W) (L' : Ledger) : Prop :=
  ∃ acts, s'.trace = s.trace ++ acts ∧ (s.ledger ctl).Run n acts L'

variable {P : Plugins σ V W} {s s' s'' : Sess σ V W} {n i : ℕ} {ret : ℤ} {ctl ctl' : Ctl}

lemma Follows.refl (s : Sess σ V W) (ctl : Ctl) : Follows n s ctl s (s.ledger ctl) :=
  ⟨[], (List.append_nil _).symm, .nil⟩

lemma Follows.of_step {as : List Act} {L' : Ledger} (htrace : s'.trace = s.trace ++ as)
    (hstep : (s.ledger ctl).Step n as L') : Follows n s ctl s' L' :=
  ⟨as, htrace, .single hstep⟩

lemma Follows.trans {L'' : Ledger} (h : Follows n s ctl s' (s'.ledger ctl'))
    (h' : Follows n s' ctl' s'' L'') : Follows n s ctl s'' L'' := by
  rcases h with ⟨acts, htrace, hrun⟩
  rcases h' with ⟨acts', htrace', hrun'⟩
  exact ⟨acts ++ acts', by rw [htrace', htrace, List.append_assoc], hrun.trans hrun'⟩

/-- Writing the point of a slot sets its id. -/
lemma ids_set (pending : List (HTrial V W)) (i : ℕ) (trial : HTrial V W) :
    (pending.set i trial).map (fun trial => trial.point.id)
      = (pending.map fun trial => trial.point.id).set i trial.point.id := List.map_set

/-- Writing the performance of a slot leaves the ids alone. -/
lemma ids_set_perf {pending : List (HTrial V W)} {trial : HTrial V W} (perf : HPerf W)
    (hi : pending[i]? = some trial) :
    (pending.set i { trial with perf := perf }).map (fun trial => trial.point.id)
      = pending.map fun trial => trial.point.id := by
  have hid : (pending.map fun trial => trial.point.id)[i]? = some trial.point.id := by
    rw [List.getElem?_map, hi]
    rfl
  rcases List.getElem?_eq_some_iff.mp hid with ⟨hlt, heq⟩
  rw [ids_set, ← heq]
  exact List.set_getElem_self hlt

lemma ids_getElem? {trial : HTrial V W} (hi : s.pending[i]? = some trial) :
    s.ids[i]? = some trial.point.id := by
  unfold Sess.ids
  rw [List.getElem?_map, hi]
  rfl

lemma ids_length (s : Sess σ V W) : s.ids.length = s.pending.length := List.length_map ..

/-! ### What the functions can do -/

lemma handleWait_cases (h : handleWait s i = some (ret, s')) :
    (∃ cell, (s.wait s.currLayer).grown.cells[(s.wait s.currLayer).grown.len]? = some cell ∧ cell ≠ -1 ∧
      ret = -1 ∧ s' = Sess.raise { s with
        wait := Function.update s.wait s.currLayer (s.wait s.currLayer).grown } .waitAppend) ∨
    ((s.wait s.currLayer).grown.cells[(s.wait s.currLayer).grown.len]? = some (-1) ∧ ret = 0 ∧ s' = { s with
      wait := Function.update s.wait s.currLayer ((s.wait s.currLayer).grown.append i) }) := by
  unfold handleWait at h
  have hgrown : (if (s.wait s.currLayer).len = (s.wait s.currLayer).cells.length
      then (s.wait s.currLayer).grow else s.wait s.currLayer) = (s.wait s.currLayer).grown := rfl
  simp only [hgrown] at h
  cases hcell : (s.wait s.currLayer).grown.cells[(s.wait s.currLayer).grown.len]? with
  | none =>
    simp only [hcell] at h
    cases h
  | some cell =>
    simp only [hcell] at h
    by_cases hfull : cell ≠ -1
    · rw [if_pos hfull] at h
      cases h
      exact Or.inl ⟨cell, rfl, hfull, rfl, rfl⟩
    · rw [if_neg hfull] at h
      cases h
      rw [not_not.mp hfull]
      exact Or.inr ⟨rfl, rfl, rfl⟩

/-- The session after `strategy_rejected` has given slot `i` another point. -/
def Sess.refilled (s : Sess σ V W) (i : ℕ) (trial : HTrial V W) (ret : ℤ) (world : World σ) (flow : Flow V)
    (point : HPoint V) : Sess σ V W :=
  ({ s with
    world := world
    flow := flow
    pending := s.pending.set i { trial with point := point } } : Sess σ V W).log
      (.rejected i s.ids ret flow.status point.id)

lemma handleReject_cases (h : handleReject P s i = some (ret, s')) :
    (s.currLayer < 0 ∧ ret = -1 ∧ s' = s.raise .rejectInAnalysis) ∨
    ∃ trial r world flow point, ¬ s.currLayer < 0 ∧ s.pending[i]? = some trial ∧
      P.strategyRejected s.world s.flow trial.point = (r, world, flow, point) ∧
      ((r ≠ 0 ∧ ret = -1 ∧ s' = s.refilled i trial r world flow point) ∨
      (r = 0 ∧ flow.status = .wait ∧ ret = 0 ∧
        s' = { s.refilled i trial r world flow point with pollstate := false }) ∨
      (r = 0 ∧ flow.status ≠ .wait ∧ ret = 0 ∧ s' = s.refilled i trial r world flow point)) := by
  unfold handleReject at h
  by_cases hneg : s.currLayer < 0
  · rw [if_pos hneg] at h
    cases h
    exact Or.inl ⟨hneg, rfl, rfl⟩
  rw [if_neg hneg] at h
  cases htrial : s.pending[i]? with
  | none =>
    simp only [htrial] at h
    cases h
  | some trial =>
    simp only [htrial] at h
    rcases hcall : P.strategyRejected s.world s.flow trial.point with ⟨r, world, flow, point⟩
    simp only [hcall] at h
    refine Or.inr ⟨trial, r, world, flow, point, hneg, rfl, hcall, ?_⟩
    by_cases hr : r ≠ 0
    · rw [if_pos hr] at h
      cases h
      exact Or.inl ⟨hr, rfl, rfl⟩
    · rw [if_neg hr] at h
      by_cases hw : flow.status = .wait
      · simp only [Sess.log, hw, if_true] at h
        cases h
        refine Or.inr (Or.inl ⟨not_not.mp hr, hw, rfl, ?_⟩)
        simp only [Sess.refilled, Sess.log, hw]
      · simp only [Sess.log, hw, if_false] at h
        cases h
        exact Or.inr (Or.inr ⟨not_not.mp hr, hw, rfl, rfl⟩)

lemma workflowTransition_cases (h : workflowTransition P s i = some (ret, s')) :
    (s.flow.status = .accept ∧ ret = 0 ∧ s' = { s with currLayer := s.currLayer + 1 }) ∨
    ((s.flow.status = .ret ∨ s.flow.status = .retry) ∧ ret = 0 ∧ s' = { s with currLayer := -s.currLayer }) ∨
    (s.flow.status = .unknown ∧ ret = -1 ∧ s' = s.raise .invalidStatus) ∨
    (s.flow.status = .wait ∧ ∃ r, handleWait s i = some (r, s') ∧ (r ≠ 0 ∧ ret = -1 ∨ r = 0 ∧ ret = 1)) ∨
    (s.flow.status = .reject ∧ ∃ r s₁, handleReject P s i = some (r, s₁) ∧
      ((r ≠ 0 ∧ ret = -1 ∧ s' = s₁) ∨ (r = 0 ∧ s₁.flow.status = .wait ∧ ret = 1 ∧ s' = s₁) ∨
        (r = 0 ∧ s₁.flow.status ≠ .wait ∧ ret = 0 ∧ s' = { s₁ with currLayer := 1 }))) := by
  unfold workflowTransition at h
  cases hst : s.flow.status with
  | unknown =>
    rw [hst] at h
    cases h
    exact Or.inr (Or.inr (Or.inl ⟨rfl, rfl, rfl⟩))
  | accept =>
    rw [hst] at h
    cases h
    exact Or.inl ⟨rfl, rfl, rfl⟩
  | ret =>
    rw [hst] at h
    cases h
    exact Or.inr (Or.inl ⟨Or.inl rfl, rfl, rfl⟩)
  | retry =>
    rw [hst] at h
    cases h
    exact Or.inr (Or.inl ⟨Or.inr rfl, rfl, rfl⟩)
  | wait =>
    rw [hst] at h
    rcases Option.bind_eq_some_iff.mp h with ⟨⟨r, s₁⟩, hwait, h⟩
    refine Or.inr (Or.inr (Or.inr (Or.inl ⟨rfl, r, ?_⟩)))
    by_cases hr : r ≠ 0
    · simp only [if_pos hr] at h
      cases h
      exact ⟨hwait, Or.inl ⟨hr, rfl⟩⟩
    · simp only [if_neg hr] at h
      cases h
      exact ⟨hwait, Or.inr ⟨not_not.mp hr, rfl⟩⟩
  | reject =>
    rw [hst] at h
    rcases Option.bind_eq_some_iff.mp h with ⟨⟨r, s₁⟩, hrej, h⟩
    refine Or.inr (Or.inr (Or.inr (Or.inr ⟨rfl, r, s₁, hrej, ?_⟩)))
    by_cases hr : r ≠ 0
    · simp only [if_pos hr] at h
      cases h
      exact Or.inl ⟨hr, rfl, rfl⟩
    · simp only [if_neg hr] at h
      by_cases hw : s₁.flow.status = .wait
      · simp only [if_pos hw] at h
        cases h
        exact Or.inr (Or.inl ⟨not_not.mp hr, hw, rfl, rfl⟩)
      · simp only [if_neg hw] at h
        cases h
        exact Or.inr (Or.inr ⟨not_not.mp hr, hw, rfl, rfl⟩)

/-- The session while a layer is called. -/
def Sess.calling (s : Sess σ V W) : Sess σ V W := { s with flow := { s.flow with status := .accept } }

lemma callLayer_cases (h : callLayer P s i = some (ret, s')) :
    ∃ layer trial, P.lstack[s.currLayer.natAbs - 1]? = some layer ∧ s.pending[i]? = some trial ∧
      (((if s.currLayer < (0 : ℤ) then layer.analyze else layer.generate) = none ∧ ret = 0 ∧
        s' = s.calling.log (.layer s.currLayer i 0 .accept)) ∨
      ∃ hook world flow perf,
        (if s.currLayer < (0 : ℤ) then layer.analyze else layer.generate) = some hook ∧
        hook s.world { s.flow with status := .accept } trial = (ret, world, flow, perf) ∧
        s' = ({ s with
          world := world
          flow := flow
          pending := s.pending.set i { trial with perf := perf } } : Sess σ V W).log
            (.layer s.currLayer i ret flow.status)) := by
  unfold callLayer at h
  cases hlayer : P.lstack[s.currLayer.natAbs - 1]? with
  | none =>
    simp only [hlayer] at h
    cases h
  | some layer =>
    cases htrial : s.pending[i]? with
    | none =>
      simp only [hlayer, htrial] at h
      cases h
    | some trial =>
      simp only [hlayer, htrial] at h
      refine ⟨layer, trial, rfl, rfl, ?_⟩
      cases hhook : (if s.currLayer < (0 : ℤ) then layer.analyze else layer.generate) with
      | none =>
        simp only [hhook] at h
        cases h
        exact Or.inl ⟨rfl, rfl, rfl⟩
      | some hook =>
        simp only [hhook] at h
        rcases hcall : hook s.world { s.flow with status := .accept } trial with ⟨r, world, flow, perf⟩
        simp only [hcall] at h
        cases h
        exact Or.inr ⟨hook, world, flow, perf, rfl, hcall, rfl⟩

lemma finishWorkflow_cases (h : finishWorkflow P s i = some (ret, s')) :
    (s.currLayer = 0 ∧ ∃ trial r world, s.pending[i]? = some trial ∧
      P.strategyAnalyze s.world trial = (r, world) ∧
      ((r ≠ 0 ∧ ret = -1 ∧ s' = ({ s with world := world } : Sess σ V W).log (.analyzed i r)) ∨
      (r = 0 ∧ ret = 0 ∧ s' = { ({ s with world := world } : Sess σ V W).log (.analyzed i r) with
        pending := s.pending.set i { trial with point := hpointInitializer V }
        pendingLen := s.pendingLen - 1
        pollstate := true }))) ∨
    (s.currLayer > P.lstack.length ∧ ∃ cell, s.ready[s.readyTail]? = some cell ∧
      ((cell ≠ -1 ∧ ret = -1 ∧ s' = s.raise .readyOverflow) ∨
      (cell = -1 ∧ ret = 0 ∧ s' = ({ s with
        ready := s.ready.set s.readyTail (i : ℤ)
        readyTail := (s.readyTail + 1) % s.ready.length } : Sess σ V W).log (.enqueue i)))) ∨
    (s.currLayer ≠ 0 ∧ ¬ s.currLayer > P.lstack.length ∧ ret = -1 ∧ s' = s.raise .invalidLayer) := by
  unfold finishWorkflow at h
  by_cases hzero : s.currLayer = 0
  · rw [if_pos hzero] at h
    cases htrial : s.pending[i]? with
    | none =>
      simp only [htrial] at h
      cases h
    | some trial =>
      simp only [htrial] at h
      rcases hcall : P.strategyAnalyze s.world trial with ⟨r, world⟩
      simp only [hcall] at h
      refine Or.inl ⟨hzero, trial, r, world, rfl, hcall, ?_⟩
      by_cases hr : r ≠ 0
      · rw [if_pos hr] at h
        cases h
        exact Or.inl ⟨hr, rfl, rfl⟩
      · rw [if_neg hr] at h
        cases h
        exact Or.inr ⟨not_not.mp hr, rfl, rfl⟩
  · rw [if_neg hzero] at h
    by_cases hgt : s.currLayer > P.lstack.length
    · rw [if_pos hgt] at h
      cases hcell : s.ready[s.readyTail]? with
      | none =>
        simp only [hcell] at h
        cases h
      | some cell =>
        simp only [hcell] at h
        refine Or.inr (Or.inl ⟨hgt, cell, rfl, ?_⟩)
        by_cases hfull : cell ≠ -1
        · rw [if_pos hfull] at h
          cases h
          exact Or.inl ⟨hfull, rfl, rfl⟩
        · rw [if_neg hfull] at h
          cases h
          exact Or.inr ⟨not_not.mp hfull, rfl, rfl⟩
    · rw [if_neg hgt] at h
      cases h
      exact Or.inr (Or.inr ⟨hzero, hgt, rfl, rfl⟩)

/-! ### Step by step -/

lemma handleWait_follows (n : ℕ) (pos : Option ℕ) (hst : s.flow.status = .wait)
    (h : handleWait s i = some (ret, s')) :
    Follows n s (.trans i s.currLayer s.flow.status pos) s' (s'.ledger .idle) := by
  rw [hst]
  rcases handleWait_cases h with ⟨cell, hcell, hfull, -, rfl⟩ | ⟨hcell, -, rfl⟩
  · exact Follows.of_step rfl (Ledger.Step.waitAppend rfl hcell hfull)
  · exact Follows.of_step (List.append_nil _).symm (Ledger.Step.wait rfl hcell)

/-- A refusal by a layer: the strategy is asked again, unless the trial is being analyzed. -/
lemma handleReject_follows (n : ℕ) (pos : Option ℕ) (hst : s.flow.status = .reject)
    (h : handleReject P s i = some (ret, s')) :
    (ret = 0 ∧ s'.flow.status ≠ .wait →
      Follows n s (.trans i s.currLayer s.flow.status pos) s'
        ((s'.ledger .idle).resume pos i s.currLayer 1)) ∧
    (ret ≠ 0 ∨ s'.flow.status = .wait →
      Follows n s (.trans i s.currLayer s.flow.status pos) s' (s'.ledger .idle)) := by
  rw [hst]
  rcases handleReject_cases h with ⟨hneg, rfl, rfl⟩ | ⟨trial, r, world, flow, point, hneg, htrial, -, hres⟩
  · refine ⟨fun hgo => absurd hgo.1 (by decide), fun _ => ?_⟩
    exact Follows.of_step rfl (Ledger.Step.rejectInAnalysis rfl hneg)
  have hlt : i < s.ids.length := by
    rw [ids_length]
    exact (List.getElem?_eq_some_iff.mp htrial).1
  rcases hres with ⟨hr, rfl, rfl⟩ | ⟨rfl, hw, rfl, rfl⟩ | ⟨rfl, hw, rfl, rfl⟩
  · refine ⟨fun hgo => absurd hgo.1 (by decide), fun _ => ?_⟩
    have hstep := @Ledger.Step.rejectedFail n (s.ledger (.trans i s.currLayer .reject pos)) _ _ _ point.id
      flow.status _ rfl hneg hlt hr
    refine Follows.of_step rfl ?_
    simp only [Sess.refilled, Sess.ledger, Sess.log, Sess.ids, ids_set] at hstep ⊢
    exact hstep
  · refine ⟨fun hgo => absurd hw hgo.2, fun _ => ?_⟩
    have hstep := @Ledger.Step.rejectedWait n (s.ledger (.trans i s.currLayer .reject pos)) _ _ point.id _
      rfl hneg hlt
    rw [← hw] at hstep
    refine Follows.of_step rfl ?_
    simp only [Sess.refilled, Sess.ledger, Sess.log, Sess.ids, ids_set] at hstep ⊢
    exact hstep
  · refine ⟨fun _ => ?_, fun hbad => absurd (hbad.resolve_left (by simp)) hw⟩
    have hstep := @Ledger.Step.rejectedGo n (s.ledger (.trans i s.currLayer .reject pos)) _ _ point.id
      flow.status _ rfl hneg hlt hw
    refine Follows.of_step rfl ?_
    simp only [Sess.refilled, Sess.ledger, Sess.log, Sess.ids, ids_set] at hstep ⊢
    exact hstep

/-- The transition after an answer: with 0 the workflow goes on, otherwise it is over. -/
theorem workflowTransition_follows (n : ℕ) (pos : Option ℕ) {st : FlowStatus} (hst : s.flow.status = st)
    (h : workflowTransition P s i = some (ret, s')) :
    (ret = 0 → Follows n s (.trans i s.currLayer st pos) s'
      ((s'.ledger .idle).resume pos i s.currLayer s'.currLayer)) ∧
    (ret ≠ 0 → Follows n s (.trans i s.currLayer st pos) s' (s'.ledger .idle)) := by
  subst hst
  rcases workflowTransition_cases h with ⟨hst, rfl, rfl⟩ | ⟨hst, rfl, rfl⟩ | ⟨hst, rfl, rfl⟩ |
    ⟨hst, r, hwait, hret⟩ | ⟨hst, r, s₁, hrej, hres⟩
  · refine ⟨fun _ => ?_, fun h0 => absurd rfl h0⟩
    rw [hst]
    exact Follows.of_step (List.append_nil _).symm (Ledger.Step.accept rfl)
  · refine ⟨fun _ => ?_, fun h0 => absurd rfl h0⟩
    exact Follows.of_step (List.append_nil _).symm (Ledger.Step.turn rfl hst)
  · refine ⟨fun h0 => absurd h0 (by decide), fun _ => ?_⟩
    rw [hst]
    exact Follows.of_step rfl (Ledger.Step.unknown rfl)
  · have hne : ret ≠ 0 := by omega
    exact ⟨fun h0 => absurd h0 hne, fun _ => handleWait_follows n pos hst hwait⟩
  · rcases handleReject_follows n pos hst hrej with ⟨hgo, hstop⟩
    rcases hres with ⟨hr, rfl, rfl⟩ | ⟨rfl, hw, rfl, rfl⟩ | ⟨rfl, hw, rfl, rfl⟩
    · exact ⟨fun h0 => absurd h0 (by decide), fun _ => hstop (Or.inl hr)⟩
    · exact ⟨fun h0 => absurd h0 (by decide), fun _ => hstop (Or.inr hw)⟩
    · exact ⟨fun _ => hgo ⟨rfl, hw⟩, fun h0 => absurd rfl h0⟩

/-- The call of a layer: it is recorded, and nothing the ledger shows changes. -/
lemma callLayer_follows (h : callLayer P s i = some (ret, s'))
    (hc : s.currLayer ≠ 0 ∧ s.currLayer ≤ P.lstack.length) :
    s'.currLayer = s.currLayer ∧
    (ret = 0 → Follows P.lstack.length s (.loop i s.currLayer) s'
      (s'.ledger (.trans i s.currLayer s'.flow.status none))) ∧
    (ret ≠ 0 → Follows P.lstack.length s (.loop i s.currLayer) s' (s'.ledger .idle)) := by
  rcases callLayer_cases h with ⟨layer, trial, hlayer, htrial, hres⟩
  have hlt : s.currLayer.natAbs - 1 < P.lstack.length := (List.getElem?_eq_some_iff.mp hlayer).1
  have hlay : IsLayer P.lstack.length s.currLayer := ⟨hc.1, by omega⟩
  rcases hres with ⟨-, rfl, rfl⟩ | ⟨hook, world, flow, perf, -, -, rfl⟩
  · refine ⟨rfl, fun _ => ?_, fun h0 => absurd rfl h0⟩
    exact Follows.of_step rfl (Ledger.Step.layer rfl hlay)
  · have hids := ids_set_perf perf htrial
    refine ⟨rfl, fun h0 => ?_, fun h0 => ?_⟩
    · subst h0
      refine Follows.of_step rfl ?_
      have hstep := @Ledger.Step.layer _ (s.ledger (.loop i s.currLayer)) _ _ flow.status rfl hlay
      simp only [Sess.ledger, Sess.log, Sess.ids, hids] at hstep ⊢
      exact hstep
    · refine Follows.of_step rfl ?_
      have hstep := @Ledger.Step.layerFail _ (s.ledger (.loop i s.currLayer)) _ _ _ flow.status rfl hlay h0
      simp only [Sess.ledger, Sess.log, Sess.ids, hids] at hstep ⊢
      exact hstep

lemma finishWorkflow_follows (h : finishWorkflow P s i = some (ret, s'))
    (hc : ¬ (s.currLayer ≠ 0 ∧ s.currLayer ≤ P.lstack.length)) :
    Follows P.lstack.length s (.loop i s.currLayer) s' (s'.ledger .idle) := by
  rcases finishWorkflow_cases h with ⟨hzero, trial, r, world, htrial, -, hres⟩ | ⟨hgt, cell, hcell, hres⟩ |
    ⟨hne, hle, -, -⟩
  · have hlt : i < s.ids.length := by
      rw [ids_length]
      exact (List.getElem?_eq_some_iff.mp htrial).1
    rw [hzero]
    rcases hres with ⟨hr, -, rfl⟩ | ⟨rfl, -, rfl⟩
    · exact Follows.of_step rfl (Ledger.Step.analyzedFail rfl hr)
    · refine Follows.of_step rfl ?_
      have hstep := Ledger.Step.analyzed (n := P.lstack.length) (L := s.ledger (.loop i 0)) rfl hlt
      simp only [Sess.ledger, Sess.log, Sess.ids, ids_set] at hstep ⊢
      exact hstep
  · rcases hres with ⟨hfull, -, rfl⟩ | ⟨rfl, -, rfl⟩
    · exact Follows.of_step rfl (Ledger.Step.readyOverflow rfl hgt hcell hfull)
    · exact Follows.of_step rfl (Ledger.Step.enqueue rfl hgt hcell)
  · exact absurd ⟨hne, not_lt.mp hle⟩ hc

theorem pluginWorkflow_follows : ∀ (fuel : ℕ) (s : Sess σ V W),
    pluginWorkflow P fuel s i = some (ret, s') →
    Follows P.lstack.length s (.loop i s.currLayer) s' (s'.ledger .idle) := by
  intro fuel
  induction fuel with
  | zero => intro s h; cases h
  | succ fuel ih =>
    intro s h
    rw [pluginWorkflow] at h
    by_cases hc : s.currLayer ≠ 0 ∧ s.currLayer ≤ P.lstack.length
    · rw [if_pos hc] at h
      rcases Option.bind_eq_some_iff.mp h with ⟨⟨r, s₁⟩, hcall, h⟩
      rcases callLayer_follows hcall hc with ⟨hcurr, hgo, hfail⟩
      by_cases hr : r ≠ 0
      · simp only [if_pos hr] at h
        cases h
        exact hfail hr
      simp only [if_neg hr] at h
      have hcalled := hgo (not_not.mp hr)
      rcases Option.bind_eq_some_iff.mp h with ⟨⟨r', s₂⟩, htrans, h⟩
      rcases workflowTransition_follows P.lstack.length none rfl htrans with
        ⟨hnext, hstop⟩
      rw [hcurr] at hnext hstop
      by_cases hneg : r' < 0
      · simp only [if_pos hneg] at h
        cases h
        exact hcalled.trans (hstop (by omega))
      by_cases hpos : r' > 0
      · simp only [if_neg hneg, if_pos hpos] at h
        cases h
        exact hcalled.trans (hstop (by omega))
      · simp only [if_neg hneg, if_neg hpos] at h
        -- the next round starts where the transition left the ledger
        have hround : Follows P.lstack.length s (.loop i s.currLayer) s₂
            (s₂.ledger (.loop i s₂.currLayer)) := hcalled.trans (hnext (by omega))
        exact hround.trans (ih s₂ h)
    · rw [if_neg hc] at h
      exact finishWorkflow_follows h hc

/-- Searching the slots is searching their ids. -/
lemma findIdx_ids (s : Sess σ V W) (id : ℤ) :
    (s.pending.findIdx fun trial => trial.point.id = id) = s.ids.findIdx (· = id) := by
  unfold Sess.ids
  rw [List.findIdx_map]
  rfl

lemma ids_ne_of_findIdx {ids : List ℤ} {id : ℤ} (h : ids.length ≤ ids.findIdx (· = id)) :
    ∀ x ∈ ids, x ≠ id := by
  intro x hx heq
  have hlt := List.findIdx_lt_length_of_exists (p := fun y : ℤ => decide (y = id))
    ⟨x, hx, by simpa using heq⟩
  omega

/-! ### What the handlers can do -/

lemma generateTrial_cases [Top W] {fuel : ℕ} (h : generateTrial P fuel s = some (ret, s')) :
    (s.pending[s.ids.findIdx (· = -1)]? = none ∧ ret = -1 ∧ s' = s.raise .pointOverflow) ∨
    ∃ trial r world flow point s₁, s.pending[s.ids.findIdx (· = -1)]? = some trial ∧
      P.strategyGenerate s.world s.flow trial.point = (r, world, flow, point) ∧
      s₁ = ({ s with
        world := world
        flow := flow
        pending := s.pending.set (s.ids.findIdx (· = -1))
          { point := point, perf := hperfReset trial.perf } } : Sess σ V W).log
            (.generate (s.ids.findIdx (· = -1)) s.ids r flow.status point.id) ∧
      ((r ≠ 0 ∧ ret = -1 ∧ s' = s₁) ∨
      (r = 0 ∧ flow.status = .wait ∧ ret = 0 ∧ s' = { s₁ with pollstate := false }) ∨
      (r = 0 ∧ flow.status ≠ .wait ∧
        pluginWorkflow P fuel { s₁ with pendingLen := s₁.pendingLen + 1, currLayer := 1 }
          (s.ids.findIdx (· = -1)) = some (ret, s'))) := by
  unfold generateTrial at h
  simp only [findIdx_ids] at h
  cases htrial : s.pending[s.ids.findIdx (· = -1)]? with
  | none =>
    simp only [htrial] at h
    cases h
    exact Or.inl ⟨rfl, rfl, rfl⟩
  | some trial =>
    simp only [htrial] at h
    rcases hcall : P.strategyGenerate s.world s.flow trial.point with ⟨r, world, flow, point⟩
    simp only [hcall] at h
    refine Or.inr ⟨trial, r, world, flow, point, _, rfl, hcall, rfl, ?_⟩
    split_ifs at h with hr hw
    · cases h
      exact Or.inl ⟨hr, rfl, rfl⟩
    · cases h
      exact Or.inr (Or.inl ⟨not_not.mp hr, hw, rfl, rfl⟩)
    · exact Or.inr (Or.inr ⟨not_not.mp hr, hw, h⟩)

lemma handleCallback_cases {fuel : ℕ} {cb : Callback σ V W}
    (h : handleCallback P fuel s cb = some (ret, s')) :
    ((s.wait cb.index).len < 1 ∧ ret = -1 ∧
      s' = ({ s with currLayer := cb.index } : Sess σ V W).raise .emptyWaitlist) ∨
    ∃ trials idx world flow perfs cell s₁ r s₂,
      cb.func s.world s.flow trials = (idx, world, flow, perfs) ∧
      0 ≤ idx ∧ idx < (s.wait cb.index).len ∧ (s.wait cb.index).cells[idx.toNat]? = some cell ∧
      s₁ = ({ s with
        currLayer := cb.index
        world := world
        flow := flow
        pending := setPerfs s.pending
          (((s.wait cb.index).cells.take (s.wait cb.index).len).zip perfs) } : Sess σ V W).log
            (.callback cb.index idx.toNat cell.toNat flow.status) ∧
      workflowTransition P s₁ cell.toNat = some (r, s₂) ∧
      ((r < 0 ∧ ret = -1 ∧ s' = s₂) ∨ (0 < r ∧ ret = 0 ∧ s' = s₂) ∨
      (r = 0 ∧ pluginWorkflow P fuel
        { s₂ with wait := Function.update s₂.wait cb.index ((s₂.wait cb.index).remove idx.toNat) }
          cell.toNat = some (ret, s'))) := by
  unfold handleCallback at h
  dsimp only at h
  split_ifs at h with hlen
  · cases h
    exact Or.inl ⟨hlen, rfl, rfl⟩
  · right
    obtain ⟨trials, -, h⟩ := Option.bind_eq_some_iff.mp h
    rcases hcall : cb.func s.world s.flow trials with ⟨idx, world, flow, perfs⟩
    simp only [hcall] at h
    split_ifs at h with hidx
    obtain ⟨cell, hcell, h⟩ := Option.bind_eq_some_iff.mp h
    obtain ⟨⟨r, s₂⟩, htrans, h⟩ := Option.bind_eq_some_iff.mp h
    refine ⟨trials, idx, world, flow, perfs, cell, _, r, s₂, hcall, by omega, by omega, hcell, rfl, htrans, ?_⟩
    dsimp only at h
    split_ifs at h with hneg hpos
    · cases h
      exact Or.inl ⟨hneg, rfl, rfl⟩
    · cases h
      exact Or.inr (Or.inl ⟨hpos, rfl, rfl⟩)
    · exact Or.inr (Or.inr ⟨by omega, h⟩)

lemma handleFetch_cases {reply : Reply V} (h : handleFetch P s = some (ret, s', reply)) :
    ∃ idx, s.ready[s.readyHead]? = some idx ∧
      ((∃ next, 0 ≤ idx ∧ s.pending[idx.toNat]? = some next ∧ ret = 0 ∧
        s' = ({ s with
          ready := s.ready.set s.readyHead (-1)
          readyHead := (s.readyHead + 1) % s.ready.length } : Sess σ V W).log
            (.deliver idx.toNat next.point.id) ∧
        reply = .point .ok (hpointCopy next.point)) ∨
      ∃ r world pt, P.strategyBest s.world (hpointInitializer V) = (r, world, pt) ∧
        ((r ≠ 0 ∧ ret = -1 ∧ s' = { s with world := world }) ∨
        (r = 0 ∧ ret = 0 ∧
          s' = ({ s with world := world, pausedId := pt.id } : Sess σ V W).log (.busy pt.id) ∧
          reply = .point .busy pt))) := by
  unfold handleFetch at h
  cases hcell : s.ready[s.readyHead]? with
  | none =>
    simp only [hcell] at h
    cases h
  | some idx =>
    simp only [hcell] at h
    refine ⟨idx, rfl, ?_⟩
    by_cases hnext : !s.paused ∧ idx ≥ 0
    · rw [if_pos hnext] at h
      cases htrial : s.pending[idx.toNat]? with
      | none =>
        simp only [htrial] at h
        cases h
      | some next =>
        simp only [htrial] at h
        cases h
        exact Or.inl ⟨next, hnext.2, rfl, rfl, rfl, rfl⟩
    · rw [if_neg hnext] at h
      rcases hcall : P.strategyBest s.world (hpointInitializer V) with ⟨r, world, pt⟩
      simp only [hcall] at h
      refine Or.inr ⟨r, world, pt, rfl, ?_⟩
      split_ifs at h with hr
      · cases h
        exact Or.inl ⟨hr, rfl, rfl⟩
      · cases h
        exact Or.inr ⟨not_not.mp hr, rfl, rfl, rfl⟩

lemma handleReport_cases {fuel : ℕ} {candId : ℤ} {perf : HPerf W} {reply : Reply V}
    (h : handleReport P fuel s candId perf = some (ret, s', reply)) : reply = .ok ∧
    ((candId ∉ s.ids ∧
      ((candId = s.pausedId ∧ ret = 0 ∧ s' = s.log (.report candId none)) ∨
      (candId ≠ s.pausedId ∧ ret = -1 ∧ s' = (s.log (.report candId none)).raise .rougePoint))) ∨
    ∃ trial r, s.pending[s.ids.findIdx (· = candId)]? = some trial ∧
      pluginWorkflow P fuel (({ s with
        pausedId := 0
        pending := s.pending.set (s.ids.findIdx (· = candId)) { trial with perf := perf }
        currLayer := -P.lstack.length } : Sess σ V W).log
          (.report candId (some (s.ids.findIdx (· = candId))))) (s.ids.findIdx (· = candId)) = some (r, s') ∧
      ret = if r ≠ 0 then -1 else 0) := by
  unfold handleReport at h
  simp only [findIdx_ids] at h
  cases htrial : s.pending[s.ids.findIdx (· = candId)]? with
  | none =>
    simp only [htrial] at h
    have hnone := @ids_ne_of_findIdx s.ids candId (by
      rw [ids_length]
      exact List.getElem?_eq_none_iff.mp htrial)
    have hnot : candId ∉ s.ids := fun hmem => hnone candId hmem rfl
    split_ifs at h with hpaused
    · cases h
      exact ⟨rfl, Or.inl ⟨hnot, Or.inl ⟨hpaused, rfl, rfl⟩⟩⟩
    · cases h
      exact ⟨rfl, Or.inl ⟨hnot, Or.inr ⟨hpaused, rfl, rfl⟩⟩⟩
  | some trial =>
    simp only [htrial] at h
    obtain ⟨⟨r, s₁⟩, hworkflow, h⟩ := Option.bind_eq_some_iff.mp h
    have hres : reply = .ok ∧ s₁ = s' ∧ ret = if r ≠ 0 then -1 else 0 := by
      dsimp only at h
      split_ifs at h ⊢
      all_goals
        cases h
        exact ⟨rfl, rfl, rfl⟩
    obtain ⟨rfl, rfl, hret⟩ := hres
    exact ⟨rfl, Or.inr ⟨trial, r, rfl, hworkflow, hret⟩⟩

/-! ### The handlers over the ledger -/

theorem generateTrial_follows [Top W] {fuel : ℕ} (hpoll : s.pollstate = true)
    (hroom : s.pendingLen < s.pending.length)
    (h : generateTrial P fuel s = some (ret, s')) :
    Follows P.lstack.length s .idle s' (s'.ledger .idle) := by
  obtain ⟨hnone, -, rfl⟩ | ⟨trial, r, world, flow, point, s₁, htrial, -, rfl, hres⟩ :=
    generateTrial_cases h
  · have hfull := @ids_ne_of_findIdx s.ids (-1) (by
      rw [ids_length]
      exact List.getElem?_eq_none_iff.mp hnone)
    refine Follows.of_step rfl (Ledger.Step.pointOverflow rfl ?_ hfull)
    show s.pendingLen < s.ids.length
    rwa [ids_length]
  · have hfree : s.ids[s.ids.findIdx (· = -1)]? = some (-1) := by
      have hlt : s.ids.findIdx (· = -1) < s.ids.length := by
        rw [ids_length]
        exact (List.getElem?_eq_some_iff.mp htrial).1
      rw [List.getElem?_eq_getElem hlt]
      have hfound := @List.findIdx_getElem _ (fun y : ℤ => decide (y = -1)) s.ids hlt
      simpa using hfound
    obtain ⟨hr, -, rfl⟩ | ⟨rfl, hw, -, rfl⟩ | ⟨rfl, hw, hworkflow⟩ := hres
    · refine Follows.of_step rfl ?_
      have hstep := @Ledger.Step.generateFail P.lstack.length (s.ledger .idle) _ _ point.id
        flow.status rfl hfree hr hpoll
      simp only [Sess.ledger, Sess.log, Sess.ids, ids_set] at hstep ⊢
      exact hstep
    · refine Follows.of_step rfl ?_
      have hstep := @Ledger.Step.generateWait P.lstack.length (s.ledger .idle) _ point.id
        rfl hfree hpoll
      simp only [Sess.ledger, Sess.log, Sess.ids, hw, ids_set] at hstep ⊢
      exact hstep
    · refine Follows.trans ?_ (pluginWorkflow_follows fuel _ hworkflow)
      refine Follows.of_step rfl ?_
      have hstep := @Ledger.Step.generateGo P.lstack.length (s.ledger .idle) _ point.id
        flow.status rfl hfree hw hpoll
      simp only [Sess.ledger, Sess.log, Sess.ids, ids_set] at hstep ⊢
      exact hstep

lemma ids_setPerfs (pending : List (HTrial V W)) (perfs : List (ℤ × HPerf W)) :
    (setPerfs pending perfs).map (fun trial => trial.point.id)
      = pending.map fun trial => trial.point.id := by
  induction perfs generalizing pending with
  | nil => rfl
  | cons cp perfs ih =>
    rcases cp with ⟨cell, perf⟩
    rw [setPerfs, ih]
    apply List.ext_getElem?
    intro j
    rw [List.getElem?_map, List.getElem?_map, List.getElem?_modify]
    cases pending[j]? with
    | none => rfl
    | some trial =>
      by_cases hj : cell.toNat = j
      · simp only [hj, if_true, Option.map_eq_map, Option.map_some]
      · simp only [hj, if_false, Option.map_eq_map, Option.map_some]

theorem handleCallback_follows {fuel : ℕ} {cb : Callback σ V W}
    (hcb : IsLayer P.lstack.length cb.index) (h : handleCallback P fuel s cb = some (ret, s')) :
    Follows P.lstack.length s .idle s' (s'.ledger .idle) := by
  obtain ⟨-, -, rfl⟩ | ⟨trials, idx, world, flow, perfs, cell, s₁, r, s₂, -, hnonneg, hidx, hcell, rfl,
    htrans, hres⟩ := handleCallback_cases h
  · exact Follows.of_step rfl (Ledger.Step.emptyWaitlist rfl)
  · -- the callback, and then the transition on its answer
    have hanswer : Follows P.lstack.length s .idle (({ s with
          currLayer := cb.index, world := world, flow := flow
          pending := setPerfs s.pending (((s.wait cb.index).cells.take (s.wait cb.index).len).zip perfs) }
        : Sess σ V W).log (.callback cb.index idx.toNat cell.toNat flow.status))
        ((({ s with
          currLayer := cb.index, world := world, flow := flow
          pending := setPerfs s.pending (((s.wait cb.index).cells.take (s.wait cb.index).len).zip perfs) }
        : Sess σ V W).log (.callback cb.index idx.toNat cell.toNat flow.status)).ledger
          (.trans cell.toNat cb.index flow.status (some idx.toNat))) := by
      have hlt : idx.toNat < (s.wait cb.index).len := by omega
      have hstep := @Ledger.Step.callback _ (s.ledger .idle) _ _ _ flow.status rfl hcb hlt hcell
      refine Follows.of_step rfl ?_
      simp only [Sess.ledger, Sess.log, Sess.ids, ids_setPerfs] at hstep ⊢
      exact hstep
    rcases workflowTransition_follows P.lstack.length (some idx.toNat) rfl htrans with
      ⟨hnext, hstop⟩
    obtain ⟨hneg, -, rfl⟩ | ⟨hpos, -, rfl⟩ | ⟨rfl, hworkflow⟩ := hres
    · exact hanswer.trans (hstop (by omega))
    · exact hanswer.trans (hstop (by omega))
    · rcases hanswer.trans (hnext (by omega)) with ⟨acts, htrace, hrun⟩
      rcases pluginWorkflow_follows fuel _ hworkflow with ⟨acts', htrace', hrun'⟩
      exact ⟨acts ++ acts', by rw [htrace', htrace, List.append_assoc], hrun.trans hrun'⟩

lemma handleFetch_follows {reply : Reply V} (h : handleFetch P s = some (ret, s', reply)) :
    Follows n s .idle s' (s'.ledger .idle) := by
  obtain ⟨idx, hidx, ⟨next, hnonneg, hnext, -, rfl, -⟩ |
    ⟨r, world, pt, -, ⟨-, -, rfl⟩ | ⟨-, -, rfl, -⟩⟩⟩ := handleFetch_cases h
  · exact Follows.of_step rfl (Ledger.Step.deliver rfl hidx hnonneg (ids_getElem? hnext))
  · exact Follows.refl s .idle
  · exact Follows.of_step rfl (Ledger.Step.busy rfl)

lemma handleReport_follows {fuel : ℕ} {candId : ℤ} {perf : HPerf W} {reply : Reply V}
    (h : handleReport P fuel s candId perf = some (ret, s', reply)) :
    Follows P.lstack.length s .idle s' (s'.ledger .idle) := by
  obtain ⟨-, ⟨hnot, hres⟩ | ⟨trial, r, htrial, hworkflow, -⟩⟩ := handleReport_cases h
  · have hnone : ∀ id ∈ s.ids, id ≠ candId := by
      rintro id hid rfl
      exact hnot hid
    have hreport : Follows P.lstack.length s .idle (s.log (.report candId none))
        ((s.log (.report candId none)).ledger .idle) :=
      Follows.of_step rfl (Ledger.Step.reportNone rfl hnone)
    obtain ⟨-, -, rfl⟩ | ⟨-, -, rfl⟩ := hres
    · exact hreport
    · exact hreport.trans (Follows.of_step rfl (Ledger.Step.rougePoint rfl))
  · have hlt : s.ids.findIdx (· = candId) < s.ids.length := by
      rw [ids_length]
      exact (List.getElem?_eq_some_iff.mp htrial).1
    refine Follows.trans ?_ (pluginWorkflow_follows fuel _ hworkflow)
    refine Follows.of_step rfl ?_
    have hstep := @Ledger.Step.report P.lstack.length (s.ledger .idle) candId _ rfl rfl hlt
    have hids := ids_set_perf perf htrial
    simp only [Sess.ids] at hids
    simp only [Sess.ledger, Sess.log, Sess.ids, hids] at hstep ⊢
    exact hstep

lemma sessionRestart_follows :
    Follows n s .idle (sessionRestart P s).2 ((sessionRestart P s).2.ledger .idle) := by
  unfold sessionRestart
  rcases callHooks (P.lstack.reverse.map Layer.fini) s.world with ⟨r, world⟩
  simp only
  by_cases hr : r ≠ 0
  · rw [if_pos hr]
    exact Follows.refl s .idle
  rw [if_neg hr]
  cases P.strategyInit with
  | none =>
    simp only [ne_eq, not_true_eq_false, if_false]
    exact Follows.refl s .idle
  | some strategyInit =>
    simp only
    rcases strategyInit world with ⟨r', world'⟩
    have hinit : ∀ w : World σ, Follows n s .idle (({ s with world := w }).log (.init r'))
        ((({ s with world := w }).log (.init r')).ledger .idle) :=
      fun w => Follows.of_step rfl (Ledger.Step.init rfl)
    by_cases hr' : r' ≠ 0
    · simp only [if_pos hr']
      exact hinit world'
    · simp only [if_neg hr']
      exact hinit _

lemma handleRequest_follows {fuel : ℕ} {req : Request W} {reply : Reply V}
    (h : handleRequest P fuel s req = some (ret, s', reply)) :
    Follows P.lstack.length s .idle s' (s'.ledger .idle) := by
  cases req with
  | best =>
    simp only [handleRequest, handleBest] at h
    rcases hcall : P.strategyBest s.world (hpointInitializer V) with ⟨r, world, pt⟩
    simp only [hcall] at h
    by_cases hr : r ≠ 0
    · rw [if_pos hr] at h
      cases h
      exact Follows.refl s .idle
    · rw [if_neg hr] at h
      cases h
      exact Follows.refl s .idle
  | fetch => exact handleFetch_follows h
  | report candId perf => exact handleReport_follows h
  | restart =>
    cases h
    exact sessionRestart_follows

theorem sessEvent_follows [Top W] {fuel : ℕ} {e : Event W} {alive : Bool} {reply : Option (Reply V)}
    (h : sessEvent P fuel s e = some (alive, s', reply)) :
    Follows P.lstack.length s .idle s' (s'.ledger .idle) := by
  cases e with
  | top =>
    cases h
    exact Follows.refl s .idle
  | callback j =>
    rcases Option.bind_eq_some_iff.mp h with ⟨cb, hcb, h⟩
    rcases Option.bind_eq_some_iff.mp h with ⟨⟨r, s₁⟩, hcall, h⟩
    cases h
    have hmem : cb ∈ P.cb := List.mem_of_getElem? hcb
    exact handleCallback_follows (P.cb_index cb hmem) hcall
  | generate =>
    unfold sessEvent at h
    by_cases hguard : s.pollstate ∧ s.pendingLen < s.pending.length
    · rw [if_pos hguard] at h
      rcases Option.bind_eq_some_iff.mp h with ⟨⟨r, s₁⟩, hgen, h⟩
      cases h
      exact generateTrial_follows hguard.1 hguard.2 hgen
    · rw [if_neg hguard] at h
      cases h
  | mesg srcId req =>
    rcases Option.bind_eq_some_iff.mp h with ⟨⟨live, s₁, r⟩, hmesg, h⟩
    cases h
    rcases Option.bind_eq_some_iff.mp hmesg with ⟨⟨r', cfg⟩, -, hmesg⟩
    rcases Option.bind_eq_some_iff.mp hmesg with ⟨⟨r'', s₂, reply'⟩, hreq, hmesg⟩
    have hhandled : Follows P.lstack.length s .idle s₂ (s₂.ledger .idle) :=
      handleRequest_follows (s := { s with world := { s.world with cfg := cfg } }) hreq
    by_cases hr : r'' ≠ 0
    · simp only [if_pos hr] at hmesg
      cases hmesg
      exact hhandled
    · simp only [if_neg hr] at hmesg
      rcases Option.bind_eq_some_iff.mp hmesg with ⟨⟨r₃, cfg'⟩, -, hmesg⟩
      cases hmesg
      exact hhandled

/-- The trace of a reachable session is a run of the ledger to the view of the session. -/
theorem reachable_run [Top W] {alive : Bool} (h : Reachable P alive s) :
    ∃ cap, 0 < cap ∧ (Ledger.initial cap).Run P.lstack.length s.trace (s.ledger .idle) := by
  induction h with
  | @init s hinit =>
    have hids : s.ids = List.replicate s.pending.length (-1) := by
      rw [List.eq_replicate_iff, ids_length]
      refine ⟨rfl, fun id hid => ?_⟩
      rcases List.mem_map.mp hid with ⟨trial, htrial, rfl⟩
      exact hinit.pending trial htrial
    refine ⟨s.pending.length, hinit.room, ?_⟩
    have hview : s.ledger .idle = Ledger.initial s.pending.length := by
      unfold Sess.ledger Ledger.initial
      rw [hids, hinit.ready, hinit.pendingLen, hinit.readyHead, hinit.readyTail, hinit.wait,
        hinit.pollstate]
    rw [hinit.trace, hview]
    exact .nil
  | step _ hevent ih =>
    rcases ih with ⟨cap, hcap, hrun⟩
    rcases sessEvent_follows hevent with ⟨acts, htrace, hrun'⟩
    exact ⟨cap, hcap, by rw [htrace]; exact hrun.trans hrun'⟩

end ActiveHarmony

import ActiveHarmony.Session.Custody

/-!
# Conservation of trials

In a session whose plug-ins and clients answer as `Sound` and `Lossless` say, every slot in use is
held exactly once. A layer that rejects a trial while the strategy has no other point for it makes
the session lose the slot: `workflow_transition` stops and nothing holds the trial any more.
-/

namespace ActiveHarmony

variable {σ V W : Type} {P : Plugins σ V W} {s : Sess σ V W} {alive : Bool}

/-- The number of places that hold slot `i`: cells of the ready ring, cells of wait lists, and
clients that fetched it. -/
def Sess.holders (n : ℕ) (s : Sess σ V W) (i : ℕ) : ℕ :=
  s.ready.count (i : ℤ) + ∑ c ∈ layers n, (s.wait c).cells.count (i : ℤ)
    + (clientSlots s.trace).count i

/-- Every slot in use is held once, and `pending_len` counts the slots in use. -/
def Sess.Conserved (n : ℕ) (s : Sess σ V W) : Prop :=
  (∀ i trial, s.pending[i]? = some trial → trial.point.id ≠ -1 → s.holders n i = 1) ∧
    s.pendingLen = s.pending.countP (·.point.id ≠ -1)

/-- No trial is lost or held twice. -/
theorem reachable_conserved [Top W] (h : Reachable P alive s)
    (hok : Along (fun pre a => Sound pre a ∧ Lossless pre a) s.trace) :
    s.Conserved P.lstack.length := by
  have hsound : Along Sound s.trace := hok.mono fun _ _ ha => ha.1
  have hlossless : Along Lossless s.trace := hok.mono fun _ _ ha => ha.2
  rcases h.accounted hsound with ⟨q, lost, haccounted, hlost⟩
  obtain rfl := hlost hlossless
  have hcustody := haccounted.custody
  constructor
  · intro i trial htrial hid
    have honce := hcustody.once i
    have hused : used s.ids i = 1 := by rw [used_of_getElem? (ids_getElem? htrial), if_neg hid]
    have hheld : held P.lstack.length s.ready s.wait (clientSlots s.trace) i
        = used s.ids i := by
      rw [← show used (s.ledger .idle).ids i = used s.ids i from rfl, ← honce]
      rfl
    rw [hused] at hheld
    exact hheld
  · have hlen := hcustody.len
    unfold usedCount Sess.ledger Sess.ids at hlen
    rw [List.countP_map] at hlen
    exact hlen

/-- A trial that waited for a callback ends up in the ready ring, and nowhere else. -/
theorem delayed_trial_conserved :
    ∃ s, Reachable delaying true s ∧ s.trace = [.generate 0 [-1] 0 .accept 1,
      .layer 1 0 0 .wait, .callback 1 0 0 .accept, .enqueue 0] ∧ s.Conserved 1 := by
  have hrun : (sessRun delaying 5 (Sess.start { plug := (), cfg := hcfgAlloc, errmsg := none } 1)
      [.generate, .callback 0]).map Sess.trace = some [.generate 0 [-1] 0 .accept 1,
        .layer 1 0 0 .wait, .callback 1 0 0 .accept, .enqueue 0] := by decide +kernel
  rcases Option.map_eq_some_iff.mp hrun with ⟨s, hrun, htrace⟩
  have hreach : Reachable delaying true s :=
    (Reachable.init (Sess.start_initial _ (by decide))).run hrun
  refine ⟨s, hreach, htrace, reachable_conserved (P := delaying) hreach ?_⟩
  rw [htrace]
  refine Along.concat (Along.concat (Along.concat (Along.concat Along.nil ?_) ?_) ?_) ?_
  · exact ⟨by simp [Sound], trivial⟩
  · exact ⟨trivial, by simp [Lossless]⟩
  · exact ⟨by simp [Sound], trivial⟩
  · exact ⟨trivial, trivial⟩

/-! ## A lost trial -/

/-- The answers that a session may get: no call fails, and every status is legal. -/
def Act.Legal : Act → Prop
  | .generate _ _ ret st _ => ret = 0 ∧ (st = .accept ∨ st = .wait)
  | .rejected _ _ ret st _ => ret = 0 ∧ (st = .accept ∨ st = .wait)
  | .layer _ _ ret st => ret = 0 ∧ st ≠ .unknown
  | .callback _ _ _ st => st ≠ .unknown
  | .analyzed _ ret => ret = 0
  | _ => True

/-- A layer that rejects every point, and a strategy that has no other point to offer. -/
def rejecting : Plugins Unit ℤ Unit where
  strategyGenerate := fun w flow _ => (0, w, { flow with status := .accept }, { id := 1, val := [] })
  strategyRejected := fun w flow pt => (0, w, { flow with status := .wait }, pt)
  strategyAnalyze := fun w _ => (0, w)
  strategyBest := fun w pt => (0, w, pt)
  strategyInit := none
  lstack := [{
    generate := some fun w flow trial => (0, w, { flow with status := .reject }, trial.perf)
    analyze := none
    init := none
    fini := none }]
  cb := []
  cb_index := by simp

/-- The slot of the rejected point is held by nobody. -/
theorem rejected_trial_lost :
    ¬ ∀ (s : Sess Unit ℤ Unit) (alive : Bool), Reachable rejecting alive s →
      (∀ a ∈ s.trace, a.Legal) → s.Conserved 1 := by
  intro h
  have hrun : (sessRun rejecting 5 (Sess.start { plug := (), cfg := hcfgAlloc, errmsg := none } 1)
      [.generate]).map (fun s => (s.trace, s.ids, s.ready, (s.wait 1).cells, (s.wait (-1)).cells))
        = some ([.generate 0 [-1] 0 .accept 1, .layer 1 0 0 .reject, .rejected 0 [1] 0 .wait 1],
          [1], [-1], [], []) := by decide +kernel
  rcases Option.map_eq_some_iff.mp hrun with ⟨s, hrun, hview⟩
  simp only [Prod.mk.injEq] at hview
  rcases hview with ⟨htrace, hids, hready, hgenerate, hanalyze⟩
  have hreach : Reachable rejecting true s :=
    (Reachable.init (Sess.start_initial _ (by decide))).run hrun
  have hconserved := (h s true hreach (by rw [htrace]; simp [Act.Legal])).1
  have hslot : s.ids[0]? = some 1 := by rw [hids]; rfl
  unfold Sess.ids at hslot
  rw [List.getElem?_map] at hslot
  rcases Option.map_eq_some_iff.mp hslot with ⟨trial, htrial, hid⟩
  have hone := hconserved 0 trial htrial (by rw [hid]; decide)
  unfold Sess.holders at hone
  have hlayers : layers 1 = {-1, 1} := by decide
  rw [hready, htrace, hlayers, Finset.sum_pair (by decide), hgenerate, hanalyze] at hone
  simp [clientSlots, clientStep] at hone

end ActiveHarmony

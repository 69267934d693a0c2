import ActiveHarmony.Session.Custody
import ActiveHarmony.Session.Workflow

/-!
# Callbacks that fail

`handle_callback` uses the value of a callback as an index into the wait list, whatever it is. The function
`handleCallbackAt` has the memory around the wait list in `outside`. `callback_error_iff` says when a callback
that fails leaves the session as it was.
-/

namespace ActiveHarmony

variable {σ V W : Type}

/-- `list[i]`. -/
def WaitList.at (l : WaitList) (outside : ℤ → ℤ) (i : ℤ) : ℤ :=
  if 0 ≤ i ∧ i < l.cells.length then (l.cells[i.toNat]?).getD (-1) else outside i

/-- Take the trial at `idx` off a wait list, as `WaitList.remove`, where `idx` can be any value. -/
def WaitList.removeAt (l : WaitList) (outside : ℤ → ℤ) (idx : ℤ) : WaitList × (ℤ → ℤ) :=
  let len := l.len - 1
  if 0 ≤ idx ∧ idx < l.cells.length then (l.remove idx.toNat, outside)
  else ({ cells := l.cells.set len (-1), len := len }, Function.update outside idx (l.at outside len))

/-- What `handle_callback` returns and leaves behind. `reads` are the cells of the wait list that it looked
at. -/
structure CallbackResult (σ V W : Type) where
  ret : ℤ
  sess : Sess σ V W
  outside : ℤ → ℤ
  reads : List ℤ

variable (P : Plugins σ V W)

/-- `handle_callback`, for any value of the callback. It is `none` also where the cell that it reads is no
trial. -/
def handleCallbackAt (outside : ℤ → ℤ) (fuel : ℕ) (s : Sess σ V W) (cb : Callback σ V W) :
    Option (CallbackResult σ V W) :=
  let s := { s with currLayer := cb.index }
  let l := s.wait s.currLayer
  if l.len < 1 then some { ret := -1, sess := s.raise .emptyWaitlist, outside := outside, reads := [] }
  else do
    let trialList ← waitingTrials s l
    let (idx, world, flow, perfs) := cb.func s.world s.flow trialList
    let trialIdx := l.at outside idx
    let reads := (List.range l.len).map Int.ofNat ++ [idx]
    if trialIdx < 0 then none
    else
      let pending := setPerfs s.pending ((l.cells.take l.len).zip perfs)
      let s := ({ s with world := world, flow := flow, pending := pending }).log
        (.callback cb.index idx.toNat trialIdx.toNat flow.status)
      let (retval, s) ← workflowTransition P s trialIdx.toNat
      if retval < 0 then some { ret := -1, sess := s, outside := outside, reads := reads }
      else if retval > 0 then some { ret := 0, sess := s, outside := outside, reads := reads }
      else
        let (l, outside) := (s.wait cb.index).removeAt outside idx
        let s := { s with wait := Function.update s.wait cb.index l }
        let (ret, s) ← pluginWorkflow P fuel s trialIdx.toNat
        some { ret := ret, sess := s, outside := outside, reads := reads ++ [(l.len : ℤ)] }

/-- `handle_callback` returns an error, leaves the wait list, the slots and the ready ring as they were, and
looks at cells of the wait list only. -/
def CallbackAtomic (outside : ℤ → ℤ) (fuel : ℕ) (s : Sess σ V W) (cb : Callback σ V W) : Prop :=
  ∃ res, handleCallbackAt P outside fuel s cb = some res ∧ res.ret = -1 ∧
    res.sess.wait cb.index = s.wait cb.index ∧ res.sess.pending = s.pending ∧
    res.sess.pendingLen = s.pendingLen ∧ res.sess.ready = s.ready ∧ res.sess.readyHead = s.readyHead ∧
    res.sess.readyTail = s.readyTail ∧ ∀ i ∈ res.reads, 0 ≤ i ∧ i < (s.wait cb.index).cells.length

variable {P} {s s' : Sess σ V W} {cb : Callback σ V W} {outside : ℤ → ℤ} {fuel : ℕ}

lemma workflowTransition_goesOn {i : ℕ} (h : workflowTransition P s i = some (0, s')) : s'.wait = s.wait := by
  obtain ⟨-, -, rfl⟩ | ⟨-, -, rfl⟩ | ⟨-, hret, -⟩ | ⟨-, r, -, hret⟩ | ⟨-, r, s₁, hrej, hres⟩ :=
    workflowTransition_cases h
  · rfl
  · rfl
  · exact absurd hret (by decide)
  · omega
  · have hsame : s₁.wait = s.wait := by
      obtain ⟨-, -, rfl⟩ | ⟨trial, r', world, flow, point, -, -, -, hres⟩ := handleReject_cases hrej
      · rfl
      · obtain ⟨-, -, rfl⟩ | ⟨-, -, -, rfl⟩ | ⟨-, -, -, rfl⟩ := hres
        all_goals rfl
    obtain ⟨-, -, rfl⟩ | ⟨-, -, -, rfl⟩ | ⟨-, -, -, rfl⟩ := hres
    all_goals exact hsame

/-- For an index into the wait list it is `handle_callback`. -/
theorem handleCallbackAt_inside (hok : (s.wait cb.index).Ok)
    (hinside : ∀ trials, waitingTrials s (s.wait cb.index) = some trials →
      0 ≤ (cb.func s.world s.flow trials).1 ∧ (cb.func s.world s.flow trials).1 < (s.wait cb.index).len) :
    (handleCallbackAt P outside fuel s cb).map (fun res => (res.ret, res.sess))
      = handleCallback P fuel s cb := by
  unfold handleCallbackAt handleCallback
  simp only
  by_cases hempty : (s.wait cb.index).len < 1
  · rw [if_pos hempty, if_pos hempty]
    rfl
  rw [if_neg hempty, if_neg hempty]
  have hsame : waitingTrials { s with currLayer := cb.index } (s.wait cb.index)
      = waitingTrials s (s.wait cb.index) := rfl
  rw [hsame]
  cases htrials : waitingTrials s (s.wait cb.index) with
  | none => rfl
  | some trials =>
    obtain ⟨hnonneg, hlt⟩ := hinside trials htrials
    obtain ⟨i, hi⟩ := hok.slot (cb.func s.world s.flow trials).1.toNat (by omega)
    have hbound := hok.len_le
    rcases hcall : cb.func s.world s.flow trials with ⟨idx, world, flow, perfs⟩
    rw [hcall] at hnonneg hlt hi
    dsimp only at hnonneg hlt hi
    have hcell : (s.wait cb.index).at outside idx = (i : ℤ) := by
      unfold WaitList.at
      rw [if_pos ⟨hnonneg, by omega⟩, hi]
      rfl
    simp only [Option.bind_eq_bind, Option.bind_some, hcall]
    rw [hcell, hi, if_neg (by omega), if_neg (by omega), Option.bind_some, Int.toNat_natCast, Option.map_bind]
    apply Option.bind_congr
    rintro ⟨retval, s₁⟩ htrans
    simp only [Function.comp_apply]
    by_cases hfail : retval < 0
    · rw [if_pos hfail, if_pos hfail]
      rfl
    rw [if_neg hfail, if_neg hfail]
    by_cases hstop : retval > 0
    · rw [if_pos hstop, if_pos hstop]
      rfl
    rw [if_neg hstop, if_neg hstop]
    obtain rfl : retval = 0 := by omega
    have hwait : s₁.wait = s.wait := by
      have hkept := workflowTransition_goesOn htrans
      exact hkept
    have hremove : (s₁.wait cb.index).removeAt outside idx
        = ((s₁.wait cb.index).remove idx.toNat, outside) := by
      unfold WaitList.removeAt
      rw [hwait]
      exact if_pos ⟨hnonneg, by omega⟩
    simp only [hremove, Option.map_bind]
    generalize pluginWorkflow P fuel _ i = res
    cases res with
    | none => rfl
    | some res => rfl

/-- The callback is not called. -/
lemma handleCallbackAt_empty (h : (s.wait cb.index).len = 0) : handleCallbackAt P outside fuel s cb =
    some {
      ret := -1
      sess := ({ s with currLayer := cb.index } : Sess σ V W).raise .emptyWaitlist
      outside := outside
      reads := [] } := by
  unfold handleCallbackAt
  simp only
  rw [if_pos (by omega)]

/-- The value of the callback is looked up in the wait list. -/
lemma handleCallbackAt_reads {res : CallbackResult σ V W}
    (h : handleCallbackAt P outside fuel s cb = some res) (hlen : (s.wait cb.index).len ≠ 0) :
    ∃ trials, waitingTrials s (s.wait cb.index) = some trials ∧
      (cb.func s.world s.flow trials).1 ∈ res.reads := by
  unfold handleCallbackAt at h
  simp only at h
  rw [if_neg (by omega)] at h
  obtain ⟨trials, htrials, h⟩ := Option.bind_eq_some_iff.mp h
  refine ⟨trials, htrials, ?_⟩
  split_ifs at h
  obtain ⟨⟨ret, s₁⟩, -, h⟩ := Option.bind_eq_some_iff.mp h
  simp only at h
  split_ifs at h
  · cases h
    simp
  · cases h
    simp
  · obtain ⟨⟨ret', s₂⟩, -, h⟩ := Option.bind_eq_some_iff.mp h
    cases h
    simp

/-- A callback that fails leaves the session as it was exactly if it is not called. -/
theorem callback_error_iff
    (herror : ∀ trials, waitingTrials s (s.wait cb.index) = some trials →
      (cb.func s.world s.flow trials).1 = -1) :
    CallbackAtomic P outside fuel s cb ↔ (s.wait cb.index).len = 0 := by
  constructor
  · rintro ⟨res, hres, -, -, -, -, -, -, -, hreads⟩
    by_contra hlen
    obtain ⟨trials, htrials, hmem⟩ := handleCallbackAt_reads hres hlen
    rw [herror trials htrials] at hmem
    have hinside := (hreads _ hmem).1
    omega
  · intro hlen
    exact ⟨_, handleCallbackAt_empty hlen, rfl, rfl, rfl, rfl, rfl, rfl, rfl, List.forall_mem_nil _⟩

/-- The wait list without its last trial. -/
def WaitList.dropLast (l : WaitList) : WaitList := { cells := l.cells.set (l.len - 1) (-1), len := l.len - 1 }

lemma WaitList.removeAt_front (l : WaitList) : (l.removeAt outside (-1)).1 = l.dropLast := by
  unfold removeAt
  simp only
  rw [if_neg (by omega)]
  rfl

/-- A callback that fails and leaves the status as it is takes the last trial off the wait list, and the
workflow goes on with the trial that the memory in front of the list names. -/
theorem callback_error_drops {trials : List (HTrial V W)} {world : World σ} {flow : Flow V}
    {perfs : List (HPerf W)} (hlen : (s.wait cb.index).len ≠ 0)
    (htrials : waitingTrials s (s.wait cb.index) = some trials)
    (hcall : cb.func s.world s.flow trials = (-1, world, flow, perfs)) (hstatus : flow.status = .accept)
    (hfront : 0 ≤ outside (-1)) :
    ∃ s₁ outside' reads, s₁.wait cb.index = (s.wait cb.index).dropLast ∧
      handleCallbackAt P outside fuel s cb = (pluginWorkflow P fuel s₁ (outside (-1)).toNat).map fun res =>
        { ret := res.1, sess := res.2, outside := outside', reads := reads } := by
  have hcell : (s.wait cb.index).at outside (-1) = outside (-1) := if_neg (by omega)
  refine ⟨{ ({ s with
    world := world
    flow := flow
    pending := setPerfs s.pending (((s.wait cb.index).cells.take (s.wait cb.index).len).zip perfs)
    currLayer := cb.index } : Sess σ V W).log
      (.callback cb.index (-1 : ℤ).toNat (outside (-1)).toNat flow.status) with
    currLayer := cb.index + 1
    wait := Function.update s.wait cb.index ((s.wait cb.index).removeAt outside (-1)).1 },
    ((s.wait cb.index).removeAt outside (-1)).2,
    (List.range (s.wait cb.index).len).map Int.ofNat ++ [-1]
      ++ [(((s.wait cb.index).removeAt outside (-1)).1.len : ℤ)], ?_, ?_⟩
  · simp only [Function.update_self, WaitList.removeAt_front]
  · unfold handleCallbackAt
    have hsame : waitingTrials { s with currLayer := cb.index } (s.wait cb.index) = some trials := htrials
    simp only
    rw [if_neg (by omega), hsame]
    simp only [Option.bind_eq_bind, Option.bind_some, hcall]
    rw [hcell, if_neg (by omega)]
    have haccept := workflowTransition_accept (P := P) (i := (outside (-1)).toNat)
      (s := ({ s with
        world := world
        flow := flow
        pending := setPerfs s.pending (((s.wait cb.index).cells.take (s.wait cb.index).len).zip perfs)
        currLayer := cb.index } : Sess σ V W).log
          (.callback cb.index (-1 : ℤ).toNat (outside (-1)).toNat flow.status)) hstatus
    rw [haccept, Option.bind_some]
    simp only
    rw [if_neg (by decide), if_neg (by decide), Option.map_eq_bind]
    rfl

/-! ### A code server that answers nothing useful -/

/-- A layer whose trials wait, and a callback that finds no trial. -/
def unanswered : Plugins Unit ℤ Unit where
  strategyGenerate := fun w flow _ => (0, w, { flow with status := .accept }, { id := 1, val := [] })
  strategyRejected := fun w flow pt => (0, w, flow, pt)
  strategyAnalyze := fun w _ => (0, w)
  strategyBest := fun w pt => (0, w, pt)
  strategyInit := none
  lstack := [{
    generate := some fun w flow trial => (0, w, { flow with status := .wait }, trial.perf)
    analyze := none
    init := none
    fini := none }]
  cb := [{ index := 1, func := fun w flow trials => (-1, w, flow, trials.map HTrial.perf) }]
  cb_index := by simp

/-- Its callback. -/
def noTrial : Callback Unit ℤ Unit where
  index := 1
  func := fun w flow trials => (-1, w, flow, trials.map HTrial.perf)

lemma noTrial_mem : noTrial ∈ unanswered.cb := List.mem_singleton.mpr rfl

/-- A session with a trial that waits. -/
lemma unanswered_waits : ∃ s, Reachable unanswered true s ∧ (s.wait 1).len = 1 := by
  have hrun : (sessRun unanswered 5 (Sess.start { plug := (), cfg := hcfgAlloc, errmsg := none } 1)
      [.generate]).map (fun s => (s.wait 1).len) = some 1 := by decide +kernel
  obtain ⟨s, hrun, hlen⟩ := Option.map_eq_some_iff.mp hrun
  exact ⟨s, (Reachable.init (Sess.start_initial _ (by decide))).run hrun, hlen⟩

/-- The callback of a session without waiting trials is not called. -/
theorem callback_error_start : CallbackAtomic unanswered (fun _ => 0) 5
    (Sess.start { plug := (), cfg := hcfgAlloc, errmsg := none } 1) noTrial ↔
    ((Sess.start { plug := (), cfg := hcfgAlloc, errmsg := none } 1 : Sess Unit ℤ Unit).wait 1).len = 0 :=
  callback_error_iff fun _ _ => rfl

/-- The cell in front of the wait list is read. -/
theorem callback_error_reads_front :
    ¬ ∀ (s : Sess Unit ℤ Unit) (cb : Callback Unit ℤ Unit) (outside : ℤ → ℤ) (fuel : ℕ),
      Reachable unanswered true s → cb ∈ unanswered.cb →
      (∀ trials, (cb.func s.world s.flow trials).1 = -1) → CallbackAtomic unanswered outside fuel s cb := by
  intro hclaim
  obtain ⟨s, hreach, hlen⟩ := unanswered_waits
  obtain ⟨res, hres, -, -, -, -, -, -, -, hreads⟩ :=
    hclaim s noTrial (fun _ => 0) 5 hreach noTrial_mem fun _ => rfl
  obtain ⟨trials, -, hmem⟩ := handleCallbackAt_reads hres (by
    show (s.wait 1).len ≠ 0
    omega)
  have hinside := (hreads _ hmem).1
  have hvalue : (noTrial.func s.world s.flow trials).1 = -1 := rfl
  omega

end ActiveHarmony

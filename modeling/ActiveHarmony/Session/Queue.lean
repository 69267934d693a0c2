import ActiveHarmony.Session.Custody

/-!
# The ready queue

With a strategy that gives every point an id of its own, and clients that report what they
fetched, the ready ring is a queue: trials are fetched in the order in which they left the layers,
and no array of the core overflows, whatever the layers answer.

`Owned` adds to the books of `Custody` that ids name slots. It turns the contract, which speaks of
the ids that clients see, into `Sound`, which speaks of slots.
-/

namespace ActiveHarmony

/-! ## The contract -/

/-- A point got the id `id`, which no slot but `i` has. -/
def FreshId (i : ℕ) (ids : List ℤ) (id : ℤ) : Prop := 0 ≤ id ∧ ∀ j ≠ i, ids[j]? ≠ some id

/-- The strategy gave slot `i` a fresh id, or it gave no point and left the id as it was. -/
def Gives (i : ℕ) (ids : List ℤ) (ret : ℤ) (st : FlowStatus) (id : ℤ) : Prop :=
  if ret = 0 ∧ st ≠ .wait then FreshId i ids id else ids[i]? = some id

/-- What an act does to the ids that clients owe a report for. -/
def owedStep (ids : List ℤ) : Act → List ℤ
  | .deliver _ id => id :: ids
  | .report id _ => ids.erase id
  | _ => ids

/-- The ids that clients have fetched and not reported since. -/
def owed (trace : List Act) : List ℤ := trace.foldl owedStep []

/-- The strategy gives every accepted or regenerated point an id of its own, clients report each
fetched id at most once, and callbacks answer ACCEPT, RETURN or RETRY. -/
def Contract (pre : List Act) : Act → Prop
  | .generate i ids ret st id => Gives i ids ret st id
  | .rejected i ids ret st id => Gives i ids ret st id
  | .callback _ _ _ st => st = .accept ∨ st = .ret ∨ st = .retry
  | .report id (some _) => id ∈ owed pre
  | _ => True

/-! ## Ids name slots -/

/-- Different slots have different ids, and clients owe the ids of the slots they hold. -/
structure Owned (trace : List Act) (ids : List ℤ) : Prop where
  distinct : ∀ (i j : ℕ) (id : ℤ), ids[i]? = some id → ids[j]? = some id → id ≠ -1 → i = j
  nodup : (owed trace).Nodup
  mem_iff : ∀ id, id ∈ owed trace ↔ ∃ i ∈ clientSlots trace, ids[i]? = some id

variable {pre trace : List Act} {a : Act} {n i : ℕ} {ids : List ℤ} {L L' : Ledger} {q : List ℤ}
  {lost : List ℕ} {id : ℤ}

@[simp] lemma owed_concat : owed (pre ++ [a]) = owedStep (owed pre) a := by
  unfold owed
  rw [List.foldl_append]
  rfl

/-- A slot with a point in it is in use. -/
lemma Accounted.client_used (h : Accounted n trace L q lost) (hi : i ∈ clientSlots trace) :
    used L.ids i = 1 ∧ L.ring.count (i : ℤ) = 0 ∧ L.ctl.moving i = 0 ∧
      (clientSlots trace).count i = 1 := by
  have honce := h.custody.once i
  have hpos := List.count_pos_iff.mpr hi
  have := used_le_one L.ids i
  unfold held at honce
  omega

/-- Acts that say nothing about clients, with the ids as they were. -/
lemma Owned.quiet (h : Owned trace ids) (howed : owedStep (owed trace) a = owed trace)
    (hclients : clientStep (clientSlots trace) a = clientSlots trace) :
    Owned (trace ++ [a]) ids := by
  refine ⟨h.distinct, ?_, fun id => ?_⟩
  · rw [owed_concat, howed]
    exact h.nodup
  · rw [owed_concat, clientSlots_concat, howed, hclients]
    exact h.mem_iff id

/-- A slot that no client holds gets a fresh id, or becomes free. -/
lemma Owned.set (h : Owned trace ids) (hi : i ∉ clientSlots trace)
    (hfresh : id ≠ -1 → ∀ j ≠ i, ids[j]? ≠ some id) : Owned trace (ids.set i id) := by
  refine ⟨fun j k id' hj hk hne => ?_, h.nodup, fun id' => ?_⟩
  · rw [List.getElem?_set] at hj hk
    by_cases hij : i = j
    · by_cases hik : i = k
      · omega
      · rw [if_neg hik] at hk
        rw [if_pos hij] at hj
        split_ifs at hj
        obtain rfl := Option.some.inj hj
        exact absurd hk (hfresh hne k fun hki => hik hki.symm)
    · rw [if_neg hij] at hj
      by_cases hik : i = k
      · rw [if_pos hik] at hk
        split_ifs at hk
        obtain rfl := Option.some.inj hk
        exact absurd hj (hfresh hne j fun hji => hij hji.symm)
      · rw [if_neg hik] at hk
        exact h.distinct j k id' hj hk hne
  · -- the ids of the slots that clients hold stay as they are
    have hsame : ∀ j ∈ clientSlots trace, (ids.set i id)[j]? = ids[j]? := by
      intro j hj
      apply List.getElem?_set_ne
      intro hij
      rw [hij] at hi
      exact hi hj
    rw [h.mem_iff id']
    constructor
    · intro hex
      rcases hex with ⟨j, hj, hid⟩
      exact ⟨j, hj, by rw [hsame j hj]; exact hid⟩
    · intro hex
      rcases hex with ⟨j, hj, hid⟩
      exact ⟨j, hj, by rw [← hsame j hj]; exact hid⟩

lemma Owned.deliver (h : Owned trace ids) (hid : ids[i]? = some id) (hne : id ≠ -1)
    (hi : i ∉ clientSlots trace) : Owned (trace ++ [.deliver i id]) ids := by
  refine ⟨h.distinct, ?_, fun id' => ?_⟩
  · rw [owed_concat]
    refine List.nodup_cons.mpr ⟨fun hmem => ?_, h.nodup⟩
    rcases (h.mem_iff id).mp hmem with ⟨j, hj, hjd⟩
    obtain rfl := h.distinct i j id hid hjd hne
    exact hi hj
  · rw [owed_concat, clientSlots_concat]
    simp only [owedStep, clientStep, List.mem_cons, h.mem_iff id']
    constructor
    · intro hor
      rcases hor with rfl | ⟨j, hj, hjd⟩
      · exact ⟨i, Or.inl rfl, hid⟩
      · exact ⟨j, Or.inr hj, hjd⟩
    · intro hex
      rcases hex with ⟨j, rfl | hj, hjd⟩
      · exact Or.inl (Option.some.inj (hjd.symm.trans hid))
      · exact Or.inr ⟨j, hj, hjd⟩

lemma Owned.report (h : Owned trace ids) (hnodup : (clientSlots trace).Nodup)
    (hid : ids[i]? = some id) (hne : id ≠ -1) :
    Owned (trace ++ [.report id (some i)]) ids := by
  refine ⟨h.distinct, ?_, fun id' => ?_⟩
  · rw [owed_concat]
    exact h.nodup.erase id
  · rw [owed_concat, clientSlots_concat]
    simp only [owedStep, clientStep, h.nodup.mem_erase_iff, hnodup.mem_erase_iff, h.mem_iff id']
    constructor
    · intro hand
      rcases hand with ⟨hdiff, j, hj, hjd⟩
      refine ⟨j, ⟨?_, hj⟩, hjd⟩
      rintro rfl
      exact hdiff (Option.some.inj (hjd.symm.trans hid))
    · intro hex
      rcases hex with ⟨j, ⟨hdiff, hj⟩, hjd⟩
      refine ⟨?_, j, hj, hjd⟩
      rintro rfl
      exact hdiff (h.distinct j i id' hjd hid hne)

lemma Owned.reportNone (h : Owned trace ids) (hnone : ∀ x ∈ ids, x ≠ id) :
    Owned (trace ++ [.report id none]) ids := by
  refine h.quiet ?_ rfl
  refine List.erase_of_not_mem fun hmem => ?_
  rcases (h.mem_iff id).mp hmem with ⟨j, _, hjd⟩
  exact hnone id (List.mem_of_getElem? hjd) rfl

/-! ## The contract keeps the books -/

lemma Accounted.clients_nodup (h : Accounted n trace L q lost) : (clientSlots trace).Nodup := by
  rw [List.nodup_iff_count_le_one]
  intro i
  by_cases hi : i ∈ clientSlots trace
  · rw [(h.client_used hi).2.2.2]
  · rw [List.count_eq_zero_of_not_mem hi]
    exact Nat.zero_le 1

/-- A slot that is free, or being moved, or in a wait list, is held by no client. -/
lemma Accounted.not_client_of_free (h : Accounted n trace L q lost)
    (hfree : L.ids[i]? = some (-1)) : i ∉ clientSlots trace := by
  intro hi
  have hused := (h.client_used hi).1
  rw [used_of_getElem? hfree] at hused
  exact absurd hused (by decide)

lemma Accounted.not_client_of_moving (h : Accounted n trace L q lost)
    (hmove : L.ctl.moving i = 1) : i ∉ clientSlots trace := by
  intro hi
  have := (h.client_used hi).2.2.1
  omega

lemma Accounted.not_client_of_answer (h : Accounted n trace L q lost) {c : ℤ} {st : FlowStatus}
    {pos : Option ℕ} (hctl : L.ctl = .trans i c st pos) : i ∉ clientSlots trace := by
  cases pos with
  | none => exact h.not_client_of_moving (by rw [hctl]; exact if_pos rfl)
  | some p =>
    intro hi
    have hans := h.answered
    unfold Ledger.Answered at hans
    rw [hctl] at hans
    have hpos := List.count_pos_iff.mpr (List.mem_of_getElem? hans.2.2.2)
    have hle := count_le_waiting L.wait hans.1 i
    have honce := h.custody.once i
    have := used_le_one L.ids i
    have := (h.client_used hi).2.2.2
    unfold held at honce
    omega

lemma Gives.stays {ret : ℤ} {st : FlowStatus} (h : Gives i ids ret st id)
    (hno : ¬ (ret = 0 ∧ st ≠ .wait)) : ids[i]? = some id := by
  unfold Gives at h
  rwa [if_neg hno] at h

/-- An answer without a point changes no id. -/
lemma Gives.ids_eq {ret : ℤ} {st : FlowStatus} (h : Gives i ids ret st id)
    (hno : ¬ (ret = 0 ∧ st ≠ .wait)) : ids.set i id = ids := by
  rcases List.getElem?_eq_some_iff.mp (h.stays hno) with ⟨hi, heq⟩
  rw [← heq]
  exact List.set_getElem_self hi

lemma Gives.fresh {ret : ℤ} {st : FlowStatus} (h : Gives i ids ret st id)
    (hyes : ret = 0 ∧ st ≠ .wait) : FreshId i ids id := by
  unfold Gives at h
  rwa [if_pos hyes] at h

lemma found_id (hi : i = ids.findIdx (· = id)) (hlt : i < ids.length) : ids[i]? = some id := by
  subst hi
  have hp := List.findIdx_getElem (p := fun x : ℤ => decide (x = id)) (w := hlt)
  rw [List.getElem?_eq_getElem hlt, of_decide_eq_true hp]

/-- Clients owe the ids of slots in use. -/
lemma Accounted.owed_ne (h : Accounted n trace L q lost) (howned : Owned trace L.ids)
    (hmem : id ∈ owed trace) : id ≠ -1 := by
  rcases (howned.mem_iff id).mp hmem with ⟨i, hi, hid⟩
  have hused := (h.client_used hi).1
  rw [used_of_getElem? hid] at hused
  rintro rfl
  exact absurd hused (by decide)

/-- Under the contract, every act is sound. -/
theorem Ledger.Step.sound {as : List Act} (hstep : L.Step n as L') (h : Accounted n pre L q lost)
    (howned : Owned pre L.ids) (hsound : Along Sound pre) (hok : Along Contract (pre ++ as)) :
    Along Sound (pre ++ as) := by
  cases hstep with
  | @generateFail i ret id st hidle hfree hret =>
    have hgives := Gives.stays hok.last fun hyes => hret hyes.1
    obtain rfl : -1 = id := Option.some.inj (hfree.symm.trans hgives)
    exact hsound.concat ⟨fun hyes => absurd hyes.1 hret, fun hne => absurd rfl hne⟩
  | @generateWait i id hidle hfree =>
    have hgives := Gives.stays hok.last fun hyes => hyes.2 rfl
    obtain rfl : -1 = id := Option.some.inj (hfree.symm.trans hgives)
    exact hsound.concat ⟨fun hyes => absurd rfl hyes.2, fun hne => absurd rfl hne⟩
  | @generateGo i id st hidle hfree hst =>
    have hfresh := Gives.fresh hok.last ⟨rfl, hst⟩
    exact hsound.concat ⟨fun _ hid => absurd (hid ▸ hfresh.1) (by decide), fun _ => ⟨rfl, hst⟩⟩
  | @callback c p cell st hidle hc hp hcell =>
    refine hsound.concat ?_
    have hst := hok.last
    rintro rfl
    exact absurd hst (by simp [Contract])
  | rejectedFail hctl hneg hi hret =>
    have hused := h.custody.used_of_answer hctl h.answered
    have hgives := Gives.stays hok.last fun hyes => hret hyes.1
    refine hsound.concat fun hid => ?_
    rw [used_of_getElem? hgives, if_pos hid] at hused
    exact absurd hused (by decide)
  | rejectedWait hctl hneg hi =>
    have hused := h.custody.used_of_answer hctl h.answered
    have hgives := Gives.stays hok.last fun hyes => hyes.2 rfl
    refine hsound.concat fun hid => ?_
    rw [used_of_getElem? hgives, if_pos hid] at hused
    exact absurd hused (by decide)
  | rejectedGo hctl hneg hi hst =>
    have hfresh := Gives.fresh hok.last ⟨rfl, hst⟩
    exact hsound.concat fun hid => absurd (hid ▸ hfresh.1) (by decide)
  | @report id i hidle hi hlt =>
    -- the slot that was found is the slot whose id is owed
    rcases (howned.mem_iff id).mp hok.last with ⟨j, hj, hjd⟩
    obtain rfl := howned.distinct i j id (found_id hi hlt) hjd (h.owed_ne howned hok.last)
    exact hsound.concat hj
  | accept | turn | wait => rwa [List.append_nil]
  | pointOverflow | layerFail | layer | emptyWaitlist | waitAppend | unknown | rejectInAnalysis
  | analyzedFail | analyzed | enqueue | readyOverflow | deliver | busy | reportNone
  | rougePoint | init => exact hsound.concat trivial

/-- Under the contract, ids keep naming slots. -/
theorem Ledger.Step.owned {as : List Act} (hstep : L.Step n as L') (h : Accounted n pre L q lost)
    (howned : Owned pre L.ids) (hok : Along Contract (pre ++ as)) :
    Owned (pre ++ as) L'.ids := by
  cases hstep with
  | @generateFail i ret id st hidle hfree hret =>
    have hsame := Gives.ids_eq hok.last fun hyes => hret hyes.1
    show Owned _ (L.ids.set i id)
    rw [hsame]
    exact howned.quiet rfl rfl
  | @generateWait i id hidle hfree =>
    have hsame := Gives.ids_eq hok.last fun hyes => hyes.2 rfl
    show Owned _ (L.ids.set i id)
    rw [hsame]
    exact howned.quiet rfl rfl
  | @generateGo i id st hidle hfree hst =>
    have hfresh := Gives.fresh hok.last ⟨rfl, hst⟩
    exact (howned.set (h.not_client_of_free hfree) fun _ => hfresh.2).quiet rfl rfl
  | @rejectedFail i c ret id st pos hctl hneg hi hret =>
    have hsame := Gives.ids_eq hok.last fun hyes => hret hyes.1
    show Owned _ (L.ids.set i id)
    rw [hsame]
    exact howned.quiet rfl rfl
  | @rejectedWait i c id pos hctl hneg hi =>
    have hsame := Gives.ids_eq hok.last fun hyes => hyes.2 rfl
    show Owned _ (L.ids.set i id)
    rw [hsame]
    exact howned.quiet rfl rfl
  | @rejectedGo i c id st pos hctl hneg hi hst =>
    have hfresh := Gives.fresh hok.last ⟨rfl, hst⟩
    exact (howned.set (h.not_client_of_answer hctl) fun _ => hfresh.2).quiet rfl rfl
  | @analyzed i hctl hi =>
    have hnot := h.not_client_of_moving (i := i) (by rw [hctl]; exact if_pos rfl)
    exact (howned.set hnot fun hne => absurd rfl hne).quiet rfl rfl
  | @deliver idx id hidle hidx hpos hid =>
    rcases h.custody.deliver hidx hpos with ⟨q', rfl, -⟩
    rcases h.custody.slots idx List.mem_cons_self with ⟨i, rfl⟩
    -- the slot is in the ring, so it is in use and no client holds it
    have hring := List.count_pos_iff.mpr (List.mem_of_getElem? hidx)
    have hnot : i ∉ clientSlots pre := fun hi => by
      have := (h.client_used hi).2.1
      omega
    have honce := h.custody.once i
    unfold held at honce
    rw [Int.toNat_natCast] at hid ⊢
    refine howned.deliver hid (fun hne => ?_) hnot
    rw [used_of_getElem? hid, if_pos hne] at honce
    omega
  | @report id i hidle hi hlt =>
    exact howned.report h.clients_nodup (found_id hi hlt) (h.owed_ne howned hok.last)
  | reportNone hidle hnone => exact howned.reportNone hnone
  | accept | turn | wait => rwa [List.append_nil]
  | pointOverflow | layerFail | layer | callback | emptyWaitlist | waitAppend | unknown
  | rejectInAnalysis | analyzedFail | enqueue | readyOverflow | busy | rougePoint | init =>
    exact howned.quiet rfl rfl

lemma owned_initial (cap : ℕ) : Owned [] (Ledger.initial cap).ids where
  distinct := by
    intro i j id hi _ hne
    exact absurd (List.eq_of_mem_replicate (List.mem_of_getElem? hi)) hne
  nodup := List.nodup_nil
  mem_iff := by simp [owed]

variable {σ V W : Type} {P : Plugins σ V W} {s : Sess σ V W} {alive : Bool}

/-- The books of a reachable session, under the contract. -/
theorem Reachable.owned [Top W] (h : Reachable P alive s) (hok : Along Contract s.trace) :
    (∃ q lost, Accounted P.lstack.length s.trace (s.ledger .idle) q lost) ∧
      Owned s.trace s.ids ∧ Along Sound s.trace := by
  rcases reachable_run h with ⟨cap, hcap, hrun⟩
  refine Ledger.Run.invariant
    (I := fun trace L => (∃ q lost, Accounted P.lstack.length trace L q lost) ∧
      Owned trace L.ids ∧ Along Sound trace) ?_ ?_ hrun hok
  · exact ⟨⟨[], [], accounted_initial hcap⟩, owned_initial cap, Along.nil⟩
  · intro pre as L L' hI hstep hok
    rcases hI with ⟨⟨q, lost, haccounted⟩, howned, hsound⟩
    have hsound' := hstep.sound haccounted howned hsound hok
    rcases hstep.accounted haccounted hsound' with ⟨q', lost', haccounted', -⟩
    exact ⟨⟨q', lost', haccounted'⟩, hstep.owned haccounted howned hok, hsound'⟩

/-- A trial that waits for a callback, is fetched, reported and analyzed. -/
def delayedTrace : List Act :=
  [.generate 0 [-1] 0 .accept 1, .layer 1 0 0 .wait, .callback 1 0 0 .accept, .enqueue 0,
    .deliver 0 1, .report 1 (some 0), .layer (-1) 0 0 .accept, .analyzed 0 0]

lemma delayed_run : ∃ s, Reachable delaying true s ∧ s.trace = delayedTrace := by
  have hrun : (sessRun delaying 5 (Sess.start { plug := (), cfg := hcfgAlloc, errmsg := none } 1)
      [.generate, .callback 0, .mesg none .fetch, .mesg none (.report 1 { p := [] })]).map Sess.trace
        = some delayedTrace := by decide +kernel
  rcases Option.map_eq_some_iff.mp hrun with ⟨s, hrun, htrace⟩
  exact ⟨s, (Reachable.init (Sess.start_initial _ (by decide))).run hrun, htrace⟩

lemma delayed_contract : Along Contract delayedTrace := by
  have hfresh : FreshId 0 [-1] 1 := by
    refine ⟨by decide, fun j hj => ?_⟩
    rw [List.getElem?_eq_none (by simp; omega)]
    simp
  refine Along.concat (Along.concat (Along.concat (Along.concat (Along.concat (Along.concat
    (Along.concat (Along.concat Along.nil ?_) ?_) ?_) ?_) ?_) ?_) ?_) ?_
  · simpa [Contract, Gives] using hfresh
  · trivial
  · simp [Contract]
  · trivial
  · trivial
  · simp [Contract, owed, owedStep]
  · trivial
  · trivial

end ActiveHarmony

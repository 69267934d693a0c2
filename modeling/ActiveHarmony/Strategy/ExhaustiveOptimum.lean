import ActiveHarmony.Session.AskTell
import ActiveHarmony.Strategy.ExhaustiveGrid

/-!
# What exhaustive search finds

A session with the strategy `exhaustive.c` and without layers. `exhaustive_finds_optimum` says that it knows a
best point of the grid as soon as the points of the first pass have been reported, whoever fetches and reports
them and in which order.
-/

namespace ActiveHarmony

variable {K W : Type} [Field K] [LinearOrder K] [FloorSemiring K]

/-! ## Searches -/

/-- The point is one of those that `p` passes over the grid generate. -/
def Numbered (ranges : List (HRange K)) (p : ℕ) (point : HPoint K) : Prop :=
  ∃ k < p * spaceSize ranges, point.id = k + 1 ∧ (grid ranges)[k % (grid ranges).length]? = some point.val

variable {ranges : List (HRange K)} {p : ℕ} {point : HPoint K}

omit [LinearOrder K] [FloorSemiring K] [Field K] in
lemma hpointCopy_of_ne {V : Type} {point : HPoint V} (h : point.id ≠ -1) : hpointCopy point = point := if_neg h

lemma Numbered.id_ne (h : Numbered ranges p point) : point.id ≠ -1 := by
  obtain ⟨k, -, hid, -⟩ := h
  omega

lemma Numbered.copy (h : Numbered ranges p point) : hpointCopy point = point := hpointCopy_of_ne h.id_ne

lemma Numbered.mem_grid (h : Numbered ranges p point) : point.val ∈ grid ranges := by
  obtain ⟨k, -, -, hval⟩ := h
  exact List.mem_of_getElem? hval

variable [Add W] [Zero W] [LinearOrder W] [OrderTop W] {nextafter : K → K}
  {pointOf : Bytes → Option (List (HVal K) × List ℕ)} {sig : HSignature K}

/-- The performance of the trial is the one that `f` has at its point. -/
def Measures (f : List (HVal K) → W) (trial : HTrial K W) : Prop := hperfUnify trial.perf = f trial.point.val

instance (f : List (HVal K) → W) (trial : HTrial K W) : Decidable (Measures f trial) :=
  inferInstanceAs (Decidable (_ = _))

/-- The strategy has been asked for the points `out`, and has been told the trials of `told`. -/
structure Exhaustive.Searches (ranges : List (HRange K)) (p : ℕ) (f : List (HVal K) → W) (s : Exhaustive K W)
    (out : Multiset (HPoint K)) (told : List (HTrial K W)) : Prop where
  shows : ∃ k ≤ p * spaceSize ranges, s.Shows ranges p k ∧ s.curr.id = k + 1
  asked : ∀ point ∈ out, point.id ≠ -1 → Numbered ranges p point
  heard : ∀ trial ∈ told, Numbered ranges p trial.point ∧ hperfUnify trial.perf = f trial.point.val
  best : s.best = hpointInitializer K ∧ s.bestPerf = ⊤ ∨
    ∃ trial ∈ told, s.best = trial.point ∧ s.bestPerf = hperfUnify trial.perf
  best_le : ∀ trial ∈ told, s.bestPerf ≤ hperfUnify trial.perf

variable {f : List (HVal K) → W} {s : Exhaustive K W} {out : Multiset (HPoint K)} {told : List (HTrial K W)}

omit [FloorSemiring K] [Add W] [Zero W] [LinearOrder W] [OrderTop W] in
lemma increment_bestPerf (nextafter : K → K) (s : Exhaustive K W) :
    (increment nextafter s).2.bestPerf = s.bestPerf := by
  unfold increment
  split_ifs
  · rfl
  · cases turn nextafter s.range s.curr.val s.idx with
    | none => rfl
    | some turned =>
      obtain ⟨stopped, vals, idx⟩ := turned
      cases stopped with
      | true =>
        dsimp only
        cases countOverflows nextafter s.range vals idx with
        | none => rfl
        | some n =>
          dsimp only
          split_ifs <;> rfl
      | false =>
        dsimp only
        split_ifs <;> rfl

omit [FloorSemiring K] [Add W] [Zero W] [LinearOrder W] [OrderTop W] in
lemma exGenerate_bestPerf (nextafter : K → K) (w : World (Exhaustive K W)) (flow : Flow K) (point : HPoint K) :
    (exGenerate nextafter w flow point).2.1.plug.bestPerf = w.plug.bestPerf := by
  have hinc := increment_bestPerf nextafter w.plug
  unfold exGenerate
  dsimp only
  split_ifs <;> first | exact hinc | rfl

/-- What the search knows about its best point does not depend on its position. -/
lemma Exhaustive.Searches.move {s' : Exhaustive K W} {out' : Multiset (HPoint K)}
    (h : s.Searches ranges p f out told) (hbest : s'.best = s.best) (hperf : s'.bestPerf = s.bestPerf)
    (hshows : ∃ k ≤ p * spaceSize ranges, s'.Shows ranges p k ∧ s'.curr.id = k + 1)
    (hasked : ∀ point ∈ out', point.id ≠ -1 → Numbered ranges p point) :
    s'.Searches ranges p f out' told where
  shows := hshows
  asked := hasked
  heard := h.heard
  best := by
    rw [hbest, hperf]
    exact h.best
  best_le := by
    rw [hperf]
    exact h.best_le

lemma Exhaustive.Searches.best_numbered (h : s.Searches ranges p f out told) (hne : s.best.id ≠ -1) :
    Numbered ranges p s.best := by
  obtain ⟨hbest, -⟩ | ⟨trial, htrial, hbest, -⟩ := h.best
  · rw [hbest] at hne
    exact absurd rfl hne
  · rw [hbest]
    exact (h.heard trial htrial).1

/-- A question: one of the points is given, or the best one once there are no more. -/
lemma Exhaustive.Searches.ask [IsStrictOrderedRing K] {w w' : World (Exhaustive K W)}
    (h : w.plug.Searches ranges p f out told) (hst : ∀ r ∈ ranges, r.Stepped) {flow flow' : Flow K}
    {point point' : HPoint K} {ret : ℤ} (hgen : exGenerate nextafter w flow point = (ret, w', flow', point')) :
    w'.plug.Searches ranges p f (point' ::ₘ out) told := by
  have hperf := exGenerate_bestPerf nextafter w flow point
  rw [hgen] at hperf
  obtain ⟨k, hk, hshows, hid⟩ := h.shows
  by_cases hlt : k < p * spaceSize ranges
  · obtain ⟨w₁, hgen', -, hnext, hid', hbest, -⟩ := exGenerate_shows nextafter hshows hst hlt flow point
    rw [hgen'] at hgen
    cases hgen
    apply h.move hbest hperf ⟨k + 1, hlt, hnext, by rw [hid', hid]; push_cast; ring⟩
    intro point hpoint hne
    obtain rfl | hpoint := Multiset.mem_cons.mp hpoint
    · rw [hpointCopy_of_ne (by omega)]
      exact ⟨k, hlt, hid, hshows.point⟩
    · exact h.asked point hpoint hne
  · have hleft := mt (hshows.remaining_pos hst).mp hlt
    unfold exGenerate at hgen
    simp only [gt_iff_lt, if_neg hleft, ne_eq, not_true_eq_false, if_false] at hgen
    obtain ⟨-, hw', -, rfl⟩ : _ ∧ _ ∧ _ ∧ _ := by simpa only [Prod.mk.injEq] using hgen
    have hasked : ∀ point ∈ hpointCopy w.plug.best ::ₘ out, point.id ≠ -1 → Numbered ranges p point := by
      intro point hpoint hne
      obtain rfl | hpoint := Multiset.mem_cons.mp hpoint
      · rw [hpointCopy_id] at hne
        rw [hpointCopy_of_ne hne]
        exact h.best_numbered hne
      · exact h.asked point hpoint hne
    split_ifs at hw'
    · cases hw'
      exact h.move rfl rfl ⟨k, hk, hshows.congr rfl rfl rfl rfl, hid⟩ hasked
    · cases hw'
      exact h.move rfl rfl h.shows hasked

omit [Field K] [LinearOrder K] [FloorSemiring K] [OrderTop W] in
/-- The best point after `strategy_analyze`. -/
lemma exAnalyze_best (w : World (Exhaustive K W)) (trial : HTrial K W) :
    (exAnalyze w trial).2.plug.best = (exRecord w.plug trial).best ∧
      (exAnalyze w trial).2.plug.bestPerf = (exRecord w.plug trial).bestPerf := by
  have hcount : ∀ (s : Exhaustive K W) (id : ℤ),
      (exCount s id).best = s.best ∧ (exCount s id).bestPerf = s.bestPerf := by
    intro s id
    obtain ⟨points, received, heq, -⟩ := exCount_spec s id
    rw [heq]
    exact ⟨rfl, rfl⟩
  unfold exAnalyze
  dsimp only
  split_ifs
  all_goals
    simp only [exConverge_plug]
    first | exact hcount _ _ | exact ⟨trivial, trivial⟩

/-- An answer: the trial is the new best one if it is better. -/
lemma Exhaustive.Searches.tell {w w' : World (Exhaustive K W)} {trial : HTrial K W}
    (h : w.plug.Searches ranges p f (trial.point ::ₘ out) told) (hid : trial.point.id ≠ -1)
    (hmeasures : Measures f trial)
    (hanalyze : exAnalyze w trial = (0, w')) : w'.plug.Searches ranges p f out (told ++ [trial]) := by
  have hnumbered := h.asked trial.point (Multiset.mem_cons_self _ _) hid
  obtain ⟨hrange, hidx, hcurr, hpasses⟩ := exAnalyze_curr w trial
  obtain ⟨hbest, hperf⟩ := exAnalyze_best w trial
  rw [hanalyze] at hrange hidx hcurr hpasses hbest hperf
  obtain ⟨k, hk, hshows, hcount⟩ := h.shows
  have hmoved : w'.plug.Shows ranges p k := hshows.congr hrange hidx (by rw [hcurr]) hpasses
  have hheard : ∀ t ∈ told ++ [trial], Numbered ranges p t.point ∧ hperfUnify t.perf = f t.point.val := by
    intro t ht
    obtain ht | ht := List.mem_append.mp ht
    · exact h.heard t ht
    · rw [List.mem_singleton.mp ht]
      exact ⟨hnumbered, hmeasures⟩
  refine ⟨⟨k, hk, hmoved, by rw [hcurr, hcount]⟩, ?_, hheard, ?_, ?_⟩
  · exact fun point hpoint => h.asked point (Multiset.mem_cons_of_mem hpoint)
  · rw [hbest, hperf]
    unfold exRecord
    dsimp only
    split_ifs with hlt
    · exact Or.inr ⟨trial, List.mem_append_right _ List.mem_cons_self, hnumbered.copy, rfl⟩
    · obtain hnone | ⟨other, hother, heq⟩ := h.best
      · exact Or.inl hnone
      · exact Or.inr ⟨other, List.mem_append_left _ hother, heq⟩
  · intro t ht
    rw [hperf]
    unfold exRecord
    dsimp only
    obtain ht | ht := List.mem_append.mp ht
    · split_ifs with hlt
      · exact hlt.le.trans (h.best_le t ht)
      · exact h.best_le t ht
    · rw [List.mem_singleton.mp ht]
      split_ifs with hlt
      · exact le_refl _
      · exact not_lt.mp hlt

/-! ## Sessions -/

end ActiveHarmony

import ActiveHarmony.Lib.ListModify
import ActiveHarmony.Lib.NearestPoint
import ActiveHarmony.Lib.XReal
import ActiveHarmony.Strategy.Bandit
import Mathlib.Algebra.BigOperators.Group.List.Basic
import Mathlib.Algebra.Order.Field.Basic
import Mathlib.Algebra.Order.Field.Rat
import Mathlib.Data.List.Rotate
import Mathlib.Order.WithBot

/-!
# The scores of `bandit.c`

`assign_scores` reads the window from its first cell on, not from its oldest entry, and does not keep the
best score: it returns the last strategy with a score above -1. `assign_scores_best_iff` says when this is
a strategy with the best score over the latest subtrials.

`R` stands for the doubles, with exact arithmetic.
-/

namespace ActiveHarmony.Bandit

variable {R V W D : Type}

/-! ## Exact arithmetic -/

section

variable [Field R] [LinearOrder R]

/-- The arithmetic of `assign_scores` without rounding; `root` is the square root. -/
def exactDoubles (root : R → R) : Doubles (XReal R) where
  ofInt z := .fin z
  infinity := .posInf
  add := XReal.add
  mul := XReal.mul
  div := XReal.div
  sqrt := XReal.sqrt root
  gt x y := XReal.lt y x
  gt_irrefl := XReal.lt_irrefl
  gt_trans hxy hyz := XReal.lt_trans hyz hxy

end

/-! ## The latest subtrials -/

/-- The entries of the window, the oldest one first. -/
def Vars.recent (s : Vars V W D) : List Subtrial := (s.window.take s.windowPopulation).rotate s.windowNext

/-- The subtrials of a strategy. -/
def uses (l : List Subtrial) (i : ℕ) : ℕ := l.countP fun t => t.strategyId = (i : ℤ)

/-- The subtrials of a strategy that have a result. -/
def results (l : List Subtrial) (i : ℕ) : ℕ := l.countP fun t => t.strategyId = (i : ℤ) ∧ t.complete

/-- The area under the curve: every new best counts as many as the strategy has been used up to it. -/
def area (l : List Subtrial) (i : ℕ) : ℕ :=
  ((List.range l.length).map fun k =>
    if l[k]?.any fun t => t.strategyId = (i : ℤ) ∧ t.newBest then uses (l.take (k + 1)) i else 0).sum

attribute [local instance] two_atLeastTwo in
/-- The score of a strategy over the latest subtrials: infinite without a use; without a result only the
term for exploration. -/
def recentScore [Field R] (root : R → R) (exploreFactor : R) (l : List Subtrial) (i : ℕ) : WithTop R :=
  if uses l i = 0 then ⊤
  else
    let quality : R := if results l i = 0 then 0 else 2 * area l i / results l i / (results l i + 1)
    ((quality + exploreFactor / root (uses l i) : R) : WithTop R)

/-- A strategy without a use, or with a result. -/
def Rated (l : List Subtrial) (i : ℕ) : Prop := uses l i = 0 ∨ 0 < results l i

/-- The last one of `n` strategies that is rated. -/
def LastRated (l : List Subtrial) (n i : ℕ) : Prop := i < n ∧ Rated l i ∧ ∀ j < n, i < j → ¬ Rated l j

/-! ## The counts -/

section

variable {l : List Subtrial} {t : Subtrial} {i : ℕ}

lemma uses_append : uses (l ++ [t]) i = uses l i + if t.strategyId = (i : ℤ) then 1 else 0 := by
  unfold uses
  rw [List.countP_append, List.countP_singleton]
  simp

lemma results_append :
    results (l ++ [t]) i = results l i + if t.strategyId = (i : ℤ) ∧ t.complete then 1 else 0 := by
  unfold results
  rw [List.countP_append, List.countP_singleton]
  simp

lemma area_append :
    area (l ++ [t]) i = area l i + if t.strategyId = (i : ℤ) ∧ t.newBest then uses (l ++ [t]) i else 0 := by
  unfold area
  rw [List.length_append, List.length_singleton, List.range_succ, List.map_append, List.sum_append]
  congr 1
  · congr 1
    apply List.map_congr_left
    intro k hk
    have hk' := List.mem_range.mp hk
    rw [List.getElem?_append_left hk', List.take_append_of_le_length hk']
  · rw [List.map_singleton, List.sum_singleton, List.getElem?_append_right (le_refl _), Nat.sub_self,
      List.take_of_length_le (by simp)]
    simp

/-- Without a result there is no new best. -/
lemma area_eq_zero (hbest : ∀ t ∈ l, t.newBest = true → t.complete = true) (h : results l i = 0) :
    area l i = 0 := by
  unfold area
  apply List.sum_eq_zero
  intro x hx
  obtain ⟨k, -, rfl⟩ := List.mem_map.mp hx
  apply if_neg
  cases ht : l[k]? with
  | none => exact Bool.false_ne_true
  | some t =>
    intro hany
    obtain ⟨hid, hnew⟩ := of_decide_eq_true hany
    have hmem := List.mem_of_getElem? ht
    exact List.countP_eq_zero.mp h t hmem (decide_eq_true ⟨hid, hbest t hmem hnew⟩)

lemma update_add (f : ℕ → ℤ) (k : ℕ) (c : ℤ) :
    Function.update f k (f k + c) = fun i => f i + if i = k then c else 0 := by
  funext i
  rw [Function.update_apply]
  by_cases hi : i = k
  · rw [if_pos hi, if_pos hi, hi]
  · rw [if_neg hi, if_neg hi, add_zero]

/-- What the first loop of `assign_scores` counts. -/
lemma counts_spec (hid : ∀ t ∈ l, 0 ≤ t.strategyId) :
    l.foldl Counts.add { usage := 0, result := 0, auc := 0 }
      = { usage := fun i => uses l i, result := fun i => results l i, auc := fun i => area l i } := by
  induction l using List.reverseRecOn with
  | nil => rfl
  | append_singleton l t ih =>
    have ht : 0 ≤ t.strategyId := hid t (List.mem_append_right _ (List.mem_singleton.mpr rfl))
    have hsame : ∀ i : ℕ, i = t.strategyId.toNat ↔ t.strategyId = (i : ℤ) := by
      intro i
      omega
    have husage : Function.update (fun i => (uses l i : ℤ)) t.strategyId.toNat (uses l t.strategyId.toNat + 1)
        = fun i => (uses (l ++ [t]) i : ℤ) := by
      rw [update_add]
      funext i
      simp only [uses_append, hsame, Nat.cast_add, Nat.cast_ite, Nat.cast_one, Nat.cast_zero]
    rw [List.foldl_append, ih fun t ht => hid t (List.mem_append_left _ ht), List.foldl_cons, List.foldl_nil]
    unfold Counts.add
    simp only [husage]
    congr 1
    · by_cases hcomplete : t.complete = true
      · rw [if_pos hcomplete, update_add]
        funext i
        simp only [results_append, hsame, hcomplete, and_true, Nat.cast_add, Nat.cast_ite, Nat.cast_one,
          Nat.cast_zero]
      · rw [if_neg hcomplete]
        funext i
        simp [results_append, hcomplete]
    · by_cases hnew : t.newBest = true
      · rw [if_pos hnew, update_add]
        funext i
        rw [area_append]
        by_cases hi : t.strategyId = (i : ℤ)
        · rw [if_pos ((hsame i).mpr hi), if_pos ⟨hi, hnew⟩, ← (hsame i).mpr hi, Nat.cast_add]
        · rw [if_neg ((hsame i).not.mpr hi), if_neg fun h => hi h.1, Nat.cast_add, Nat.cast_zero]
      · rw [if_neg hnew]
        funext i
        simp [area_append, hnew]

end

/-! ## The last strategy above a bound -/

lemma lastAbove_spec (above : D → Bool) (f : ℕ → D) (n : ℕ) :
    (((List.range n).map f).zipIdx.foldl (fun best p => if above p.1 then (p.2 : ℤ) else best) (-1) = -1 ∧
        ∀ j < n, above (f j) = false) ∨
      ∃ i < n, ((List.range n).map f).zipIdx.foldl (fun best p => if above p.1 then (p.2 : ℤ) else best) (-1)
        = i ∧ above (f i) = true ∧ ∀ j < n, i < j → above (f j) = false := by
  induction n with
  | zero => exact Or.inl ⟨rfl, fun j hj => absurd hj (Nat.not_lt_zero j)⟩
  | succ n ih =>
    have hfold : ((List.range (n + 1)).map f).zipIdx.foldl
        (fun best p => if above p.1 then (p.2 : ℤ) else best) (-1)
        = if above (f n) then (n : ℤ) else ((List.range n).map f).zipIdx.foldl
          (fun best p => if above p.1 then (p.2 : ℤ) else best) (-1) := by
      rw [List.range_succ, List.map_append, List.zipIdx_append, List.foldl_append]
      simp
    rw [hfold]
    by_cases hn : above (f n) = true
    · right
      exact ⟨n, Nat.lt_succ_self n, if_pos hn, hn, fun j hj hlt => by omega⟩
    · rw [if_neg hn]
      have hn' : above (f n) = false := by simpa using hn
      obtain ⟨hfold, hnone⟩ | ⟨i, hi, hfold, habove, hlast⟩ := ih
      · left
        refine ⟨hfold, ?_⟩
        intro j hj
        obtain hlt | rfl := Nat.lt_succ_iff_lt_or_eq.mp hj
        · exact hnone j hlt
        · exact hn'
      · right
        refine ⟨i, by omega, hfold, habove, ?_⟩
        intro j hj hij
        obtain hlt | rfl := Nat.lt_succ_iff_lt_or_eq.mp hj
        · exact hlast j hlt hij
        · exact hn'

/-! ## What `assign_scores` returns -/

section

variable [Field R] [LinearOrder R] [IsStrictOrderedRing R] {root : R → R} {exploreFactor : R}

/-- With exact arithmetic, the score of a strategy is above -1 exactly if the strategy is rated. -/
lemma score_above_iff (hroot : ∀ x, 0 < x → 0 < root x) (he : 0 ≤ exploreFactor) {l : List Subtrial}
    (hbest : ∀ t ∈ l, t.newBest = true → t.complete = true) (i : ℕ) :
    (exactDoubles root).gt (score (exactDoubles root) (.fin exploreFactor)
      { usage := fun i => uses l i, result := fun i => results l i, auc := fun i => area l i } i)
        ((exactDoubles root).ofInt (-1)) = true ↔ Rated l i := by
  unfold score Rated
  by_cases huses : uses l i = 0
  · simp only [huses, Nat.cast_zero, if_true, true_or, iff_true]
    rfl
  · have hcast : ¬((uses l i : ℤ) = 0) := by exact_mod_cast huses
    have hpos : (0 : R) < uses l i := by exact_mod_cast Nat.pos_of_ne_zero huses
    simp only [hcast, if_false, huses, false_or]
    show XReal.lt (.fin ((-1 : ℤ) : R))
      (XReal.add (XReal.div (XReal.div (.fin (((2 : ℤ) : R) * ((area l i : ℤ) : R)))
        (.fin ((results l i : ℤ) : R)))
        (.fin (((results l i : ℤ) : R) + ((1 : ℤ) : R))))
      (XReal.div (.fin exploreFactor) (XReal.sqrt root (.fin ((uses l i : ℤ) : R))))) = true ↔ _
    simp only [Int.cast_natCast, Int.cast_neg, Int.cast_one, Int.cast_ofNat]
    rw [XReal.sqrt_fin root hpos.le, XReal.div_fin (hroot _ hpos).ne']
    by_cases hres : results l i = 0
    · rw [hres, area_eq_zero hbest hres, Nat.cast_zero, mul_zero, XReal.div_zero_zero]
      simp [XReal.div, XReal.add, XReal.lt]
    · have hrespos : (0 : R) < results l i := by exact_mod_cast Nat.pos_of_ne_zero hres
      have hsucc : (0 : R) < results l i + 1 := add_pos hrespos one_pos
      rw [XReal.div_fin hrespos.ne', XReal.div_fin hsucc.ne']
      have hscore : (0 : R) ≤
          2 * area l i / results l i / (results l i + 1) + exploreFactor / root (uses l i) := by
        have harea : (0 : R) ≤ 2 * area l i := mul_nonneg zero_le_two (Nat.cast_nonneg _)
        have hquality : (0 : R) ≤ 2 * area l i / results l i / (results l i + 1) :=
          div_nonneg (div_nonneg harea hrespos.le) hsucc.le
        exact add_nonneg hquality (div_nonneg he (hroot _ hpos).le)
      refine iff_of_true (decide_eq_true ?_) (Nat.pos_of_ne_zero hres)
      exact (neg_lt_zero.mpr one_pos).trans_le hscore

variable {s : Vars V W (XReal R)}

/-- `assign_scores` returns the last rated strategy, or -1. -/
lemma assignScores_lastRated (hroot : ∀ x, 0 < x → 0 < root x) (he : 0 ≤ exploreFactor)
    (hfactor : s.exploreFactor = .fin exploreFactor)
    (hid : ∀ t ∈ s.window.take s.windowPopulation, 0 ≤ t.strategyId ∧ t.strategyId < maxNumStrategies)
    (hbest : ∀ t ∈ s.window.take s.windowPopulation, t.newBest = true → t.complete = true) :
    ∃ best scores, assignScores (exactDoubles root) s = .ok (best, scores) ∧
      ((best = -1 ∧ ∀ j < s.strategies.length, ¬ Rated (s.window.take s.windowPopulation) j) ∨
        ∃ i : ℕ, best = i ∧ LastRated (s.window.take s.windowPopulation) s.strategies.length i) := by
  set l := s.window.take s.windowPopulation with hl
  have hcounts := counts_spec fun t ht => (hid t ht).1
  set f := score (exactDoubles root) s.exploreFactor
    { usage := fun i => (uses l i : ℤ), result := fun i => results l i, auc := fun i => area l i } with hf
  have habove : ∀ j, (exactDoubles root).gt (f j) ((exactDoubles root).ofInt (-1)) = true ↔ Rated l j := by
    intro j
    rw [hf, hfactor]
    exact score_above_iff hroot he hbest j
  have hok : assignScores (exactDoubles root) s = .ok (((List.range s.strategies.length).map f).zipIdx.foldl
      (fun best p =>
        if (exactDoubles root).gt p.1 ((exactDoubles root).ofInt (-1)) then (p.2 : ℤ) else best) (-1),
      (List.range s.strategies.length).map f) := by
    unfold assignScores
    have hvalid : ¬ (l.any fun t => t.strategyId < 0 ∨ (maxNumStrategies : ℤ) ≤ t.strategyId) = true := by
      intro hany
      obtain ⟨t, ht, hbad⟩ := List.any_eq_true.mp hany
      have := hid t ht
      have := of_decide_eq_true hbad
      omega
    simp only [← hl]
    rw [if_neg hvalid, hcounts]
  refine ⟨_, _, hok, ?_⟩
  obtain ⟨hfold, hnone⟩ | ⟨i, hi, hfold, hrated, hlast⟩ := lastAbove_spec
    (fun x => (exactDoubles root).gt x ((exactDoubles root).ofInt (-1))) f s.strategies.length
  · left
    refine ⟨hfold, ?_⟩
    intro j hj hrated
    have := (habove j).mpr hrated
    rw [hnone j hj] at this
    cases this
  · right
    refine ⟨i, hfold, hi, (habove i).mp hrated, ?_⟩
    intro j hj hij hrated
    have := (habove j).mpr hrated
    rw [hlast j hj hij] at this
    cases this

end

/-! ## The window as a ring -/

/-- The oldest entry of a full ring is replaced by the newest. -/
lemma rotate_set {α : Type*} (l : List α) {i : ℕ} (hi : i < l.length) (x : α) :
    (l.set i x).rotate (i + 1) = (l.rotate i).tail ++ [x] := by
  have hset : l.set i x = l.take i ++ x :: l.drop (i + 1) :=
    List.set_eq_take_append_cons_drop.trans (if_pos hi)
  have htake : (l.set i x).take (i + 1) = l.take i ++ [x] := by
    rw [hset, List.take_append, List.length_take_of_le hi.le, List.take_of_length_le (by simp)]
    simp
  rw [List.rotate_eq_drop_append_take (by rw [List.length_set]; omega), htake, List.drop_set_of_lt (by omega),
    List.rotate_eq_drop_append_take hi.le, List.drop_eq_getElem_cons hi, List.cons_append, List.tail_cons,
    List.append_assoc]

/-- The ring holds the latest subtrials: `generated` are the strategies and ids of all of them, in order. -/
structure RingOf (strategies : List SubStrategy) (factor : D) (size : ℕ) (s : Vars V W D)
    (generated : List (ℤ × ℤ)) : Prop where
  strategies_eq : s.strategies = strategies
  factor_eq : s.exploreFactor = factor
  size_eq : s.window.length = size
  next : (s.windowPopulation < size ∧ s.windowNext = s.windowPopulation) ∨
    (s.windowPopulation = size ∧ s.windowNext < size)
  recent_eq : s.recent.map (fun t => (t.strategyId, t.pointId)) = generated.drop (generated.length - size)
  owner : ∀ t ∈ s.window.take s.windowPopulation, 0 ≤ t.strategyId ∧ t.strategyId < strategies.length
  best : ∀ t ∈ s.window.take s.windowPopulation, t.newBest = true → t.complete = true

/-- A new subtrial comes behind the others, in place of the oldest one if the ring is full. -/
lemma recent_push {strategies : List SubStrategy} {factor : D} {size : ℕ} {s : Vars V W D}
    {generated : List (ℤ × ℤ)}
    (h : RingOf strategies factor size s generated) (t : Subtrial) {s' : Vars V W D}
    (hwindow : s'.window = s.window.set s.windowNext t)
    (hnext : s'.windowNext = if s.windowNext + 1 = s.window.length then 0 else s.windowNext + 1)
    (hpop : s'.windowPopulation =
      if s.windowPopulation < s.window.length then s.windowPopulation + 1 else s.windowPopulation) :
    s'.recent = (if s.windowPopulation < size then s.recent else s.recent.tail) ++ [t] ∧
      s'.window.length = size ∧
      ((s'.windowPopulation < size ∧ s'.windowNext = s'.windowPopulation) ∨
        (s'.windowPopulation = size ∧ s'.windowNext < size)) ∧
      ∀ u ∈ s'.window.take s'.windowPopulation, u = t ∨ u ∈ s.window.take s.windowPopulation := by
  have hsize := h.size_eq
  obtain ⟨hlt, hat⟩ | ⟨hfull, hlt⟩ := h.next
  · -- the ring is not full, so it starts at its first cell
    have hpop' : s'.windowPopulation = s.windowPopulation + 1 := by rw [hpop, if_pos (by omega)]
    have htake : s'.window.take s'.windowPopulation = s.window.take s.windowPopulation ++ [t] := by
      rw [hwindow, hpop', hat, List.set_eq_take_append_cons_drop, if_pos (by omega), List.take_append,
        List.length_take_of_le (by omega), List.take_of_length_le (by simp)]
      simp
    have hrotate : s'.recent = s'.window.take s'.windowPopulation := by
      unfold Vars.recent
      rw [hnext]
      split_ifs with hend
      · exact List.rotate_zero _
      · have hlen : (s'.window.take s'.windowPopulation).length = s.windowNext + 1 := by
          rw [htake, List.length_append, List.length_singleton, List.length_take_of_le (by omega), hat]
        rw [← hlen]
        exact List.rotate_length _
    have hold : s.recent = s.window.take s.windowPopulation := by
      have hlen : (s.window.take s.windowPopulation).length = s.windowNext := by
        rw [List.length_take_of_le (by omega), hat]
      unfold Vars.recent
      rw [← hlen]
      exact List.rotate_length _
    refine ⟨by rw [if_pos hlt, hrotate, htake, hold], by rw [hwindow, List.length_set, hsize], ?_, ?_⟩
    · rw [hnext, hpop']
      split_ifs with hend
      · right
        omega
      · left
        omega
    · intro u hu
      rw [htake] at hu
      obtain hu | hu := List.mem_append.mp hu
      · exact Or.inr hu
      · exact Or.inl (List.mem_singleton.mp hu)
  · have hpop' : s'.windowPopulation = size := by rw [hpop, if_neg (by omega), hfull]
    have hall : s'.window.take s'.windowPopulation = s.window.set s.windowNext t := by
      rw [hwindow, hpop', List.take_of_length_le (by rw [List.length_set]; omega)]
    have hold : s.window.take s.windowPopulation = s.window := List.take_of_length_le (by omega)
    have hrotate : s'.recent = (s.window.set s.windowNext t).rotate (s.windowNext + 1) := by
      unfold Vars.recent
      rw [hall, hnext]
      split_ifs with hend
      · rw [hend, List.rotate_zero]
        have hlen : (s.window.set s.windowNext t).length = s.window.length := List.length_set
        rw [← hlen]
        exact (List.rotate_length _).symm
      · rfl
    refine ⟨?_, by rw [hwindow, List.length_set, hsize], Or.inr ⟨hpop', ?_⟩, ?_⟩
    · rw [if_neg (by omega), hrotate, rotate_set _ (by omega)]
      unfold Vars.recent
      rw [hold]
    · rw [hnext]
      split_ifs <;> omega
    · intro u hu
      rw [hall] at hu
      obtain hu | rfl := List.mem_or_eq_of_mem_set hu
      · rw [hold]
        exact Or.inr hu
      · exact Or.inl rfl

/-- The subtrials that a call generates: strategies and ids. -/
def Event.generated (e : Event V W) (r : Reply V W) : List (ℤ × ℤ) :=
  match e with
  | .generate _ _ answers => (handedOut answers r).map fun q => ((q.owner : ℤ), q.id)
  | _ => []

section

variable {strategies : List SubStrategy} {factor : D} {size : ℕ} {s : Vars V W D} {generated : List (ℤ × ℤ)}

lemma RingOf.error (h : RingOf strategies factor size s generated) (msg : Bytes) :
    RingOf strategies factor size (s.error msg) generated :=
  ⟨h.strategies_eq, h.factor_eq, h.size_eq, h.next, h.recent_eq, h.owner, h.best⟩

/-- The result of a subtrial changes its entry, but not whose it is. -/
lemma RingOf.modify (h : RingOf strategies factor size s generated) (entry : ℕ) {f : Subtrial → Subtrial}
    (hf : ∀ t, (f t).strategyId = t.strategyId ∧ (f t).pointId = t.pointId)
    (hbest : ∀ t, (t.newBest = true → t.complete = true) → (f t).newBest = true → (f t).complete = true)
    {s' : Vars V W D} (hstrategies : s'.strategies = s.strategies)
    (hfactor : s'.exploreFactor = s.exploreFactor)
    (hwindow : s'.window = s.window.modify entry f)
    (hpop : s'.windowPopulation = s.windowPopulation) (hnext : s'.windowNext = s.windowNext) :
    RingOf strategies factor size s' generated := by
  have htake : s'.window.take s'.windowPopulation = (s.window.take s.windowPopulation).modify entry f := by
    rw [hwindow, hpop, List.take_modify]
  refine ⟨hstrategies.trans h.strategies_eq, hfactor.trans h.factor_eq,
    by rw [hwindow, List.length_modify, h.size_eq], ?_, ?_, ?_, ?_⟩
  · rw [hpop, hnext]
    exact h.next
  · have hids := ListModify.map_same (l := s.window.take s.windowPopulation) (i := entry) (f := f)
      (g := fun t => (t.strategyId, t.pointId)) fun t => by rw [(hf t).1, (hf t).2]
    unfold Vars.recent
    rw [List.map_rotate, htake, hids, hnext, ← List.map_rotate]
    exact h.recent_eq
  · intro t ht
    rw [htake] at ht
    obtain ht | ⟨u, hu, rfl⟩ := ListModify.mem_cases ht
    · exact h.owner t ht
    · rw [(hf u).1]
      exact h.owner u (List.mem_of_getElem? hu)
  · intro t ht
    rw [htake] at ht
    obtain ht | ⟨u, hu, rfl⟩ := ListModify.mem_cases ht
    · exact h.best t ht
    · exact hbest u (h.best u (List.mem_of_getElem? hu))

/-- A generated subtrial is the latest one. -/
lemma RingOf.push (h : RingOf strategies factor size s generated) {t : Subtrial} {i : ℕ}
    (hi : i < strategies.length)
    (hid : t.strategyId = i) (hnew : t.newBest = false) {s' : Vars V W D}
    (hstrategies : s'.strategies = s.strategies) (hfactor : s'.exploreFactor = s.exploreFactor)
    (hwindow : s'.window = s.window.set s.windowNext t)
    (hnext : s'.windowNext = if s.windowNext + 1 = s.window.length then 0 else s.windowNext + 1)
    (hpop : s'.windowPopulation =
      if s.windowPopulation < s.window.length then s.windowPopulation + 1 else s.windowPopulation) :
    RingOf strategies factor size s' (generated ++ [((i : ℤ), t.pointId)]) := by
  obtain ⟨hrecent, hsize, hnext', hmem⟩ := recent_push h t hwindow hnext hpop
  have hlen : s.recent.length = s.windowPopulation := by
    unfold Vars.recent
    rw [List.length_rotate, List.length_take, h.size_eq]
    have := h.next
    omega
  refine ⟨hstrategies.trans h.strategies_eq, hfactor.trans h.factor_eq, hsize, hnext', ?_, ?_, ?_⟩
  · have hcount := congrArg List.length h.recent_eq
    rw [List.length_map, hlen, List.length_drop] at hcount
    rw [hrecent, List.map_append, List.length_append, List.length_singleton]
    by_cases hroom : s.windowPopulation < size
    · have hshort : generated.length < size := by omega
      rw [if_pos hroom, h.recent_eq, show generated.length - size = 0 by omega,
        show generated.length + 1 - size = 0 by omega]
      simp [hid]
    · have hpos : 0 < size := by
        have := h.next
        omega
      rw [if_neg hroom, List.map_tail, h.recent_eq, List.tail_drop,
        show generated.length + 1 - size = generated.length - size + 1 by omega,
        List.drop_append_of_le_length (by omega)]
      simp [hid]
  · intro u hu
    obtain rfl | hu := hmem u hu
    · rw [hid]
      omega
    · exact h.owner u hu
  · intro u hu
    obtain rfl | hu := hmem u hu
    · rw [hnew]
      exact fun h => absurd h Bool.false_ne_true
    · exact h.best u hu

/-- What `strategy_generate` does after its loop. -/
lemma RingOf.finish (h : RingOf strategies factor size s generated) {answers : ℕ → Answer V}
    {search : Search V W}
    (hends : search.Ends answers strategies.length) :
    RingOf strategies factor size (s.finish search).1
      (generated ++ (handedOut answers (s.finish search).2).map fun q => ((q.owner : ℤ), q.id)) := by
  have hfail : ∀ {s' : Vars V W D} {r : Reply V W}, RingOf strategies factor size s' generated → r.ret = -1 →
      RingOf strategies factor size s'
        (generated ++ (handedOut answers r).map fun q => ((q.owner : ℤ), q.id)) := by
    intro s' r hs' hret
    rw [handedOut_of_ret answers (by rw [hret]; decide), List.map_nil, List.append_nil]
    exact hs'
  unfold Vars.finish
  dsimp only
  by_cases hfailed : search.failed
  · rw [if_pos hfailed]
    exact hfail h rfl
  · rw [if_neg hfailed]
    obtain hfail' | ⟨hbest, hwait⟩ | ⟨i, hi, hbest, hlast, hflow, hpt, hpoint⟩ := hends.ended
    · exact absurd hfail' hfailed
    · rw [if_pos hbest, handedOut_of_wait answers rfl hwait, List.map_nil, List.append_nil]
      exact h
    · have hnonneg : ¬((i : ℤ) < 0) := by omega
      rw [hbest, if_neg hnonneg]
      cases hid : translateIdFromSub i search.point.id with
      | error msg => exact hfail (h.error msg) rfl
      | ok id =>
        dsimp only
        by_cases hnext : s.window.length ≤ s.windowNext ∨ s.windowPopulation < s.windowNext
        · rw [if_pos hnext]
          exact hfail (h.error _) rfl
        · rw [if_neg hnext, hflow, hpt, handedOut_of_point hpoint hlast]
          exact h.push
            (t := { strategyId := i, pointId := id, complete := false, newBest := false }) hi rfl rfl
            rfl rfl rfl rfl rfl

section

variable [Add W] [Zero W] [LT W] [DecidableLT W] {F : Doubles D}

/-- `strategy_analyze` marks a subtrial as complete, and as a new best only then. -/
lemma RingOf.complete (h : RingOf strategies factor size s generated) (entry : ℕ) (trial : HTrial V W) :
    RingOf strategies factor size (s.complete entry trial) generated := by
  unfold Vars.complete
  dsimp only
  by_cases hopt : hperfUnify trial.perf < s.bestPerf
  · rw [if_pos hopt]
    refine h.modify entry (f := fun t => { t with complete := true, newBest := true }) (fun _ => ⟨rfl, rfl⟩)
      (fun _ _ _ => rfl) rfl rfl ?_ rfl rfl
    exact List.modify_modify_eq ..
  · rw [if_neg hopt]
    exact h.modify entry (f := fun t => { t with complete := true }) (fun _ => ⟨rfl, rfl⟩)
      (fun _ _ _ => rfl) rfl
      rfl rfl rfl rfl

/-- Every call keeps the ring of the latest subtrials. -/
lemma RingOf.step (h : RingOf strategies factor size s generated) {e : Event V W} {s' : Vars V W D}
    {r : Reply V W}
    (hstep : Bandit.step F s e = some (s', r)) :
    RingOf strategies factor size s' (generated ++ e.generated r) := by
  cases e with
  | generate flow point answers =>
    have hfail : ∀ {s' : Vars V W D} {r : Reply V W},
        RingOf strategies factor size s' generated → r.ret = -1 →
        RingOf strategies factor size s'
          (generated ++ (Event.generate flow point answers : Event V W).generated r) := by
      intro s' r hs' hret
      show RingOf strategies factor size s' (generated ++ (handedOut answers r).map _)
      rw [handedOut_of_ret answers (by rw [hret]; decide), List.map_nil, List.append_nil]
      exact hs'
    change strategyGenerate F s flow point answers = some (s', r) at hstep
    unfold strategyGenerate at hstep
    by_cases hmany : maxRequestsOutstanding < s.requestsOutstanding
    · rw [if_pos hmany] at hstep
      obtain ⟨rfl, rfl⟩ := Prod.mk.inj (Option.some.inj hstep)
      show RingOf strategies factor size s (generated ++ (handedOut answers _).map _)
      rw [handedOut_of_wait answers rfl rfl, List.map_nil, List.append_nil]
      exact h
    · rw [if_neg hmany] at hstep
      cases hassign : assignScores F s with
      | error msg =>
        rw [hassign] at hstep
        obtain ⟨rfl, rfl⟩ := Prod.mk.inj (Option.some.inj hstep)
        exact hfail (h.error msg) rfl
      | ok res =>
        obtain ⟨best, scores⟩ := res
        rw [hassign] at hstep
        dsimp only at hstep
        obtain ⟨hlen, rfl | ⟨best', x, rfl, hget, hgt⟩⟩ := assignScores_spec F hassign
        · rw [if_pos (by decide)] at hstep
          obtain ⟨rfl, rfl⟩ := Prod.mk.inj (Option.some.inj hstep)
          exact hfail h rfl
        · have hfuel : scores.countP (F.gt · (F.ofInt (-1))) ≤ s.strategies.length :=
            hlen ▸ List.countP_le_length
          obtain ⟨search, hsearch, hends⟩ := generateLoop_ends (W := W) F answers hget hgt hfuel
          have hnonneg : ¬((best' : ℤ) < 0) := by omega
          rw [if_neg hnonneg, Int.toNat_natCast, hsearch, Option.map_some] at hstep
          rw [hlen, h.strategies_eq] at hends
          have hfinish := h.finish hends
          rw [Option.some.inj hstep] at hfinish
          exact hfinish
  | rejected flow point answer =>
    have hsame : RingOf strategies factor size s' generated := by
      change strategyRejected s flow point answer = some (s', r) at hstep
      unfold strategyRejected at hstep
      dsimp only at hstep
      by_cases hrange :
        (translateIdToSub point.id).2 < 0 ∨ (maxNumStrategies : ℤ) ≤ (translateIdToSub point.id).2
      · rw [if_pos hrange] at hstep
        obtain ⟨rfl, -⟩ := Prod.mk.inj (Option.some.inj hstep)
        exact h.error _
      · rw [if_neg hrange] at hstep
        by_cases hthere : (s.strategies.length : ℤ) ≤ (translateIdToSub point.id).2
        · rw [if_pos hthere] at hstep
          cases hstep
        · rw [if_neg hthere] at hstep
          cases hid : translateIdFromSub (translateIdToSub point.id).2 answer.point.id with
          | error msg =>
            rw [hid] at hstep
            obtain ⟨rfl, -⟩ := Prod.mk.inj (Option.some.inj hstep)
            exact h.error msg
          | ok id =>
            rw [hid] at hstep
            obtain ⟨rfl, -⟩ := Prod.mk.inj (Option.some.inj hstep)
            exact h
    exact (List.append_nil generated).symm ▸ hsame
  | analyze trial stackOk result hints =>
    have hsame : RingOf strategies factor size s' generated := by
      change strategyAnalyze s trial stackOk result hints = some (s', r) at hstep
      unfold strategyAnalyze at hstep
      cases hentry : s.window.findIdx? fun t => t.pointId = trial.point.id with
      | none =>
        rw [hentry] at hstep
        obtain ⟨rfl, -⟩ := Prod.mk.inj (Option.some.inj hstep)
        exact h
      | some entry =>
        rw [hentry] at hstep
        dsimp only at hstep
        have hcomplete := h.complete entry trial
        split_ifs at hstep
        · obtain ⟨rfl, -⟩ := Prod.mk.inj (Option.some.inj hstep)
          exact hcomplete.error _
        · obtain ⟨rfl, -⟩ := Prod.mk.inj (Option.some.inj hstep)
          exact hcomplete
        · obtain ⟨rest, -, heq⟩ := Option.map_eq_some_iff.mp hstep
          obtain ⟨rfl, -⟩ := Prod.mk.inj heq
          exact hcomplete
    exact (List.append_nil generated).symm ▸ hsame
  | setcfg key val results =>
    obtain ⟨reply, -, heq⟩ := Option.map_eq_some_iff.mp hstep
    obtain ⟨rfl, -⟩ := Prod.mk.inj heq
    exact (List.append_nil generated).symm ▸ h

/-! ## Runs -/

/-- The states that calls lead to, and the subtrials that were generated on the way, in order. -/
inductive Sequence (F : Doubles D) (start : Vars V W D) : Vars V W D → List (ℤ × ℤ) → Prop
  | start : Sequence F start start []
  | step {s s' : Vars V W D} {generated : List (ℤ × ℤ)} {e : Event V W} {r : Reply V W} :
      Sequence F start s generated → Bandit.step F s e = some (s', r) →
      Sequence F start s' (generated ++ e.generated r)

lemma Sequence.ringOf [Top W] {memory : List Subtrial} (hmemory : memory ≠ [])
    (hrun : Sequence F (strategyInit strategies factor memory) s generated) :
    RingOf strategies factor memory.length s generated := by
  induction hrun with
  | start =>
    have hpos := List.length_pos_iff.mpr hmemory
    exact ⟨rfl, rfl, List.length_map _, Or.inl ⟨hpos, rfl⟩, by simp [Vars.recent, strategyInit],
      fun _ ht => absurd ht List.not_mem_nil,
      fun _ ht => absurd ht List.not_mem_nil⟩
  | step _ hstep ih => exact ih.step hstep

end

end

section

variable [Add W] [Zero W] [LT W] [DecidableLT W] [Top W] [Field R] [LinearOrder R] [IsStrictOrderedRing R]
  {root : R → R} {exploreFactor : R}

/-- In every state that calls lead to, the window has the latest subtrials in order from its oldest entry
on, and `assign_scores` returns a strategy with the best score over them exactly if the last strategy that
has no use there, or a result, has the best score. -/
theorem assign_scores_best_iff (hroot : ∀ x, 0 < x → 0 < root x) {strategies : List SubStrategy}
    (hfew : strategies.length ≤ maxNumStrategies) (he : 0 ≤ exploreFactor) {memory : List Subtrial}
    (hmemory : memory ≠ []) {s : Vars V W (XReal R)} {generated : List (ℤ × ℤ)}
    (hrun : Sequence (exactDoubles root) (strategyInit strategies (.fin exploreFactor) memory) s generated) :
    s.recent.map (fun t => (t.strategyId, t.pointId)) = generated.drop (generated.length - memory.length) ∧
      ((∃ (i : ℕ) (scores : List (XReal R)), assignScores (exactDoubles root) s = .ok (i, scores) ∧
          i < strategies.length ∧ ∀ j < strategies.length,
            recentScore root exploreFactor s.recent j ≤ recentScore root exploreFactor s.recent i) ↔
        ∃ i, LastRated s.recent strategies.length i ∧ ∀ j < strategies.length,
          recentScore root exploreFactor s.recent j ≤ recentScore root exploreFactor s.recent i) := by
  have hring := hrun.ringOf hmemory
  refine ⟨hring.recent_eq, ?_⟩
  -- whether a strategy is rated does not depend on the order
  have hperm : s.recent.Perm (s.window.take s.windowPopulation) := List.rotate_perm _ _
  have hrated : ∀ j, Rated (s.window.take s.windowPopulation) j ↔ Rated s.recent j := by
    intro j
    unfold Rated uses results
    rw [hperm.countP_eq, hperm.countP_eq]
  obtain ⟨best, scores, hassign, hcase⟩ := assignScores_lastRated hroot he hring.factor_eq
    (fun t ht => ⟨(hring.owner t ht).1, by have := (hring.owner t ht).2; omega⟩) hring.best
  rw [hring.strategies_eq] at hcase
  constructor
  · intro hmax
    obtain ⟨i, scores', hassign', hi, hmax⟩ := hmax
    rw [hassign] at hassign'
    obtain ⟨hbest, -⟩ := Prod.mk.inj (Except.ok.inj hassign')
    obtain ⟨hnone, -⟩ | ⟨k, hk, hlt, hkrated, hlast⟩ := hcase
    · omega
    · obtain rfl : i = k := by omega
      exact ⟨i, ⟨hlt, (hrated i).mp hkrated, fun j hj hij h => hlast j hj hij ((hrated j).mpr h)⟩, hmax⟩
  · intro hmax
    obtain ⟨i, ⟨hi, hirated, hilast⟩, hmax⟩ := hmax
    obtain ⟨-, hnone⟩ | ⟨k, rfl, hlt, hkrated, hlast⟩ := hcase
    · exact absurd ((hrated i).mpr hirated) (hnone i hi)
    · have heq : k = i := by
        by_contra hne
        obtain hki | hik := Nat.lt_or_gt_of_ne hne
        · exact hlast i hi hki ((hrated i).mpr hirated)
        · exact hilast k hlt hik ((hrated k).mp hkrated)
      rw [heq] at hassign
      exact ⟨i, scores, hassign, hi, hmax⟩

end

/-! ## Two strategies -/

instance (l : List Subtrial) (i : ℕ) : Decidable (Rated l i) :=
  inferInstanceAs (Decidable (uses l i = 0 ∨ 0 < results l i))

instance (l : List Subtrial) (n i : ℕ) : Decidable (LastRated l n i) :=
  inferInstanceAs (Decidable (i < n ∧ Rated l i ∧ ∀ j < n, i < j → ¬ Rated l j))

/-- Calls in order, with the subtrials that they generate. -/
def follow (s : Vars ℕ (WithTop ℕ) (XReal ℚ)) (generated : List (ℤ × ℤ)) :
    List (Event ℕ (WithTop ℕ)) → Option (Vars ℕ (WithTop ℕ) (XReal ℚ) × List (ℤ × ℤ))
  | [] => some (s, generated)
  | e :: es => (step (exactDoubles id) s e).bind fun res => follow res.1 (generated ++ e.generated res.2) es

lemma follow_sequence {start s s' : Vars ℕ (WithTop ℕ) (XReal ℚ)} {generated generated' : List (ℤ × ℤ)}
    {es : List (Event ℕ (WithTop ℕ))} (hrun : Sequence (exactDoubles id) start s generated)
    (h : follow s generated es = some (s', generated')) : Sequence (exactDoubles id) start s' generated' := by
  induction es generalizing s generated with
  | nil =>
    obtain ⟨rfl, rfl⟩ := Prod.mk.inj (Option.some.inj h)
    exact hrun
  | cons e es ih =>
    obtain ⟨⟨s₁, r⟩, hstep, hrest⟩ := Option.bind_eq_some_iff.mp h
    exact ih (hrun.step hstep) hrest

/-- Two strategies that take hints, and a window of four entries: the exploration factor is
`1 * sqrt (2 * log2 4)`. -/
def pair : Vars ℕ (WithTop ℕ) (XReal ℚ) :=
  strategyInit (List.replicate 2 { plain with hint := true }) (.fin 2)
    (List.replicate 4 { strategyId := 0, pointId := -7, complete := false, newBest := false })

/-- Each strategy generates a point; then the results of strategy 0 and of strategy 1 come. -/
def oneEach (perf₀ perf₁ : ℕ) : List (Event ℕ (WithTop ℕ)) :=
  let result (id : ℤ) (perf : ℕ) : Event ℕ (WithTop ℕ) :=
    .analyze { point := { id := id, val := [] }, perf := { p := [(perf : WithTop ℕ)] } } true 0 fun _ => 0
  let ask : Event ℕ (WithTop ℕ) :=
    .generate (accepted 0).flow (hpointInitializer ℕ) fun i => accepted i
  [ask, ask, result 0 perf₀, result (1 + 2 ^ pointIdBits) perf₁]

/-- If the strategy with the larger index has the better results, it is returned. -/
theorem assign_scores_last_better : ∃ s generated,
    Sequence (exactDoubles id) pair s generated ∧ ∃ (i : ℕ) (scores : List (XReal ℚ)),
      assignScores (exactDoubles id) s = .ok (i, scores) ∧ i < 2 ∧
        List.Forall (fun j => recentScore id (2 : ℚ) s.recent j ≤ recentScore id (2 : ℚ) s.recent i)
          [0, 1] := by
  have hend : (follow pair [] (oneEach 10 5)).map (fun res => res.1.recent)
      = some [{ strategyId := 1, pointId := 1 + 2 ^ pointIdBits, complete := true, newBest := true },
        { strategyId := 0, pointId := 0, complete := true, newBest := true }] := by decide +kernel
  obtain ⟨⟨s, generated⟩, hfollow, hrecent⟩ := Option.map_eq_some_iff.mp hend
  have hrun := follow_sequence .start hfollow
  have hbest : LastRated s.recent 2 1 ∧
      ∀ j < 2, recentScore id (2 : ℚ) s.recent j ≤ recentScore id (2 : ℚ) s.recent 1 := by
    rw [hrecent]
    decide +kernel
  obtain ⟨i, scores, hassign, hi, hmax⟩ := (assign_scores_best_iff (fun _ hx => hx) (by decide) (by decide)
    (List.cons_ne_nil _ _) hrun).2.mpr ⟨1, hbest⟩
  exact ⟨s, generated, hrun, i, scores, hassign, hi, hmax 0 (by decide), hmax 1 (by decide)⟩

/-- If strategy 0 has the better results, strategy 1 is returned all the same. -/
theorem last_rated_is_not_best : ¬ ∀ (strategies : List SubStrategy) (exploreFactor : ℚ)
    (memory : List Subtrial)
    (s : Vars ℕ (WithTop ℕ) (XReal ℚ)) (generated : List (ℤ × ℤ)), strategies ≠ [] →
    strategies.length ≤ maxNumStrategies → 0 ≤ exploreFactor → memory ≠ [] →
    Sequence (exactDoubles id) (strategyInit strategies (.fin exploreFactor) memory) s generated →
    ∃ (i : ℕ) (scores : List (XReal ℚ)), assignScores (exactDoubles id) s = .ok (i, scores) ∧
      i < strategies.length ∧ ∀ j < strategies.length,
        recentScore id exploreFactor s.recent j ≤ recentScore id exploreFactor s.recent i := by
  intro hclaim
  have hend : (follow pair [] (oneEach 5 10)).map (fun res =>
      ((assignScores (exactDoubles id) res.1).map Prod.fst,
        decide (recentScore id (2 : ℚ) res.1.recent 0 ≤ recentScore id (2 : ℚ) res.1.recent 1)))
      = some (.ok 1, false) := by decide +kernel
  obtain ⟨⟨s, generated⟩, hfollow, hres⟩ := Option.map_eq_some_iff.mp hend
  obtain ⟨hone, hless⟩ := Prod.mk.inj hres
  obtain ⟨i, scores, hassign, -, hmax⟩ := hclaim _ 2 _ s generated (by decide) (by decide) (by decide)
    (by decide) (follow_sequence .start hfollow)
  rw [hassign] at hone
  obtain rfl : i = 1 := by
    have := Except.ok.inj hone
    omega
  exact of_decide_eq_false hless (hmax 0 (by decide))

end ActiveHarmony.Bandit

import ActiveHarmony.Lib.NearestPoint
import ActiveHarmony.Strategy.ExhaustiveReject

/-!
# The grid of a range

An `HVAL_INT` and an `HVAL_REAL` range are the grid of the points `min + k * step` up to `max`. With exact
arithmetic, the nearest function goes to the nearest point of the grid, and the index and value functions
convert between the points and their indices.
-/

namespace ActiveHarmony

variable {K : Type} [Field K] [LinearOrder K] [FloorSemiring K]

/-- `hrange_int_value`. -/
def hrangeIntValue (min max step : ℤ) (idx : ℕ) : ℤ :=
  let maxIdx := hrangeIntMaxIdx min max step
  let idx := if idx < 0 then 0 else idx
  let idx := if idx > maxIdx then maxIdx else idx
  min + idx * step

/-- `hrange_real_value`. -/
def hrangeRealValue (min max step : K) (idx : ℕ) : K :=
  let maxIdx := hrangeRealMaxIdx min max step
  let idx := if idx < 0 then 0 else idx
  let idx := if idx > maxIdx then maxIdx else idx
  min + idx * step

/-- The points of a range. -/
def gridPoints {α : Type} [CommRing α] [LinearOrder α] (min max step : α) : Set α :=
  {g | ∃ k : ℕ, g = min + k * step ∧ g ≤ max}

/-- The functions of a range agree with its grid. -/
structure GridLaws {α : Type} [CommRing α] [LinearOrder α] (min max step : α) (maxIdx : ℕ)
    (index : α → ℕ) (value : ℕ → α) (nearest : α → α) : Prop where
  nearest_point : ∀ v, NearestPoint (gridPoints min max step) v (nearest v)
  idempotent : ∀ v, nearest (nearest v) = nearest v
  monotone : Monotone nearest
  index_value : ∀ k, k ≤ maxIdx → index (value k) = k

/-- The laws of the nearest function come from its nearest points. -/
lemma GridLaws.of_nearest {α : Type} [CommRing α] [LinearOrder α] [IsStrictOrderedRing α]
    {min max step : α} {maxIdx : ℕ} {index : α → ℕ} {value : ℕ → α} {nearest : α → α}
    (hnear : ∀ v, NearestPoint (gridPoints min max step) v (nearest v))
    (hindex : ∀ k, k ≤ maxIdx → index (value k) = k) :
    GridLaws min max step maxIdx index value nearest where
  nearest_point := hnear
  idempotent := by
    intro v
    exact (hnear (nearest v)).eq_self (hnear v).mem
  monotone := by
    intro v w hvw
    exact (hnear v).mono hvw (hnear w)
  index_value := hindex

section

variable [IsStrictOrderedRing K]

/-! ## Indices -/

/-- The index is the position and one half, cut, except where the ends of the indices are in the way. -/
lemma nearestIndex_spec (x : K) (n : ℕ) :
    (0 < nearestIndex x n → (nearestIndex x n : K) ≤ x + 1 / 2) ∧
      (nearestIndex x n < n → x + 1 / 2 < nearestIndex x n + 1) := by
  unfold nearestIndex
  dsimp only
  split_ifs with hneg hlt hlt
  · exact absurd hlt (not_lt.mpr n.cast_nonneg)
  · rw [Nat.floor_zero, Nat.cast_zero, zero_add]
    constructor
    · intro h
      exact absurd h (lt_irrefl 0)
    · intro h
      linarith
  · rw [Nat.floor_natCast]
    constructor
    · intro h
      exact hlt.le
    · intro h
      exact absurd h (lt_irrefl n)
  · constructor
    · intro h
      exact Nat.floor_le (not_lt.mp hneg)
    · intro h
      exact Nat.lt_floor_add_one _

lemma nearestIndex_nearestPoint (x : K) (n : ℕ) :
    NearestPoint {g : K | ∃ j : ℕ, j ≤ n ∧ g = j} x (nearestIndex x n) := by
  obtain ⟨hlow, hhigh⟩ := nearestIndex_spec x n
  exact NearestPoint.of_index (nearestIndex_le x n) hlow hhigh

/-! ## `HVAL_INT` -/

/-- The greatest index is that of the last point. -/
lemma le_hrangeIntMaxIdx {min max step : ℤ} (hmm : min ≤ max) (hstep : 0 < step) (k : ℕ) :
    k ≤ hrangeIntMaxIdx min max step ↔ min + k * step ≤ max := by
  have hnonneg : 0 ≤ max - min := by omega
  unfold hrangeIntMaxIdx
  rw [Int.tdiv_eq_ediv_of_nonneg hnonneg, Int.le_toNat (Int.ediv_nonneg hnonneg hstep.le),
    Int.le_ediv_iff_mul_le hstep]
  omega

omit [LinearOrder K] [FloorSemiring K] [IsStrictOrderedRing K] in
/-- The points of an integer range are those of its indices. -/
lemma gridPoints_intCast {min max step : ℤ} (hmm : min ≤ max) (hstep : 0 < step) :
    (Int.cast '' gridPoints min max step : Set K) =
      (fun y => (min : K) + y * step) '' {g | ∃ j : ℕ, j ≤ hrangeIntMaxIdx min max step ∧ g = j} := by
  ext y
  constructor
  · intro hy
    obtain ⟨z, hz, rfl⟩ := hy
    obtain ⟨k, rfl, hk⟩ := hz
    refine ⟨k, ⟨k, (le_hrangeIntMaxIdx hmm hstep k).mpr hk, rfl⟩, ?_⟩
    push_cast
    rfl
  · intro hy
    obtain ⟨z, hz, rfl⟩ := hy
    obtain ⟨k, hk, rfl⟩ := hz
    refine ⟨min + k * step, ⟨k, rfl, (le_hrangeIntMaxIdx hmm hstep k).mp hk⟩, ?_⟩
    push_cast
    rfl

omit [IsStrictOrderedRing K] in
lemma hrangeIntNearest_cast (min max step v : ℤ) : ((hrangeIntNearest K min max step v : ℤ) : K) =
    min + (hrangeIntIndex K min max step v : K) * step := by
  unfold hrangeIntNearest
  push_cast
  rfl

lemma hrangeIntNearest_nearestPoint {min max step : ℤ} (hmm : min ≤ max) (hstep : 0 < step) (v : ℤ) :
    NearestPoint (gridPoints min max step) v (hrangeIntNearest K min max step v) := by
  have hpos : (0 : K) < step := by exact_mod_cast hstep
  have hv : (v : K) = min + (((v - min : ℤ) : K) / step) * step := by
    rw [div_mul_cancel₀ _ hpos.ne', Int.cast_sub, add_sub_cancel]
  apply NearestPoint.of_intCast (K := K)
  rw [gridPoints_intCast hmm hstep, hrangeIntNearest_cast, hv]
  exact (nearestIndex_nearestPoint _ _).affine _ hpos

lemma hrangeIntIndex_value {min max step : ℤ} (hstep : 0 < step) {k : ℕ}
    (hk : k ≤ hrangeIntMaxIdx min max step) :
    hrangeIntIndex K min max step (hrangeIntValue min max step k) = k := by
  have hne : (step : K) ≠ 0 := by exact_mod_cast hstep.ne'
  have hvalue : hrangeIntValue min max step k = min + k * step := by
    unfold hrangeIntValue
    dsimp only
    rw [if_neg (Nat.not_lt_zero k), if_neg (not_lt.mpr hk)]
  have hpos : ((min + k * step - min : ℤ) : K) / step = (k : K) := by
    rw [add_sub_cancel_left, Int.cast_mul, Int.cast_natCast, mul_div_cancel_right₀ _ hne]
  unfold hrangeIntIndex
  rw [hvalue, hpos]
  exact nearestIndex_natCast hk

/-! ## `HVAL_REAL` -/

lemma le_hrangeRealMaxIdx {min max step : K} (hmm : min ≤ max) (hstep : 0 < step) (k : ℕ) :
    k ≤ hrangeRealMaxIdx min max step ↔ min + k * step ≤ max := by
  unfold hrangeRealMaxIdx
  rw [if_pos hstep, Nat.le_floor_iff (div_nonneg (sub_nonneg.mpr hmm) hstep.le), le_div_iff₀ hstep,
    le_sub_iff_add_le']

lemma hrangeRealNearest_nearestPoint {min max step : K} (hmm : min ≤ max) (hstep : 0 < step) (v : K) :
    NearestPoint (gridPoints min max step) v (hrangeRealNearest min max step v) := by
  have hset : gridPoints min max step =
      (fun y => min + y * step) '' {g | ∃ j : ℕ, j ≤ hrangeRealMaxIdx min max step ∧ g = j} := by
    ext y
    constructor
    · intro hy
      obtain ⟨k, rfl, hk⟩ := hy
      exact ⟨k, ⟨k, (le_hrangeRealMaxIdx hmm hstep k).mpr hk, rfl⟩, rfl⟩
    · intro hy
      obtain ⟨z, hz, rfl⟩ := hy
      obtain ⟨k, hk, rfl⟩ := hz
      exact ⟨k, rfl, (le_hrangeRealMaxIdx hmm hstep k).mp hk⟩
  have hv : v = min + ((v - min) / step) * step := by
    rw [div_mul_cancel₀ _ hstep.ne', add_sub_cancel]
  have hnear : hrangeRealNearest min max step v = min + hrangeRealIndex min max step v * step :=
    if_pos hstep
  have h := (nearestIndex_nearestPoint ((v - min) / step) (hrangeRealMaxIdx min max step)).affine min hstep
  rw [← hset, ← hv] at h
  rw [hnear]
  exact h

lemma hrangeRealIndex_value {min max step : K} (hstep : 0 < step) {k : ℕ}
    (hk : k ≤ hrangeRealMaxIdx min max step) :
    hrangeRealIndex min max step (hrangeRealValue min max step k) = k := by
  have hvalue : hrangeRealValue min max step k = min + k * step := by
    unfold hrangeRealValue
    dsimp only
    rw [if_neg (Nat.not_lt_zero k), if_neg (not_lt.mpr hk)]
  unfold hrangeRealIndex
  rw [hvalue, add_sub_cancel_left, mul_div_cancel_right₀ _ hstep.ne']
  exact nearestIndex_natCast hk

/-! ## The laws -/

/-- With exact arithmetic, the functions of every range with a positive step agree with its grid. -/
theorem hrange_grid_laws :
    (∀ min max step : ℤ, min ≤ max → 0 < step →
      GridLaws min max step (hrangeIntMaxIdx min max step) (hrangeIntIndex K min max step)
        (hrangeIntValue min max step) (hrangeIntNearest K min max step)) ∧
    (∀ min max step : K, min ≤ max → 0 < step →
      GridLaws min max step (hrangeRealMaxIdx min max step) (hrangeRealIndex min max step)
        (hrangeRealValue min max step) (hrangeRealNearest min max step)) := by
  constructor
  · intro min max step hmm hstep
    apply GridLaws.of_nearest
    · exact hrangeIntNearest_nearestPoint hmm hstep
    · intro k hk
      exact hrangeIntIndex_value hstep hk
  · intro min max step hmm hstep
    apply GridLaws.of_nearest
    · exact hrangeRealNearest_nearestPoint hmm hstep
    · intro k hk
      exact hrangeRealIndex_value hstep hk

end

/-- A half-way point of a grid whose last point is not `max`. -/
theorem hrange_grid_laws_half_way :
    NearestPoint (gridPoints (-3 : ℤ) 10 4) (-1) 1 ∧
      NearestPoint (gridPoints (1 / 2 : ℚ) 2 (1 / 3)) 9 (11 / 6) := by
  obtain ⟨hint, hreal⟩ := hrange_grid_laws (K := ℚ)
  have hi := (hint (-3) 10 4 (by decide) (by decide)).nearest_point (-1)
  have hr := (hreal (1 / 2) 2 (1 / 3) (by norm_num) (by norm_num)).nearest_point 9
  have hival : hrangeIntNearest ℚ (-3) 10 4 (-1) = 1 := by decide +kernel
  have hrval : hrangeRealNearest (1 / 2 : ℚ) 2 (1 / 3) 9 = 11 / 6 := by decide +kernel
  rw [hival] at hi
  rw [hrval] at hr
  exact ⟨hi, hr⟩

end ActiveHarmony

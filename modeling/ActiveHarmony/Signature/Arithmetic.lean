import ActiveHarmony.Signature.Declare

/-!
# The arithmetic of the ranges

The functions of a range give a result on every value, and the nearest function one within the bounds, exactly
when the bounds and the step meet a condition. An integer range must be counted from zero, since the
difference of two values of `long` need not be a `long`.
-/

namespace ActiveHarmony

variable {K : Type} [Field K] [LinearOrder K] [FloorRing K]

/-! ## The property and the condition -/

variable (K) in
/-- The functions of an integer range have results for every `long`, the nearest function one within the
bounds. -/
def IntWorks (min max step : ℤ) : Prop :=
  (Machine.hrangeIntMaxIdx min max step).isSome ∧ ∀ v : Long,
    (Machine.hrangeIntIndex K min max step v.val).isSome ∧
      ∃ x, Machine.hrangeIntNearest K min max step v.val = some x ∧ min ≤ x ∧ x ≤ max

/-- The functions of a real range have results for every `double` that is a number, the nearest function one
within the bounds. -/
def RealWorks (min max step : XReal K) : Prop :=
  (Machine.hrangeRealMaxIdx min max step).isSome ∧ ∀ v : Double K, v.val ≠ .nan →
    (Machine.hrangeRealIndex min max step v.val).isSome ∧
      ∃ x, Machine.hrangeRealNearest min max step v.val = some x ∧ min.le x = true ∧ x.le max = true

variable (K) in
/-- What an integer range needs: every `long` can be counted from `min`, and the steps are counted without an
error, or the step is negative and longer than the range. -/
def IntFits (min max step : ℤ) : Prop :=
  min = 0 ∧ (0 < step ∧ binary64.round ((max / step : ℤ) : K) ≤ ((max / step : ℤ) : K) ∨
    step < 0 ∧ max < -step)

attribute [local instance] two_atLeastTwo in
/-- What a real range needs: `min` and the step are finite, `max` is a number, the step is not zero, and when
it is positive the steps fit an `unsigned long` and the last one is not rounded past `max`. -/
def RealFits (min max step : XReal K) : Prop :=
  max ≠ .nan ∧ ∃ a s : K, min = .fin a ∧ step = .fin s ∧ s ≠ 0 ∧
    (0 < s → ∃ q : K, binary64.div (binary64.sub max min) step = .fin q ∧ q < 2 ^ 64 ∧
      (binary64.add min (binary64.mul (binary64.ofExact (⌊q⌋ : K)) step)).le max = true)

section

variable [IsStrictOrderedRing K]

/-! ## Doubles -/

lemma binary64_emin : binary64.emin ≤ 0 := by decide

omit [LinearOrder K] [FloorRing K] [IsStrictOrderedRing K] in
lemma representable_int {z : ℤ} (hz : |z| ≤ 2 ^ 53) : binary64.Representable (z : K) :=
  FloatFormat.representable_intCast binary64_emin hz

lemma round_one : binary64.round (1 : K) = 1 := by
  have h := FloatFormat.round_eq_self (representable_int (K := K) (z := 1) (by decide))
  rwa [Int.cast_one] at h

lemma round_neg_one : binary64.round (-1 : K) = -1 := by
  have h := FloatFormat.round_eq_self (representable_int (K := K) (z := -1) (by decide))
  rwa [Int.cast_neg, Int.cast_one] at h

lemma round_two_pow (k : ℕ) : binary64.round (2 ^ k : K) = 2 ^ k :=
  FloatFormat.round_eq_self (FloatFormat.representable_two_pow binary64_emin k)

lemma round_half_three : binary64.round (3 / 2 : K) = 3 / 2 := by
  apply FloatFormat.round_eq_self
  refine ⟨3, -1, by decide, by decide, ?_⟩
  rw [zpow_neg_one]
  norm_num

lemma round_nonneg {x : K} (hx : 0 ≤ x) : 0 ≤ binary64.round x := by
  have h := FloatFormat.round_mono (f := binary64) hx
  rwa [FloatFormat.round_zero] at h

/-- Numbers of the size of a `long` do not overflow. -/
lemma ofExact_of_abs_le {x : K} (hx : |x| ≤ 2 ^ 65) : binary64.ofExact x = .fin (binary64.round x) := by
  obtain ⟨hlow, hhigh⟩ := abs_le.mp hx
  have hneg : binary64.round (-2 ^ 65 : K) = -2 ^ 65 :=
    FloatFormat.round_eq_self (FloatFormat.representable_two_pow binary64_emin 65).neg
  have hge := FloatFormat.round_mono (f := binary64) hlow
  have hle := FloatFormat.round_mono (f := binary64) hhigh
  rw [hneg] at hge
  rw [round_two_pow] at hle
  apply if_pos
  exact (abs_le.mpr ⟨hge, hle⟩).trans_lt (pow_lt_pow_right₀ one_lt_two (by decide))

lemma ofExact_intCast {z : ℤ} (hz : |z| ≤ 2 ^ 64) :
    binary64.ofExact (z : K) = .fin (binary64.round (z : K)) := by
  apply ofExact_of_abs_le
  have hle : |z| ≤ 2 ^ 65 := hz.trans (by decide)
  exact_mod_cast hle

lemma ofExact_natCast {n : ℕ} (hn : n ≤ 2 ^ 64) :
    binary64.ofExact (n : K) = .fin (binary64.round (n : K)) := by
  have h := ofExact_intCast (K := K) (z := n) (by rw [Nat.abs_cast]; exact_mod_cast hn)
  rwa [Int.cast_natCast] at h

/-! ## The index -/

omit [FloorRing K] in
/-- What the two comparisons leave of a number. -/
lemma clamp_spec {v : XReal K} {d : K} (hv : v ≠ .nan) (hd : 0 ≤ d) :
    ∃ c, (if (XReal.fin d).lt (if v.lt (.fin 0) then .fin 0 else v) then .fin d
        else if v.lt (.fin 0) then .fin 0 else v) = XReal.fin c ∧ 0 ≤ c ∧ c ≤ d ∧
      ((XReal.fin d).le v = true → c = d) := by
  cases v with
  | nan => exact absurd rfl hv
  | negInf =>
    have hlt : (XReal.negInf : XReal K).lt (.fin 0) = true := rfl
    rw [if_pos hlt, if_neg (by simpa [XReal.lt] using hd)]
    refine ⟨0, rfl, le_refl 0, hd, ?_⟩
    intro h
    simp [XReal.le] at h
  | posInf =>
    have hge : ¬(XReal.posInf : XReal K).lt (.fin 0) = true := by simp [XReal.lt]
    have hover : (XReal.fin d).lt .posInf = true := rfl
    rw [if_neg hge, if_pos hover]
    exact ⟨d, rfl, hd, le_refl d, fun _ => rfl⟩
  | fin x =>
    obtain hneg | hnonneg := lt_or_ge x 0
    · have hlt : (XReal.fin x).lt (.fin 0) = true := decide_eq_true hneg
      rw [if_pos hlt, if_neg (by simpa [XReal.lt] using hd)]
      refine ⟨0, rfl, le_refl 0, hd, ?_⟩
      intro h
      have hle : d ≤ x := of_decide_eq_true h
      linarith
    · have hlt : ¬(XReal.fin x).lt (.fin 0) = true := by simpa [XReal.lt] using hnonneg
      rw [if_neg hlt]
      obtain hover | hunder := lt_or_ge d x
      · rw [if_pos (by simpa [XReal.lt] using hover)]
        exact ⟨d, rfl, hd, le_refl d, fun _ => rfl⟩
      · rw [if_neg (by simpa [XReal.lt] using hunder)]
        refine ⟨x, rfl, hnonneg, hunder, ?_⟩
        intro h
        have hle : d ≤ x := of_decide_eq_true h
        exact le_antisymm hunder hle

namespace Machine

lemma toULong_fin {c : K} (hlow : 0 ≤ c) (hhigh : c < 2 ^ 64) : toULong (.fin c) = some ⌊c⌋.toNat :=
  if_pos ⟨neg_one_lt_zero.trans_le hlow, hhigh⟩

/-- The index of a position that is a number. -/
lemma nearestIndex_spec {idx : XReal K} {n : ℕ} {d : K} (hidx : idx ≠ .nan)
    (hn : binary64.ofExact (n : K) = .fin d) (hd : 0 ≤ d) (hhigh : d < 2 ^ 64) :
    ∃ i, nearestIndex idx n = some i ∧ (i : K) ≤ d ∧
      ((XReal.fin d).le (binary64.add idx (.fin (1 / 2))) = true → i = ⌊d⌋.toNat) := by
  have hsum : binary64.add idx (.fin (1 / 2)) ≠ .nan := by
    apply FloatFormat.ofXReal_ne_nan
    cases idx with
    | nan => exact absurd rfl hidx
    | negInf => simp [XReal.add]
    | posInf => simp [XReal.add]
    | fin x => simp [XReal.add]
  obtain ⟨c, hc, hlow, hle, hend⟩ := clamp_spec hsum hd
  refine ⟨⌊c⌋.toNat, ?_, ?_, ?_⟩
  · unfold nearestIndex
    dsimp only
    rw [hn, hc]
    exact toULong_fin hlow (hle.trans_lt hhigh)
  · have hfloor : ((⌊c⌋.toNat : ℤ) : K) = ⌊c⌋ := by rw [Int.toNat_of_nonneg (Int.floor_nonneg.mpr hlow)]
    have hcast : ((⌊c⌋.toNat : ℕ) : K) = ⌊c⌋ := by exact_mod_cast hfloor
    rw [hcast]
    exact (Int.floor_le c).trans hle
  · intro h
    rw [hend h]

/-! ## `HVAL_INT` -/

lemma hrangeIntMaxIdx_zero {max step : ℤ} (hmax : 0 ≤ max) (hlong : IsLong max) (hstep : step ≠ 0) :
    hrangeIntMaxIdx 0 max step = some (max.tdiv step % 2 ^ 64).toNat := by
  have hquot : IsLong (max.tdiv step) := by
    have hle := Int.natAbs_tdiv_le_natAbs max step
    unfold IsLong at hlong ⊢
    omega
  unfold hrangeIntMaxIdx
  rw [sub_zero, if_neg (not_not.mpr hlong), if_neg hstep, if_neg (not_not.mpr hquot)]

lemma round_natCast_lt {n : ℕ} (hn : n ≤ 2 ^ 63) :
    0 ≤ binary64.round (n : K) ∧ binary64.round (n : K) < 2 ^ 64 := by
  have hcast : (n : K) ≤ 2 ^ 63 := by exact_mod_cast hn
  have hle := FloatFormat.round_mono (f := binary64) hcast
  rw [round_two_pow] at hle
  exact ⟨round_nonneg n.cast_nonneg, hle.trans_lt (pow_lt_pow_right₀ one_lt_two (by decide))⟩

/-- A step that is not zero is not rounded to zero. -/
lemma round_ne_zero {z : ℤ} (hz : z ≠ 0) : binary64.round (z : K) ≠ 0 := by
  obtain hneg | hpos := lt_or_gt_of_ne hz
  · have hle : (z : K) ≤ -1 := by exact_mod_cast Int.le_sub_one_of_lt hneg
    have h := FloatFormat.round_mono (f := binary64) hle
    rw [round_neg_one] at h
    linarith
  · have hle : (1 : K) ≤ z := by exact_mod_cast hpos
    have h := FloatFormat.round_mono (f := binary64) hle
    rw [round_one] at h
    linarith

/-- The index of a `long`, counted from zero. -/
lemma hrangeIntIndex_spec {max step : ℤ} {n : ℕ} (hmaxIdx : hrangeIntMaxIdx 0 max step = some n)
    (hn : n ≤ 2 ^ 63) (hlong : IsLong step) (hstep : step ≠ 0) {v : ℤ} (hv : IsLong v) :
    ∃ i, hrangeIntIndex K 0 max step v = some i ∧ (i : K) ≤ binary64.round (n : K) ∧
      ((XReal.fin (binary64.round (n : K))).le (binary64.add (binary64.div
          (.fin (binary64.round (v : K))) (.fin (binary64.round (step : K)))) (.fin (1 / 2))) = true →
        i = ⌊binary64.round (n : K)⌋.toNat) := by
  obtain ⟨hlow, hhigh⟩ := round_natCast_lt (K := K) hn
  have hvexact : binary64.ofExact (v : K) = .fin (binary64.round (v : K)) := by
    apply ofExact_intCast
    unfold IsLong at hv
    rw [abs_le]
    omega
  have hsexact : binary64.ofExact (step : K) = .fin (binary64.round (step : K)) := by
    apply ofExact_intCast
    unfold IsLong at hlong
    rw [abs_le]
    omega
  have hidx : binary64.div (.fin (binary64.round (v : K))) (.fin (binary64.round (step : K))) ≠ .nan := by
    apply FloatFormat.ofXReal_ne_nan
    rw [XReal.div_fin (round_ne_zero hstep)]
    simp
  obtain ⟨i, hi, hle, hend⟩ := nearestIndex_spec hidx (ofExact_natCast (by omega)) hlow hhigh
  refine ⟨i, ?_, hle, hend⟩
  unfold hrangeIntIndex
  rw [hmaxIdx, Option.bind_eq_bind, Option.bind_some, sub_zero, if_neg (not_not.mpr hv), hvexact, hsexact]
  exact hi

/-- An index that is not rounded up. -/
lemma le_of_round_le {n i : ℕ} (hround : binary64.round (n : K) ≤ n) (hi : (i : K) ≤ binary64.round (n : K)) :
    i ≤ n := by
  exact_mod_cast hi.trans hround

omit [IsStrictOrderedRing K] in
lemma hrangeIntNearest_eq {max step v : ℤ} {i : ℕ} (hi : hrangeIntIndex K 0 max step v = some i) :
    hrangeIntNearest K 0 max step v = some (Int.bmod (i * step) (2 ^ 64)) := by
  unfold hrangeIntNearest
  rw [hi, Option.bind_eq_bind, Option.bind_some, zero_add]

end Machine

/-- A range that fits works. -/
lemma int_works {min max step : ℤ} (hmm : min ≤ max) (hmax : IsLong max) (hstep : IsLong step)
    (h : IntFits K min max step) : IntWorks K min max step := by
  obtain ⟨rfl, hfits⟩ := h
  -- the greatest index, and the points up to it
  obtain ⟨n, hn, hsize, hne, hround, hinside⟩ : ∃ n : ℕ, Machine.hrangeIntMaxIdx 0 max step = some n ∧
      n ≤ 2 ^ 63 ∧ step ≠ 0 ∧ binary64.round (n : K) ≤ n ∧
      ∀ i : ℕ, i ≤ n → 0 ≤ i * step ∧ i * step ≤ max := by
    obtain ⟨hpos, hround⟩ | ⟨hneg, hlong⟩ := hfits
    · have hquot : 0 ≤ max / step := Int.ediv_nonneg hmm hpos.le
      have hle : max / step ≤ max := Int.ediv_le_self _ hmm
      have hmul : max / step * step ≤ max := Int.ediv_mul_le _ hpos.ne'
      have hcast : (((max / step).toNat : ℕ) : K) = ((max / step : ℤ) : K) := by
        rw [← Int.cast_natCast, Int.toNat_of_nonneg hquot]
      refine ⟨(max / step).toNat, ?_, ?_, hpos.ne', ?_, ?_⟩
      · rw [Machine.hrangeIntMaxIdx_zero hmm hmax hpos.ne', Int.tdiv_eq_ediv_of_nonneg hmm]
        unfold IsLong at hmax
        rw [Int.emod_eq_of_lt hquot (by omega)]
      · unfold IsLong at hmax
        omega
      · rw [hcast]
        exact hround
      · intro i hi
        have hiq : (i : ℤ) ≤ max / step := by omega
        exact ⟨by positivity, (mul_le_mul_of_nonneg_right hiq hpos.le).trans hmul⟩
    · have hzero : max.tdiv step = 0 := by
        rw [← neg_neg step, Int.tdiv_neg, Int.tdiv_eq_zero_of_lt hmm hlong, neg_zero]
      refine ⟨0, ?_, Nat.zero_le _, hneg.ne, ?_, ?_⟩
      · rw [Machine.hrangeIntMaxIdx_zero hmm hmax hneg.ne, hzero]
        rfl
      · rw [Nat.cast_zero, FloatFormat.round_zero]
      · intro i hi
        obtain rfl := Nat.le_zero.mp hi
        rw [Nat.cast_zero, zero_mul]
        exact ⟨le_refl 0, hmm⟩
  refine ⟨by rw [hn]; rfl, ?_⟩
  intro v
  obtain ⟨i, hi, hle, -⟩ := Machine.hrangeIntIndex_spec (K := K) hn hsize hstep hne v.isLong
  obtain ⟨hlow, hhigh⟩ := hinside i (Machine.le_of_round_le hround hle)
  refine ⟨by rw [hi]; rfl, i * step, ?_, hlow, hhigh⟩
  rw [Machine.hrangeIntNearest_eq hi]
  unfold IsLong at hmax
  rw [Int.bmod_eq_of_le_mul_two (by omega) (by omega)]

/-- The greatest `long` is rounded up. -/
lemma round_longMax : binary64.round (((2 ^ 63 - 1 : ℤ)) : K) = 2 ^ 63 := by
  have hnat : (((2 ^ 63 - 1 : ℤ)) : K) = ((2 ^ 63 - 1 : ℕ) : K) := by norm_num
  have hlog : Nat.log 2 (2 ^ 63 - 1) = 62 := Nat.log_eq_of_pow_le_of_lt_pow (by decide) (by decide)
  have hexp : binary64.exponent (((2 ^ 63 - 1 : ℤ)) : K) = 10 := by
    unfold FloatFormat.exponent
    rw [hnat, Nat.abs_cast, Int.log_natCast, hlog]
    rfl
  have hfloor : ⌊(((2 ^ 63 - 1 : ℤ)) : K) / 2 ^ (10 : ℤ)⌋ = 2 ^ 53 - 1 := by
    rw [Int.floor_eq_iff]
    constructor
    · norm_num
    · norm_num
  have heven : FloatFormat.roundEven ((((2 ^ 63 - 1 : ℤ)) : K) / 2 ^ (10 : ℤ)) = 2 ^ 53 := by
    unfold FloatFormat.roundEven
    dsimp only
    rw [hfloor, if_neg (by norm_num), if_pos (by norm_num)]
    norm_num
  unfold FloatFormat.round
  rw [hexp, heven]
  norm_num

/-- Rounding does not go past the next power of two. -/
lemma round_le_twice {n : ℕ} (hn : n ≠ 0) : binary64.round (n : K) ≤ 2 * n := by
  have hlow : 2 ^ Nat.log 2 n ≤ n := Nat.pow_log_le_self 2 hn
  have hhigh : n < 2 ^ (Nat.log 2 n + 1) := Nat.lt_pow_succ_log_self (by decide) n
  have hcast : (n : K) ≤ 2 ^ (Nat.log 2 n + 1) := by exact_mod_cast hhigh.le
  have hle := FloatFormat.round_mono (f := binary64) hcast
  rw [round_two_pow, pow_succ'] at hle
  have hlowcast : (2 : K) ^ Nat.log 2 n ≤ n := by exact_mod_cast hlow
  linarith

namespace Machine

/-- The position of the greatest `long` is not before the last index, in doubles either. -/
lemma last_le_position {n : ℕ} {step : ℤ} (hpos : 0 < step) (hsmall : step ≤ 2 ^ 53)
    (hlast : n * step ≤ 2 ^ 63) :
    (XReal.fin (binary64.round (n : K))).le (binary64.add (binary64.div
      (.fin (binary64.round ((2 ^ 63 - 1 : ℤ) : K))) (.fin (binary64.round (step : K)))) (.fin (1 / 2))) =
        true := by
  have hstep : binary64.round (step : K) = step := by
    apply FloatFormat.round_eq_self
    apply representable_int
    rw [abs_of_pos hpos]
    exact hsmall
  have hone : (1 : K) ≤ step := by exact_mod_cast hpos
  have hspos : (0 : K) < step := by linarith
  have hle : (n : K) ≤ 2 ^ 63 / step := by
    rw [le_div_iff₀ hspos]
    exact_mod_cast hlast
  have hquot : (2 : K) ^ 63 / step ≤ 2 ^ 63 := div_le_self (by positivity) hone
  have hquotpos : (0 : K) ≤ 2 ^ 63 / step := by positivity
  have hdiv : binary64.div (.fin (2 ^ 63 : K)) (.fin (step : K)) = .fin (binary64.round (2 ^ 63 / step)) := by
    unfold FloatFormat.div
    rw [XReal.div_fin hspos.ne']
    apply ofExact_of_abs_le
    rw [abs_of_nonneg hquotpos]
    linarith
  have hrep := FloatFormat.round_representable binary64 (2 ^ 63 / step : K)
  have hround := FloatFormat.round_mono (f := binary64) hle
  have hrnonneg := round_nonneg hquotpos
  have hrhigh := FloatFormat.round_mono (f := binary64) hquot
  rw [round_two_pow] at hrhigh
  have hadd : binary64.add (.fin (binary64.round (2 ^ 63 / step : K))) (.fin (1 / 2)) =
      .fin (binary64.round (binary64.round (2 ^ 63 / step : K) + 1 / 2)) := by
    apply ofExact_of_abs_le
    rw [abs_of_nonneg (by linarith)]
    linarith
  -- adding one half does not go down
  have hup := FloatFormat.round_mono (f := binary64)
    (show binary64.round (2 ^ 63 / step : K) ≤ binary64.round (2 ^ 63 / step : K) + 1 / 2 by linarith)
  rw [FloatFormat.round_eq_self hrep] at hup
  rw [round_longMax, hstep, hdiv, hadd]
  exact decide_eq_true (hround.trans hup)

/-- What is left of a product past `max`. -/
lemma bmod_outside {y max : ℤ} (hlow : max < y) (hhigh : y < 2 ^ 64) (hpos : 0 ≤ y) :
    Int.bmod y (2 ^ 64) < 0 ∨ max < Int.bmod y (2 ^ 64) := by
  rw [Int.bmod_def]
  split_ifs
  · omega
  · omega

/-- When the greatest index is rounded up, the nearest function leaves the range. -/
lemma hrangeIntNearest_past {max step : ℤ} {n : ℕ} (hmaxIdx : hrangeIntMaxIdx 0 max step = some n)
    (hmax : IsLong max) (hlong : IsLong step) (hpos : 0 < step) (hlow : n * step ≤ max)
    (hhigh : max < (n + 1) * step) (hup : (n : K) < binary64.round (n : K)) :
    ∃ x, hrangeIntNearest K 0 max step (2 ^ 63 - 1) = some x ∧ (x < 0 ∨ max < x) := by
  have hnstep : (n : ℤ) ≤ n * step := le_mul_of_one_le_right n.cast_nonneg hpos
  have hbig : 2 ^ 53 < n := by
    by_contra hsmall
    have habs : |(n : ℤ)| ≤ 2 ^ 53 := by
      rw [Nat.abs_cast]
      omega
    have heq := FloatFormat.round_eq_self (representable_int (K := K) habs)
    rw [Int.cast_natCast] at heq
    rw [heq] at hup
    exact lt_irrefl _ hup
  have hsmall : step ≤ 2 ^ 53 := by
    by_contra hlarge
    unfold IsLong at hmax
    have hmul : (2 ^ 53 : ℤ) * 2 ^ 53 ≤ n * step := mul_le_mul (by omega) (by omega) (by decide) (by omega)
    omega
  unfold IsLong at hmax
  have hv : IsLong (2 ^ 63 - 1) := by decide
  obtain ⟨i, hi, -, hend⟩ := hrangeIntIndex_spec (K := K) hmaxIdx (by omega) hlong hpos.ne' hv
  have hilast := hend (last_le_position hpos hsmall (by omega))
  -- the rounded index is a whole number
  have hint : (⌊binary64.round (n : K)⌋ : K) = binary64.round (n : K) := by
    obtain heq | hlt := (FloatFormat.round_representable binary64 (n : K)).floor_eq_or_lt
    · exact heq
    · have hge : ((2 ^ 53 : ℕ) : K) < n := by exact_mod_cast hbig
      have hle := (le_abs_self _).trans_lt hlt
      push_cast at hge
      have hfrac : binary64.fraction + 1 = 53 := rfl
      rw [hfrac] at hle
      linarith
  have hnext : (n : ℤ) < ⌊binary64.round (n : K)⌋ := by
    have hcast : ((n : ℤ) : K) < (⌊binary64.round (n : K)⌋ : K) := by
      rw [hint, Int.cast_natCast]
      exact hup
    exact_mod_cast hcast
  have htwice : ⌊binary64.round (n : K)⌋ ≤ 2 * n := by
    have hcast : (⌊binary64.round (n : K)⌋ : K) ≤ ((2 * n : ℤ) : K) := by
      rw [hint]
      push_cast
      exact round_le_twice (by omega)
    exact_mod_cast hcast
  have hicast : (i : ℤ) = ⌊binary64.round (n : K)⌋ := by omega
  have hover : (n + 1 : ℤ) * step ≤ i * step := mul_le_mul_of_nonneg_right (by omega) hpos.le
  have hunder : (i : ℤ) * step ≤ 2 * n * step := mul_le_mul_of_nonneg_right (by omega) hpos.le
  rw [mul_assoc] at hunder
  refine ⟨_, hrangeIntNearest_eq hi, ?_⟩
  exact bmod_outside (by omega) (by omega) (by omega)

lemma div_round_self {z : ℤ} (hz : z ≠ 0) :
    binary64.div (.fin (binary64.round (z : K))) (.fin (binary64.round (z : K))) = .fin 1 := by
  have h := ofExact_intCast (K := K) (z := 1) (by decide)
  rw [Int.cast_one, round_one] at h
  unfold FloatFormat.div
  rw [XReal.div_fin (round_ne_zero hz), div_self (round_ne_zero hz)]
  exact h

/-- The position one has the index one when there are many indices. -/
lemma nearestIndex_one {n : ℕ} (hlow : 2 ^ 63 ≤ n) (hhigh : n ≤ 2 ^ 64) :
    nearestIndex (.fin (1 : K)) n = some 1 := by
  have hsum : (1 + 1 / 2 : K) = 3 / 2 := by norm_num
  have hadd : binary64.add (.fin (1 : K)) (.fin (1 / 2)) = .fin (3 / 2) := by
    have h : binary64.ofExact (3 / 2 : K) = .fin (binary64.round (3 / 2)) := by
      apply ofExact_of_abs_le
      rw [abs_of_nonneg (by norm_num)]
      norm_num
    rw [round_half_three] at h
    show binary64.ofExact (1 + 1 / 2 : K) = .fin (3 / 2)
    rw [hsum, h]
  have hround : (3 / 2 : K) < binary64.round (n : K) := by
    have hcast : (2 ^ 63 : K) ≤ n := by exact_mod_cast hlow
    have h := FloatFormat.round_mono (f := binary64) hcast
    rw [round_two_pow] at h
    linarith
  have hpos : ¬(XReal.fin (3 / 2 : K)).lt (.fin 0) = true := by
    simp only [XReal.lt, decide_eq_true_eq, not_lt]
    norm_num
  have hbelow : ¬(XReal.fin (binary64.round (n : K))).lt (.fin (3 / 2)) = true := by
    simp only [XReal.lt, decide_eq_true_eq, not_lt]
    exact hround.le
  have hfloor : ⌊(3 / 2 : K)⌋ = 1 := by
    rw [Int.floor_eq_iff]
    norm_num
  unfold nearestIndex
  dsimp only
  rw [hadd, ofExact_natCast hhigh, if_neg hpos, if_neg hbelow,
    toULong_fin (by norm_num) (by norm_num), hfloor]
  rfl

/-- A negative step that is not longer than the range goes below it. -/
lemma hrangeIntNearest_below {max step : ℤ} (hmax : IsLong max) (hnonneg : 0 ≤ max) (hlong : IsLong step)
    (hneg : step < 0) (hle : -step ≤ max) : hrangeIntNearest K 0 max step step = some step := by
  have hstep : -2 ^ 63 ≤ step := hlong.1
  have hmaxlt : max < 2 ^ 63 := hmax.2
  have hquot : max.tdiv step = -(max / -step) := by
    rw [← Int.tdiv_eq_ediv_of_nonneg hnonneg, Int.tdiv_neg, neg_neg]
  have hone : 1 ≤ max / -step := (Int.le_ediv_iff_mul_le (by omega)).mpr (by omega)
  have hself : max / -step ≤ max := Int.ediv_le_self _ hnonneg
  -- the negative quotient becomes a great index
  obtain ⟨n, hn, hnlow, hnhigh⟩ : ∃ n : ℕ,
      hrangeIntMaxIdx 0 max step = some n ∧ 2 ^ 63 ≤ n ∧ n ≤ 2 ^ 64 := by
    refine ⟨_, hrangeIntMaxIdx_zero hnonneg hmax hneg.ne, ?_, ?_⟩
    · rw [hquot]
      omega
    · rw [hquot]
      omega
  have hsexact : binary64.ofExact (step : K) = .fin (binary64.round (step : K)) := by
    apply ofExact_intCast
    rw [abs_le]
    omega
  have hindex : hrangeIntIndex K 0 max step step = some 1 := by
    unfold hrangeIntIndex
    rw [hn, Option.bind_eq_bind, Option.bind_some, sub_zero, if_neg (not_not.mpr hlong), hsexact]
    dsimp only
    rw [div_round_self hneg.ne]
    exact nearestIndex_one hnlow hnhigh
  rw [hrangeIntNearest_eq hindex, Nat.cast_one, one_mul, Int.bmod_eq_of_le_mul_two (by omega) (by omega)]

omit [IsStrictOrderedRing K] in
/-- The index counts a difference that is a `long`. -/
lemma isLong_of_index {min max step v : ℤ} (h : (hrangeIntIndex K min max step v).isSome) :
    IsLong (v - min) := by
  unfold hrangeIntIndex at h
  cases hmaxIdx : hrangeIntMaxIdx min max step with
  | none =>
    rw [hmaxIdx] at h
    cases h
  | some n =>
    rw [hmaxIdx, Option.bind_eq_bind, Option.bind_some] at h
    by_contra hout
    rw [if_pos hout] at h
    cases h

end Machine

/-- A range that works fits. -/
lemma int_fits {min max step : ℤ} (hmm : min ≤ max) (hmax : IsLong max) (hstep : IsLong step)
    (h : IntWorks K min max step) : IntFits K min max step := by
  obtain ⟨hidx, hworks⟩ := h
  -- the ends of `long` can be counted from zero only
  have hlow : IsLong (-2 ^ 63 - min) := Machine.isLong_of_index (hworks ⟨-2 ^ 63, by decide⟩).1
  have hhigh : IsLong (2 ^ 63 - 1 - min) := Machine.isLong_of_index (hworks ⟨2 ^ 63 - 1, by decide⟩).1
  obtain rfl : min = 0 := by
    unfold IsLong at hlow hhigh
    omega
  have hne : step ≠ 0 := by
    rintro rfl
    unfold Machine.hrangeIntMaxIdx at hidx
    rw [if_pos rfl, ite_self] at hidx
    cases hidx
  refine ⟨rfl, ?_⟩
  obtain hneg | hpos := lt_or_gt_of_ne hne
  · right
    refine ⟨hneg, ?_⟩
    by_contra hle
    obtain ⟨-, x, hx, hxlow, -⟩ := hworks ⟨step, hstep⟩
    rw [Machine.hrangeIntNearest_below hmax hmm hstep hneg (not_lt.mp hle)] at hx
    obtain rfl := Option.some.inj hx
    exact absurd hneg (not_lt.mpr hxlow)
  · left
    refine ⟨hpos, ?_⟩
    by_contra hup
    have hquot : 0 ≤ max / step := Int.ediv_nonneg hmm hpos.le
    have hself : max / step ≤ max := Int.ediv_le_self _ hmm
    have hcast : (((max / step).toNat : ℕ) : ℤ) = max / step := Int.toNat_of_nonneg hquot
    have hcastK : (((max / step).toNat : ℕ) : K) = ((max / step : ℤ) : K) := by
      rw [← Int.cast_natCast, hcast]
    have hn : Machine.hrangeIntMaxIdx 0 max step = some (max / step).toNat := by
      have hlt := hmax.2
      rw [Machine.hrangeIntMaxIdx_zero hmm hmax hne, Int.tdiv_eq_ediv_of_nonneg hmm,
        Int.emod_eq_of_lt hquot (by omega)]
    obtain ⟨x, hx, hout⟩ := Machine.hrangeIntNearest_past (K := K) hn hmax hstep hpos
      (by rw [hcast]; exact Int.ediv_mul_le _ hne)
      (by rw [hcast]; exact Int.lt_ediv_add_one_mul_self _ hpos)
      (by rw [hcastK]; exact not_le.mp hup)
    obtain ⟨-, y, hy, hylow, hyhigh⟩ := hworks ⟨2 ^ 63 - 1, by decide⟩
    rw [hx] at hy
    obtain rfl := Option.some.inj hy
    omega

/-! ## `HVAL_REAL` -/

namespace Machine

omit [IsStrictOrderedRing K] in
/-- A position that is not a number has no index. -/
lemma hrangeRealIndex_nan {min max step v : XReal K}
    (hnan : binary64.div (binary64.sub v min) step = .nan) : hrangeRealIndex min max step v = none := by
  have hnone : ∀ n : ℕ, nearestIndex (.nan : XReal K) n = none := by
    intro n
    cases hn : binary64.ofExact (n : K) <;> simp [nearestIndex, FloatFormat.add, FloatFormat.ofXReal,
      XReal.add, XReal.lt, toULong, hn]
  unfold hrangeRealIndex
  cases hrangeRealMaxIdx min max step with
  | none => rfl
  | some n =>
    rw [Option.bind_eq_bind, Option.bind_some]
    dsimp only
    rw [hnan, hnone, ite_self]

omit [IsStrictOrderedRing K] in
/-- The index divides by the step. -/
lemma hrangeRealIndex_zero (min max v : XReal K) : hrangeRealIndex min max (.fin 0) v = none := by
  have hmaxIdx : hrangeRealMaxIdx min max (.fin 0) = some 0 := by
    apply if_neg
    rw [XReal.lt_irrefl]
    exact Bool.false_ne_true
  unfold hrangeRealIndex
  rw [hmaxIdx, Option.bind_eq_bind, Option.bind_some, if_pos rfl]

/-- The quotient of a range with a positive step. -/
lemma quotient_spec {a s q : K} {max : XReal K} (hs : 0 < s) (hmm : (XReal.fin a).le max = true)
    (hquot : binary64.div (binary64.sub max (.fin a)) (.fin s) = .fin q) :
    binary64.Representable q ∧ 0 ≤ q := by
  have hdiv : ∀ x : K, binary64.div (.fin x) (.fin s) = binary64.ofExact (x / s) := by
    intro x
    unfold FloatFormat.div
    rw [XReal.div_fin hs.ne']
    rfl
  have hinf : binary64.div .posInf (.fin s) = .posInf := by
    show binary64.ofXReal (XReal.infOf s) = .posInf
    unfold XReal.infOf
    rw [if_neg (not_lt.mpr hs.le)]
    rfl
  cases max with
  | nan => cases hmm
  | negInf => cases hmm
  | posInf =>
    have hsub : binary64.sub .posInf (.fin a) = .posInf := rfl
    rw [hsub, hinf] at hquot
    cases hquot
  | fin b =>
    have hab : 0 ≤ b - a := sub_nonneg.mpr (of_decide_eq_true hmm)
    have hsub : binary64.sub (.fin b) (.fin a) = binary64.ofExact (b - a) := by
      rw [sub_eq_add_neg]
      rfl
    rw [hsub] at hquot
    cases hd : binary64.ofExact (b - a) with
    | nan => rw [hd] at hquot; cases hquot
    | negInf =>
      have hle := FloatFormat.ofExact_le binary64 hab
      rw [hd, FloatFormat.ofExact_zero] at hle
      cases hle
    | posInf =>
      rw [hd, hinf] at hquot
      cases hquot
    | fin d =>
      rw [hd, hdiv] at hquot
      obtain ⟨rfl, -⟩ := FloatFormat.ofExact_eq_fin hd
      obtain ⟨rfl, -⟩ := FloatFormat.ofExact_eq_fin hquot
      exact ⟨FloatFormat.round_representable _ _, round_nonneg (div_nonneg (round_nonneg hab) hs.le)⟩

/-- The greatest index of a quotient, and the same as a `double`. -/
lemma toULong_quotient {q : K} (hrep : binary64.Representable q) (hnonneg : 0 ≤ q) (hlt : q < 2 ^ 64) :
    ∃ n : ℕ, toULong (.fin q) = some n ∧ (n : K) = ⌊q⌋ ∧ n ≤ 2 ^ 64 ∧
      binary64.ofExact (n : K) = .fin (n : K) := by
  have hfloor : 0 ≤ ⌊q⌋ := Int.floor_nonneg.mpr hnonneg
  have hcast : ((⌊q⌋.toNat : ℕ) : K) = ⌊q⌋ := by rw [← Int.cast_natCast, Int.toNat_of_nonneg hfloor]
  have hle : (⌊q⌋.toNat : K) < 2 ^ 64 := by
    rw [hcast]
    exact (Int.floor_le q).trans_lt hlt
  have hnat : ⌊q⌋.toNat ≤ 2 ^ 64 := by exact_mod_cast hle.le
  refine ⟨⌊q⌋.toNat, toULong_fin hnonneg hlt, hcast, hnat, ?_⟩
  rw [ofExact_natCast hnat, hcast, FloatFormat.round_eq_self (hrep.floor binary64_emin hnonneg)]

/-- The index of a number, counted from a finite bound with a finite step. -/
lemma hrangeRealIndex_spec {a s d : K} {max v : XReal K} {n : ℕ} (hs : s ≠ 0) (hv : v ≠ .nan)
    (hmaxIdx : hrangeRealMaxIdx (.fin a) max (.fin s) = some n) (hn : binary64.ofExact (n : K) = .fin d)
    (hd : 0 ≤ d) (hhigh : d < 2 ^ 64) :
    ∃ i, hrangeRealIndex (.fin a) max (.fin s) v = some i ∧ (i : K) ≤ d ∧
      ((XReal.fin d).le (binary64.add (binary64.div (binary64.sub v (.fin a)) (.fin s)) (.fin (1 / 2))) =
        true → i = ⌊d⌋.toNat) := by
  have hsub : binary64.sub v (.fin a) ≠ .nan := FloatFormat.ofXReal_ne_nan (XReal.sub_fin_ne_nan hv a)
  have hidx : binary64.div (binary64.sub v (.fin a)) (.fin s) ≠ .nan :=
    FloatFormat.ofXReal_ne_nan (XReal.div_fin_ne_nan hsub hs)
  have hstep : ¬XReal.fin s = .fin 0 := by simpa using hs
  obtain ⟨i, hi, hle, hend⟩ := nearestIndex_spec hidx hn hd hhigh
  refine ⟨i, ?_, hle, hend⟩
  unfold hrangeRealIndex
  rw [hmaxIdx, Option.bind_eq_bind, Option.bind_some, if_neg hstep]
  exact hi

omit [IsStrictOrderedRing K] in
/-- The nearest point, from its index. -/
lemma hrangeRealNearest_eq {min max step v : XReal K} {i : ℕ} (hstep : XReal.lt (.fin 0) step = true)
    (hi : hrangeRealIndex min max step v = some i) :
    hrangeRealNearest min max step v =
      some (binary64.add min (binary64.mul (binary64.ofExact (i : K)) step)) := by
  unfold hrangeRealNearest
  rw [if_pos hstep, hi]
  rfl

/-- The points of a real range are in order. -/
lemma point_mono {a s x y : K} (hs : 0 < s) (hxy : x ≤ y) :
    (binary64.add (.fin a) (binary64.mul (.fin x) (.fin s))).le
      (binary64.add (.fin a) (binary64.mul (.fin y) (.fin s))) = true :=
  FloatFormat.ofXReal_le _ (XReal.add_le_add_left
    (FloatFormat.ofXReal_le _ (XReal.mul_le_mul_right hxy hs.le)) a)

/-- The first point is the lower bound. -/
lemma point_zero {a s : K} (ha : binary64.ofXReal (.fin a) = .fin a) :
    binary64.add (.fin a) (binary64.mul (.fin 0) (.fin s)) = .fin a := by
  have hmul : binary64.mul (.fin 0) (.fin s) = .fin 0 := by
    show binary64.ofExact (0 * s) = .fin 0
    rw [zero_mul, FloatFormat.ofExact_zero]
  rw [hmul]
  show binary64.ofXReal (.fin (a + 0)) = .fin a
  rw [add_zero]
  exact ha

omit [Field K] [FloorRing K] [IsStrictOrderedRing K] in
/-- What the comparisons of `hrange_real_nearest` leave of a number. -/
lemma bounds_spec {min max v : XReal K} (hmm : min.le max = true) (hmin : min ≠ .nan) (hmax : max ≠ .nan)
    (hv : v ≠ .nan) :
    min.le (if max.lt (if v.lt min then min else v) then max else if v.lt min then min else v) = true ∧
      (if max.lt (if v.lt min then min else v) then max else if v.lt min then min else v).le max = true := by
  have hself : ∀ x : XReal K, x ≠ .nan → x.le x = true := by
    intro x hx
    exact XReal.le_of_not_lt hx hx (by rw [XReal.lt_irrefl]; exact Bool.false_ne_true)
  by_cases hlow : v.lt min = true
  · rw [if_pos hlow]
    split_ifs with hover
    · exact ⟨hmm, hself max hmax⟩
    · exact ⟨hself min hmin, hmm⟩
  · rw [if_neg hlow]
    split_ifs with hover
    · exact ⟨hmm, hself max hmax⟩
    · exact ⟨XReal.le_of_not_lt hmin hv hlow, XReal.le_of_not_lt hv hmax hover⟩

end Machine

/-- A real range that fits works. -/
lemma real_works {min max step : XReal K} (hmin_double : binary64.ofXReal min = min)
    (hle : min.le max = true) (h : RealFits min max step) : RealWorks min max step := by
  obtain ⟨hmax, a, s, rfl, rfl, hs, hpos⟩ := h
  obtain hsneg | hspos := lt_or_gt_of_ne hs
  · -- no positive step: the only index is zero, and the bounds cut the value
    have hlt : ¬XReal.lt (.fin 0) (.fin s) = true := by simpa [XReal.lt] using hsneg.le
    have hmaxIdx : Machine.hrangeRealMaxIdx (.fin a) max (.fin s) = some 0 := if_neg hlt
    have hzero : binary64.ofExact ((0 : ℕ) : K) = .fin 0 := by
      rw [Nat.cast_zero]
      exact FloatFormat.ofExact_zero _
    refine ⟨by rw [hmaxIdx]; rfl, ?_⟩
    intro v hv
    obtain ⟨i, hi, -⟩ := Machine.hrangeRealIndex_spec hs hv hmaxIdx hzero (le_refl 0) (by positivity)
    have hcut := Machine.bounds_spec hle (by simp) hmax hv
    refine ⟨by rw [hi]; rfl, _, ?_, hcut.1, hcut.2⟩
    unfold Machine.hrangeRealNearest
    rw [if_neg hlt]
  · have hlt : XReal.lt (.fin 0) (.fin s) = true := decide_eq_true hspos
    obtain ⟨q, hquot, hq, hlast⟩ := hpos hspos
    obtain ⟨hrep, hqnonneg⟩ := Machine.quotient_spec hspos hle hquot
    obtain ⟨n, hn, hcast, hsize, hexact⟩ := Machine.toULong_quotient hrep hqnonneg hq
    have hmaxIdx : Machine.hrangeRealMaxIdx (.fin a) max (.fin s) = some n := by
      unfold Machine.hrangeRealMaxIdx
      rw [if_pos hlt, hquot, hn]
    have hnlt : (n : K) < 2 ^ 64 := by
      rw [hcast]
      exact (Int.floor_le q).trans_lt hq
    rw [← hcast, hexact] at hlast
    refine ⟨by rw [hmaxIdx]; rfl, ?_⟩
    intro v hv
    obtain ⟨i, hi, hin, -⟩ := Machine.hrangeRealIndex_spec hs hv hmaxIdx hexact n.cast_nonneg hnlt
    have hile : i ≤ 2 ^ 64 := le_trans (by exact_mod_cast hin) hsize
    have hround := FloatFormat.round_mono (f := binary64) hin
    rw [(FloatFormat.ofExact_eq_fin hexact).1] at hround
    refine ⟨by rw [hi]; rfl, _, Machine.hrangeRealNearest_eq hlt hi, ?_, ?_⟩
    · rw [ofExact_natCast hile]
      have hfirst := Machine.point_mono (a := a) hspos (round_nonneg (K := K) i.cast_nonneg)
      rw [Machine.point_zero hmin_double] at hfirst
      exact hfirst
    · rw [ofExact_natCast hile]
      exact XReal.le_trans (Machine.point_mono hspos hround) hlast

/-- A real range that works fits. -/
lemma real_fits {min max step : Double K} (hle : min.val.le max.val = true)
    (h : RealWorks min.val max.val step.val) : RealFits min.val max.val step.val := by
  obtain ⟨hidx, hworks⟩ := h
  have hmax : max.val ≠ .nan := by
    intro hnan
    rw [hnan] at hle
    cases hmin : min.val <;> rw [hmin] at hle <;> cases hle
  -- no value may have a position that is not a number
  have hnumber : ∀ v : Double K, v.val ≠ .nan →
      binary64.div (binary64.sub v.val min.val) step.val ≠ .nan := by
    intro v hv hnan
    have hsome := (hworks v hv).1
    rw [Machine.hrangeRealIndex_nan hnan] at hsome
    cases hsome
  let top : Double K := ⟨.posInf, rfl⟩
  let bottom : Double K := ⟨.negInf, rfl⟩
  have htop := hnumber top (by simp [top])
  have hbottom := hnumber bottom (by simp [bottom])
  obtain ⟨a, ha⟩ : ∃ a, min.val = .fin a := by
    cases hmin : min.val with
    | fin a => exact ⟨a, rfl⟩
    | nan =>
      rw [hmin] at hle
      cases hle
    | negInf =>
      rw [hmin] at hbottom
      exact absurd rfl hbottom
    | posInf =>
      rw [hmin] at htop
      exact absurd rfl htop
  rw [ha] at htop hidx hle hnumber hworks ⊢
  have hsub : binary64.sub top.val (.fin a) = .posInf := rfl
  rw [hsub] at htop
  obtain ⟨s, hs⟩ : ∃ s, step.val = .fin s := by
    cases hstep : step.val with
    | fin s => exact ⟨s, rfl⟩
    | nan =>
      rw [hstep] at htop
      exact absurd rfl htop
    | negInf =>
      rw [hstep] at htop
      exact absurd rfl htop
    | posInf =>
      rw [hstep] at htop
      exact absurd rfl htop
  rw [hs] at hidx hworks ⊢
  refine ⟨hmax, a, s, rfl, rfl, ?_, ?_⟩
  · rintro rfl
    have hsome := (hworks top (by simp [top])).1
    rw [Machine.hrangeRealIndex_zero] at hsome
    cases hsome
  · intro hpos
    have hlt : XReal.lt (.fin 0) (.fin s) = true := decide_eq_true hpos
    obtain ⟨q, hquot, hq⟩ : ∃ q, binary64.div (binary64.sub max.val (.fin a)) (.fin s) = .fin q ∧
        q < 2 ^ 64 := by
      unfold Machine.hrangeRealMaxIdx at hidx
      rw [if_pos hlt] at hidx
      cases hq : binary64.div (binary64.sub max.val (.fin a)) (.fin s) with
      | fin q =>
        refine ⟨q, rfl, ?_⟩
        rw [hq, Machine.toULong] at hidx
        by_contra hout
        rw [if_neg (fun hin => hout hin.2)] at hidx
        cases hidx
      | _ =>
        rw [hq] at hidx
        cases hidx
    obtain ⟨hrep, hqnonneg⟩ := Machine.quotient_spec hpos hle hquot
    obtain ⟨n, hn, hcast, hsize, hexact⟩ := Machine.toULong_quotient hrep hqnonneg hq
    have hmaxIdx : Machine.hrangeRealMaxIdx (.fin a) max.val (.fin s) = some n := by
      unfold Machine.hrangeRealMaxIdx
      rw [if_pos hlt, hquot, hn]
    have hnle : (n : K) ≤ q := by
      rw [hcast]
      exact Int.floor_le q
    obtain ⟨i, hi, -, hend⟩ := Machine.hrangeRealIndex_spec hpos.ne' hmax hmaxIdx hexact n.cast_nonneg
      (hnle.trans_lt hq)
    -- the upper bound has the last index
    have hlast : i = n := by
      have hup := FloatFormat.ofExact_le binary64 (show (n : K) ≤ q + 1 / 2 by linarith)
      rw [hexact] at hup
      rw [hquot] at hend
      have hfloor := hend hup
      rw [Int.floor_natCast, Int.toNat_natCast] at hfloor
      exact hfloor
    obtain ⟨-, x, hx, -, hxle⟩ := hworks max hmax
    rw [Machine.hrangeRealNearest_eq hlt hi, hlast] at hx
    obtain rfl := Option.some.inj hx
    rw [hcast] at hxle
    exact ⟨q, hquot, hq, hxle⟩

end

end ActiveHarmony

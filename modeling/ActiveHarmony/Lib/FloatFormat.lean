import ActiveHarmony.Lib.NearestPoint
import ActiveHarmony.Lib.XReal
import Mathlib.Algebra.Order.Field.Power
import Mathlib.Algebra.Order.Floor.Ring
import Mathlib.Data.Int.Log
import Mathlib.Tactic.Ring

/-!
# Binary floating-point formats

The numbers `m * 2 ^ e` with a bounded significand `m` and a least exponent `e`, in an ordered field, and the
rounding of an element of the field to a nearest one of them, with ties to the even significand. The values of
a format are its numbers below `2 ^ emax`, the infinities and `nan`; an operation rounds the exact result.
-/

/-- A binary format: the bits of the fraction, the least exponent and the exponent of overflow. -/
structure FloatFormat where
  fraction : ℕ
  emin : ℤ
  emax : ℕ

namespace FloatFormat

variable {K : Type} [Field K] [LinearOrder K]

/-- The numbers of a format. -/
def Representable (f : FloatFormat) (x : K) : Prop :=
  ∃ m e : ℤ, |m| ≤ 2 ^ (f.fraction + 1) ∧ f.emin ≤ e ∧ x = m * 2 ^ e

variable [FloorRing K]

/-- A nearest integer, ties to even. -/
def roundEven (q : K) : ℤ :=
  let k := ⌊q⌋
  if q - k < 1 / 2 then k
  else if 1 / 2 < q - k then k + 1
  else if k % 2 = 0 then k
  else k + 1

/-- The exponent of the last digit of a rounded number. -/
def exponent (f : FloatFormat) (x : K) : ℤ := max f.emin (Int.log 2 |x| - f.fraction)

/-- A nearest number of the format. -/
def round (f : FloatFormat) (x : K) : K := roundEven (x / 2 ^ f.exponent x) * 2 ^ f.exponent x

/-- The value of an exact result. -/
def ofExact (f : FloatFormat) (x : K) : XReal K :=
  if |f.round x| < 2 ^ f.emax then .fin (f.round x) else XReal.infOf x

/-- The value of a result that may be an exception. -/
def ofXReal (f : FloatFormat) : XReal K → XReal K
  | .fin x => f.ofExact x
  | .nan => .nan
  | .negInf => .negInf
  | .posInf => .posInf

/-- `x + y` -/
def add (f : FloatFormat) (x y : XReal K) : XReal K := f.ofXReal (x.add y)

/-- `x - y` -/
def sub (f : FloatFormat) (x y : XReal K) : XReal K := f.ofXReal (x.sub y)

/-- `x * y` -/
def mul (f : FloatFormat) (x y : XReal K) : XReal K := f.ofXReal (x.mul y)

/-- `x / y` -/
def div (f : FloatFormat) (x y : XReal K) : XReal K := f.ofXReal (x.div y)

variable [IsStrictOrderedRing K] {f : FloatFormat} {x y z : K}

/-! ## The nearest number -/

lemma roundEven_error (q : K) : |(roundEven q : K) - q| ≤ 1 / 2 := by
  have hlow := Int.floor_le q
  have hhigh := Int.lt_floor_add_one q
  unfold roundEven
  dsimp only
  split_ifs with hdown hup heven
  · rw [abs_le]
    constructor
    · linarith
    · linarith
  · push_cast
    rw [abs_le]
    constructor
    · linarith
    · linarith
  · rw [abs_le]
    constructor
    · linarith
    · linarith
  · push_cast
    rw [abs_le]
    constructor
    · linarith
    · linarith

/-- No integer is nearer. -/
lemma roundEven_minimal (q : K) (k : ℤ) : |(roundEven q : K) - q| ≤ |(k : K) - q| := by
  obtain heq | hne := eq_or_ne k (roundEven q)
  · rw [heq]
  · have hone : 1 ≤ |k - roundEven q| := Int.one_le_abs (sub_ne_zero.mpr hne)
    have hcast : (1 : K) ≤ |(k : K) - roundEven q| := by exact_mod_cast hone
    have hsum := abs_sub_le (k : K) q (roundEven q)
    rw [abs_sub_comm q] at hsum
    linarith [roundEven_error q]

omit [FloorRing K] in
lemma two_zpow_pos (e : ℤ) : (0 : K) < 2 ^ e := zpow_pos two_pos e

omit [FloorRing K] in
lemma abs_two_zpow (e : ℤ) : |(2 : K) ^ e| = 2 ^ e := abs_of_pos (two_zpow_pos e)

/-- No multiple of the last digit is nearer. -/
lemma round_minimal_multiple (f : FloatFormat) (x : K) (k : ℤ) :
    |f.round x - x| ≤ |k * 2 ^ f.exponent x - x| := by
  have hpos : (0 : K) < 2 ^ f.exponent x := two_zpow_pos _
  have hscale : ∀ n : ℤ,
      |n * 2 ^ f.exponent x - x| = |(n : K) - x / 2 ^ f.exponent x| * 2 ^ f.exponent x := by
    intro n
    have hsplit : (n : K) * 2 ^ f.exponent x - x = (n - x / 2 ^ f.exponent x) * 2 ^ f.exponent x := by
      rw [sub_mul, div_mul_cancel₀ _ hpos.ne']
    rw [hsplit, abs_mul, abs_of_pos hpos]
  unfold round
  rw [hscale, hscale]
  exact mul_le_mul_of_nonneg_right (roundEven_minimal _ k) hpos.le

/-- A number of the format with a smaller exponent is not above the leading digit of `x`. -/
lemma abs_le_leading (hx : x ≠ 0) {m e : ℤ} (hm : |m| ≤ 2 ^ (f.fraction + 1)) (hmin : f.emin ≤ e)
    (he : e < f.exponent x) :
    |(m : K) * 2 ^ e| ≤ 2 ^ f.fraction * 2 ^ f.exponent x ∧
      (2 : K) ^ f.fraction * 2 ^ f.exponent x ≤ |x| := by
  have hexp : f.exponent x = Int.log 2 |x| - f.fraction := by
    unfold exponent at he ⊢
    omega
  constructor
  · have hcast : |(m : K)| ≤ 2 ^ (f.fraction + 1) := by exact_mod_cast hm
    have hle : (2 : K) ^ e ≤ 2 ^ (f.exponent x - 1) := zpow_le_zpow_right₀ one_le_two (by omega)
    calc |(m : K) * 2 ^ e| = |(m : K)| * 2 ^ e := by rw [abs_mul, abs_two_zpow]
      _ ≤ 2 ^ (f.fraction + 1) * 2 ^ (f.exponent x - 1) :=
        mul_le_mul hcast hle (two_zpow_pos e).le (by positivity)
      _ = 2 ^ f.fraction * 2 ^ f.exponent x := by
        rw [zpow_sub_one₀ two_ne_zero, pow_succ]
        ring
  · have hlog : ((2 : ℕ) : K) ^ Int.log 2 |x| ≤ |x| := Int.zpow_log_le_self (by decide) (abs_pos.mpr hx)
    calc (2 : K) ^ f.fraction * 2 ^ f.exponent x = 2 ^ Int.log 2 |x| := by
          rw [hexp, ← zpow_natCast, ← zpow_add₀ two_ne_zero]
          congr 1
          omega
      _ ≤ |x| := by exact_mod_cast hlog

/-- No number of the format is nearer. -/
lemma round_minimal (x : K) (hy : f.Representable y) : |f.round x - x| ≤ |y - x| := by
  obtain ⟨m, e, hm, hmin, rfl⟩ := hy
  obtain hge | hlt := le_or_gt (f.exponent x) e
  · -- a multiple of the last digit
    have hmul : (m : K) * 2 ^ e = ((m * 2 ^ (e - f.exponent x).toNat : ℤ) : K) * 2 ^ f.exponent x := by
      push_cast
      rw [mul_assoc, ← zpow_natCast, ← zpow_add₀ two_ne_zero]
      congr 2
      omega
    rw [hmul]
    exact round_minimal_multiple f x _
  · obtain rfl | hx := eq_or_ne x 0
    · have hzero := round_minimal_multiple f (0 : K) 0
      rw [Int.cast_zero, zero_mul, sub_self, abs_zero] at hzero
      exact hzero.trans (abs_nonneg _)
    · -- between `x` and the number there is the leading digit of `x`
      obtain ⟨hylead, hlead⟩ := abs_le_leading hx hm hmin hlt
      obtain ⟨hlow, hhigh⟩ := abs_le.mp hylead
      obtain hneg | hpos := lt_or_gt_of_ne hx
      · have hnear := round_minimal_multiple f x (-2 ^ f.fraction)
        push_cast at hnear
        rw [abs_of_neg hneg] at hlead
        refine hnear.trans ?_
        rw [abs_of_nonneg (by linarith), abs_of_nonneg (by linarith)]
        linarith
      · have hnear := round_minimal_multiple f x (2 ^ f.fraction)
        push_cast at hnear
        rw [abs_of_pos hpos] at hlead
        refine hnear.trans ?_
        rw [abs_of_nonpos (by linarith), abs_of_nonpos (by linarith)]
        linarith

lemma round_representable (f : FloatFormat) (x : K) : f.Representable (f.round x) := by
  refine ⟨roundEven (x / 2 ^ f.exponent x), f.exponent x, ?_, le_max_left _ _, rfl⟩
  have hlog : |x| < ((2 : ℕ) : K) ^ (Int.log 2 |x| + 1) := Int.lt_zpow_succ_log_self (by decide) |x|
  have hsize : |x / 2 ^ f.exponent x| ≤ 2 ^ (f.fraction + 1) := by
    rw [abs_div, abs_two_zpow, div_le_iff₀ (two_zpow_pos _)]
    calc |x| ≤ 2 ^ (Int.log 2 |x| + 1) := by exact_mod_cast hlog.le
      _ ≤ 2 ^ ((f.fraction + 1 : ℕ) + f.exponent x : ℤ) := by
        apply zpow_le_zpow_right₀ one_le_two
        have hmax : Int.log 2 |x| - f.fraction ≤ f.exponent x := le_max_right _ _
        omega
      _ = 2 ^ (f.fraction + 1) * 2 ^ f.exponent x := by rw [zpow_add₀ two_ne_zero, zpow_natCast]
  have herr := roundEven_error (x / 2 ^ f.exponent x)
  have hbound : |((roundEven (x / 2 ^ f.exponent x) : ℤ) : K)| < 2 ^ (f.fraction + 1) + 1 := by
    have hsum := abs_add_le (roundEven (x / 2 ^ f.exponent x) - x / 2 ^ f.exponent x : K)
      (x / 2 ^ f.exponent x)
    rw [sub_add_cancel] at hsum
    linarith
  have hint : |roundEven (x / 2 ^ f.exponent x)| < 2 ^ (f.fraction + 1) + 1 := by exact_mod_cast hbound
  exact Int.lt_add_one_iff.mp hint

/-! ## Rounding as a function -/

lemma round_eq_self (hx : f.Representable x) : f.round x = x := by
  have hle := round_minimal x hx
  rw [sub_self, abs_zero] at hle
  exact sub_eq_zero.mp (abs_eq_zero.mp (le_antisymm hle (abs_nonneg _)))

lemma round_mono (hxy : x ≤ y) : f.round x ≤ f.round y := by
  by_contra hlt
  rw [not_le] at hlt
  have hx := NearestPoint.middle_le hlt (round_minimal x (round_representable f y))
  have hy := NearestPoint.le_middle hlt (round_minimal y (round_representable f x))
  have heq : x = y := by linarith
  rw [heq] at hlt
  exact absurd hlt (lt_irrefl _)

/-! ## Numbers of a format -/

omit [LinearOrder K] [FloorRing K] [IsStrictOrderedRing K] in
lemma representable_intCast (hmin : f.emin ≤ 0) {n : ℤ} (hn : |n| ≤ 2 ^ (f.fraction + 1)) :
    f.Representable (n : K) := by
  refine ⟨n, 0, hn, hmin, ?_⟩
  rw [zpow_zero, mul_one]

omit [LinearOrder K] [FloorRing K] [IsStrictOrderedRing K] in
lemma representable_two_pow (hmin : f.emin ≤ 0) (k : ℕ) : f.Representable ((2 : K) ^ k) := by
  refine ⟨1, k, ?_, by omega, ?_⟩
  · rw [abs_one]
    exact one_le_pow₀ (by decide)
  · rw [Int.cast_one, one_mul, zpow_natCast]

omit [LinearOrder K] [FloorRing K] [IsStrictOrderedRing K] in
lemma Representable.neg (hx : f.Representable x) : f.Representable (-x) := by
  obtain ⟨m, e, hm, hmin, rfl⟩ := hx
  refine ⟨-m, e, by rwa [abs_neg], hmin, ?_⟩
  rw [Int.cast_neg, neg_mul]

/-- Numbers that have digits after the point are small. -/
lemma Representable.floor_eq_or_lt (hx : f.Representable x) :
    (⌊x⌋ : K) = x ∨ |x| < 2 ^ (f.fraction + 1) := by
  obtain ⟨m, e, hm, hmin, rfl⟩ := hx
  obtain hge | hlt := le_or_gt 0 e
  · left
    have hint : (m : K) * 2 ^ e = ((m * 2 ^ e.toNat : ℤ) : K) := by
      push_cast
      rw [← zpow_natCast]
      congr 2
      omega
    rw [hint, Int.floor_intCast]
  · right
    have hcast : |(m : K)| ≤ 2 ^ (f.fraction + 1) := by exact_mod_cast hm
    have hsmall : (2 : K) ^ e ≤ 2 ^ (-1 : ℤ) := zpow_le_zpow_right₀ one_le_two (by omega)
    have hhalf : (2 : K) ^ (-1 : ℤ) < 1 := by
      rw [zpow_neg_one]
      exact inv_lt_one_of_one_lt₀ one_lt_two
    have hpow : (0 : K) < 2 ^ (f.fraction + 1) := by positivity
    calc |(m : K) * 2 ^ e| = |(m : K)| * 2 ^ e := by rw [abs_mul, abs_two_zpow]
      _ ≤ 2 ^ (f.fraction + 1) * 2 ^ (-1 : ℤ) := mul_le_mul hcast hsmall (two_zpow_pos e).le hpow.le
      _ < 2 ^ (f.fraction + 1) * 1 := mul_lt_mul_of_pos_left hhalf hpow
      _ = 2 ^ (f.fraction + 1) := mul_one _

/-- The whole part of a number that is not negative. -/
lemma Representable.floor (hmin : f.emin ≤ 0) (hx : f.Representable x) (hnonneg : 0 ≤ x) :
    f.Representable (⌊x⌋ : K) := by
  obtain heq | hlt := hx.floor_eq_or_lt
  · rw [heq]
    exact hx
  · apply representable_intCast hmin
    have hfloor : 0 ≤ ⌊x⌋ := Int.floor_nonneg.mpr hnonneg
    rw [abs_of_nonneg hnonneg] at hlt
    rw [abs_of_nonneg hfloor]
    have hle : (⌊x⌋ : K) ≤ 2 ^ (f.fraction + 1) := (Int.floor_le x).trans hlt.le
    exact_mod_cast hle

/-! ## Values -/

omit [IsStrictOrderedRing K] in
lemma ofExact_eq_fin (h : f.ofExact x = .fin y) : f.round x = y ∧ |f.round x| < 2 ^ f.emax := by
  unfold ofExact XReal.infOf at h
  split_ifs at h with hlt
  exact ⟨XReal.fin.inj h, hlt⟩

omit [IsStrictOrderedRing K] in
lemma ofXReal_ne_nan {v : XReal K} (hv : v ≠ .nan) : f.ofXReal v ≠ .nan := by
  cases v with
  | nan => exact absurd rfl hv
  | negInf => simp [ofXReal]
  | posInf => simp [ofXReal]
  | fin x =>
    show f.ofExact x ≠ .nan
    unfold ofExact XReal.infOf
    split_ifs <;> simp

lemma round_zero (f : FloatFormat) : f.round (0 : K) = 0 := by
  apply round_eq_self
  refine ⟨0, f.emin, ?_, le_refl _, ?_⟩
  · rw [abs_zero]
    positivity
  · rw [Int.cast_zero, zero_mul]

lemma ofExact_zero (f : FloatFormat) : f.ofExact (0 : K) = .fin 0 := by
  unfold ofExact
  rw [round_zero, abs_zero, if_pos (by positivity)]

/-- Rounding an exact result is monotone, with overflow. -/
lemma ofExact_le (f : FloatFormat) (hxy : x ≤ y) : (f.ofExact x).le (f.ofExact y) = true := by
  have hround := round_mono (f := f) hxy
  have hlimit : (0 : K) < 2 ^ f.emax := by positivity
  unfold ofExact
  by_cases hx : |f.round x| < 2 ^ f.emax
  · rw [if_pos hx]
    by_cases hy : |f.round y| < 2 ^ f.emax
    · rw [if_pos hy]
      exact decide_eq_true hround
    · -- `y` overflows upwards
      have hnonneg : ¬y < 0 := by
        intro hneg
        have hzero := round_mono (f := f) hneg.le
        rw [round_zero] at hzero
        rw [abs_of_nonpos hzero] at hy
        linarith [(abs_lt.mp hx).1]
      rw [if_neg hy, XReal.infOf, if_neg hnonneg]
      rfl
  · rw [if_neg hx]
    by_cases hneg : x < 0
    · rw [XReal.infOf, if_pos hneg]
      by_cases hy : |f.round y| < 2 ^ f.emax
      · rw [if_pos hy]
        rfl
      · rw [if_neg hy, XReal.infOf]
        split_ifs <;> rfl
    · -- `x` overflows upwards, and so does `y`
      have hzero := round_mono (f := f) (not_lt.mp hneg)
      rw [round_zero] at hzero
      rw [abs_of_nonneg hzero] at hx
      have hy : ¬|f.round y| < 2 ^ f.emax := by
        rw [abs_of_nonneg (hzero.trans hround)]
        linarith
      rw [if_neg hy, XReal.infOf, XReal.infOf, if_neg hneg, if_neg (by linarith)]
      rfl

lemma ofXReal_le (f : FloatFormat) {u v : XReal K} (huv : u.le v = true) :
    (f.ofXReal u).le (f.ofXReal v) = true := by
  cases u with
  | nan => cases huv
  | negInf =>
    have hv : f.ofXReal v ≠ .nan := by
      apply ofXReal_ne_nan
      rintro rfl
      cases huv
    cases hval : f.ofXReal v with
    | nan => exact absurd hval hv
    | _ => rfl
  | posInf =>
    cases v with
    | posInf => rfl
    | _ => cases huv
  | fin x =>
    cases v with
    | nan => cases huv
    | negInf => cases huv
    | fin y => exact ofExact_le f (of_decide_eq_true huv)
    | posInf =>
      have hx : f.ofXReal (.fin x) ≠ .nan := ofXReal_ne_nan (by simp)
      cases hval : f.ofXReal (.fin x) with
      | nan => exact absurd hval hx
      | _ => rfl

end FloatFormat

import Mathlib.Algebra.Order.Field.Basic
import Mathlib.Algebra.Order.Ring.Cast
import Mathlib.Order.Monotone.Basic
import Mathlib.Tactic.Linarith

/-!
# Nearest points

The point of a set that is nearest to a value, the greater one of two at the same distance. Whatever the set
is, a point of it is nearest to itself, and a greater value does not have a smaller nearest point.
-/

/-- The numeral 2 of a field, as one constant for definitions that compute with it. -/
lemma two_atLeastTwo : Nat.AtLeastTwo 2 := ⟨le_refl 2⟩

/-- `g` is the point of `S` nearest to `v`, ties going up. -/
structure NearestPoint {α : Type} [CommRing α] [LinearOrder α] (S : Set α) (v g : α) : Prop where
  mem : g ∈ S
  minimal : ∀ x ∈ S, |g - v| ≤ |x - v|
  tie : ∀ x ∈ S, |x - v| = |g - v| → x ≤ g

/-- `g` is a point of `S` at the least distance from `v`. -/
structure LeastDistance {α : Type} [CommRing α] [LinearOrder α] (S : Set α) (v g : α) : Prop where
  mem : g ∈ S
  minimal : ∀ x ∈ S, |g - v| ≤ |x - v|

namespace NearestPoint

lemma leastDistance {α : Type} [CommRing α] [LinearOrder α] {S : Set α} {v g : α}
    (h : NearestPoint S v g) : LeastDistance S v g :=
  ⟨h.mem, h.minimal⟩

section

variable {α : Type} [CommRing α] [LinearOrder α] [IsStrictOrderedRing α] {S : Set α} {v w g h : α}

/-- A point of the set is nearest to itself. -/
lemma eq_self (hv : v ∈ S) (hg : NearestPoint S v g) : g = v := by
  have hle := hg.minimal v hv
  rw [sub_self, abs_zero] at hle
  have hzero := abs_eq_zero.mp (le_antisymm hle (abs_nonneg _))
  exact sub_eq_zero.mp hzero

/-- The greater of two points is the nearer one, or as near, only above the middle. -/
lemma middle_le (hlt : h < g) (hnear : |g - v| ≤ |h - v|) : h + g ≤ v + v := by
  by_contra hmid
  rw [not_le] at hmid
  have hpos : 0 < g - v := by linarith
  rw [abs_of_pos hpos] at hnear
  obtain hright | hleft := abs_cases (h - v)
  · linarith [hright.1]
  · linarith [hleft.1]

/-- The lesser of two points is the nearer one, or as near, only below the middle. -/
lemma le_middle (hlt : h < g) (hnear : |h - v| ≤ |g - v|) : v + v ≤ h + g := by
  by_contra hmid
  rw [not_le] at hmid
  have hneg : h - v < 0 := by linarith
  rw [abs_of_neg hneg] at hnear
  obtain hright | hleft := abs_cases (g - v)
  · linarith [hright.1]
  · linarith [hleft.1]

/-- The nearest point is monotone in the value. -/
lemma mono (hvw : v ≤ w) (hg : NearestPoint S v g) (hh : NearestPoint S w h) : g ≤ h := by
  by_contra hlt
  rw [not_le] at hlt
  have hmid := middle_le hlt (hg.minimal h hh.mem)
  -- the value above is past the middle, so `g` is as near to it as `h`
  have hnear : |g - w| ≤ |h - w| := by
    have hneg : h - w < 0 := by linarith
    rw [abs_of_neg hneg, abs_le]
    constructor
    · linarith
    · linarith
  have htie := hh.tie g hg.mem (le_antisymm hnear (hh.minimal g hg.mem))
  exact absurd hlt (not_lt.mpr htie)

end

/-! ## Grids -/

section

variable {K : Type} [Field K] [LinearOrder K] [IsStrictOrderedRing K]

/-- An index that differs from a position by at most one half, the upper half open, or by more only at the
ends of the indices. -/
lemma of_index {x : K} {k n : ℕ} (hk : k ≤ n) (hlow : 0 < k → (k : K) ≤ x + 1 / 2)
    (hhigh : k < n → x + 1 / 2 < k + 1) : NearestPoint {g : K | ∃ j : ℕ, j ≤ n ∧ g = j} x k := by
  -- a smaller index is below the middle, a greater one strictly farther
  have hbelow : ∀ j : ℕ, j < k → |(k : K) - x| ≤ |(j : K) - x| := by
    intro j hj
    have hcast : (j : K) + 1 ≤ k := by exact_mod_cast hj
    have hx := hlow (by omega)
    have hneg : (j : K) - x < 0 := by linarith
    rw [abs_of_neg hneg, abs_le]
    constructor
    · linarith
    · linarith
  have habove : ∀ j : ℕ, j ≤ n → k < j → |(k : K) - x| < |(j : K) - x| := by
    intro j hjn hj
    have hcast : (k : K) + 1 ≤ j := by exact_mod_cast hj
    have hx := hhigh (by omega)
    have hpos : 0 < (j : K) - x := by linarith
    rw [abs_of_pos hpos, abs_lt]
    constructor
    · linarith
    · linarith
  refine ⟨⟨k, hk, rfl⟩, ?_, ?_⟩
  · intro g hg
    obtain ⟨j, hj, rfl⟩ := hg
    obtain hlt | heq | hgt := lt_trichotomy j k
    · exact hbelow j hlt
    · rw [heq]
    · exact (habove j hj hgt).le
  · intro g hg hdist
    obtain ⟨j, hj, rfl⟩ := hg
    by_contra hgt
    have hkj : k < j := by exact_mod_cast not_le.mp hgt
    exact absurd hdist (habove j hj hkj).ne'

/-- A set that is moved and stretched. -/
lemma affine {S : Set K} {x g : K} (a : K) {c : K} (hc : 0 < c) (h : NearestPoint S x g) :
    NearestPoint ((fun y => a + y * c) '' S) (a + x * c) (a + g * c) := by
  have hdist : ∀ y z : K, |a + y * c - (a + z * c)| = |y - z| * c := by
    intro y z
    rw [add_sub_add_left_eq_sub, ← sub_mul, abs_mul, abs_of_pos hc]
  refine ⟨⟨g, h.mem, rfl⟩, ?_, ?_⟩
  · intro y hy
    obtain ⟨z, hz, rfl⟩ := hy
    rw [hdist, hdist]
    exact mul_le_mul_of_nonneg_right (h.minimal z hz) hc.le
  · intro y hy heq
    obtain ⟨z, hz, rfl⟩ := hy
    rw [hdist, hdist] at heq
    have htie := h.tie z hz (mul_right_cancel₀ hc.ne' heq)
    exact add_le_add_right (mul_le_mul_of_nonneg_right htie hc.le) a

/-- Points of integers are nearest when their images are. -/
lemma of_intCast {S : Set ℤ} {v g : ℤ} (h : NearestPoint (Int.cast '' S) (v : K) (g : K)) :
    NearestPoint S v g := by
  have hdist : ∀ y z : ℤ, |(y : K) - z| = ((|y - z| : ℤ) : K) := by
    intro y z
    rw [Int.cast_abs, Int.cast_sub]
  refine ⟨?_, ?_, ?_⟩
  · obtain ⟨y, hy, heq⟩ := h.mem
    obtain rfl := Int.cast_injective heq
    exact hy
  · intro y hy
    have hle := h.minimal y ⟨y, hy, rfl⟩
    rw [hdist, hdist] at hle
    exact_mod_cast hle
  · intro y hy heq
    have hle := h.tie y ⟨y, hy, rfl⟩ (by rw [hdist, hdist, heq])
    exact_mod_cast hle

end

end NearestPoint

/-! ## Indices at the least distance -/

namespace LeastDistance

variable {K : Type} [Field K] [LinearOrder K] [IsStrictOrderedRing K] {x q : K} {k n : ℕ}

/-- An index is at the least distance when it differs from the position by at most one half, or by more only
at the ends of the indices. -/
lemma index_iff (hk : k ≤ n) : LeastDistance {g : K | ∃ j : ℕ, j ≤ n ∧ g = j} x k ↔
    (0 < k → (k : K) ≤ x + 1 / 2) ∧ (k < n → x ≤ k + 1 / 2) := by
  constructor
  · intro h
    constructor
    · intro hpos
      have hcast : ((k - 1 : ℕ) : K) = k - 1 := by
        rw [Nat.cast_sub hpos, Nat.cast_one]
      have hle := h.minimal (k - 1 : ℕ) ⟨k - 1, by omega, rfl⟩
      have hmid := NearestPoint.middle_le (by rw [hcast]; linarith) hle
      linarith
    · intro hlt
      have hle := h.minimal (k + 1 : ℕ) ⟨k + 1, hlt, rfl⟩
      rw [Nat.cast_add, Nat.cast_one] at hle
      have hmid := NearestPoint.le_middle (by linarith) hle
      linarith
  · intro ⟨hlow, hhigh⟩
    refine ⟨⟨k, hk, rfl⟩, ?_⟩
    intro g hg
    obtain ⟨j, hj, rfl⟩ := hg
    obtain hlt | rfl | hgt := lt_trichotomy j k
    · have hcast : (j : K) + 1 ≤ k := by exact_mod_cast hlt
      have hx := hlow (by omega)
      have hneg : (j : K) - x < 0 := by linarith
      rw [abs_of_neg hneg, abs_le]
      constructor
      · linarith
      · linarith
    · exact le_refl _
    · have hcast : (k : K) + 1 ≤ j := by exact_mod_cast hgt
      have hx := hhigh (by omega)
      have hpos : 0 < (j : K) - x := by linarith
      rw [abs_of_pos hpos, abs_le]
      constructor
      · linarith
      · linarith

/-- A set that is moved and stretched. -/
lemma affine_iff {S : Set K} {g : K} (a : K) {c : K} (hc : 0 < c) :
    LeastDistance ((fun y => a + y * c) '' S) (a + x * c) (a + g * c) ↔ LeastDistance S x g := by
  have hdist : ∀ y z : K, |a + y * c - (a + z * c)| = |y - z| * c := by
    intro y z
    rw [add_sub_add_left_eq_sub, ← sub_mul, abs_mul, abs_of_pos hc]
  constructor
  · intro h
    refine ⟨?_, ?_⟩
    · obtain ⟨y, hy, heq⟩ := h.mem
      have hyg := mul_right_cancel₀ hc.ne' (add_left_cancel heq)
      rw [← hyg]
      exact hy
    · intro y hy
      have hle := h.minimal _ ⟨y, hy, rfl⟩
      rw [hdist, hdist] at hle
      exact le_of_mul_le_mul_right hle hc
  · intro h
    refine ⟨⟨g, h.mem, rfl⟩, ?_⟩
    intro y hy
    obtain ⟨z, hz, rfl⟩ := hy
    rw [hdist, hdist]
    exact mul_le_mul_of_nonneg_right (h.minimal z hz) hc.le

/-- The index nearest to `q` is at the least distance from `x` unless the middle of two neighbouring indices
is between `q` and `x`. A middle belongs to the index above it. -/
lemma iff_no_middle (hk : k ≤ n) (hlow : 0 < k → (k : K) ≤ q + 1 / 2)
    (hhigh : k < n → q + 1 / 2 < k + 1) :
    LeastDistance {g : K | ∃ j : ℕ, j ≤ n ∧ g = j} x k ↔
      ∀ j : ℕ, j < n → ¬((q < j + 1 / 2 ∧ (j : K) + 1 / 2 < x) ∨ (x < j + 1 / 2 ∧ (j : K) + 1 / 2 ≤ q)) := by
  rw [index_iff hk]
  constructor
  · intro ⟨hx, hx'⟩ j hj hbetween
    obtain ⟨hq, hjx⟩ | ⟨hjx, hq⟩ := hbetween
    · -- the index of `q` is at most `j`
      have hkj : k ≤ j := by
        by_contra hgt
        have hcast : (j : K) + 1 ≤ k := by exact_mod_cast not_le.mp hgt
        have hle := hlow (by omega)
        linarith
      have hcast : (k : K) ≤ j := by exact_mod_cast hkj
      have hle := hx' (by omega)
      linarith
    · -- the index of `q` is above `j`
      have hjk : j < k := by
        by_contra hle
        have hcast : (k : K) ≤ j := by exact_mod_cast not_lt.mp hle
        have hlt := hhigh (by omega)
        linarith
      have hcast : (j : K) + 1 ≤ k := by exact_mod_cast hjk
      have hle := hx (by omega)
      linarith
  · intro h
    constructor
    · intro hpos
      by_contra hlt
      have hcast : ((k - 1 : ℕ) : K) = k - 1 := by
        rw [Nat.cast_sub hpos, Nat.cast_one]
      have hle := hlow hpos
      apply h (k - 1) (by omega)
      rw [hcast]
      right
      constructor
      · linarith
      · linarith
    · intro hkn
      by_contra hlt
      have hq := hhigh hkn
      apply h k hkn
      left
      constructor
      · linarith
      · linarith

end LeastDistance

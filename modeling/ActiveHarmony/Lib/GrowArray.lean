import Mathlib.Algebra.Order.Ring.Int
import Mathlib.Data.Int.Basic
import Mathlib.Logic.Function.Basic
import Mathlib.Tactic.Common

/-!
# Arrays that grow by doubling

An array in allocated memory, with its capacity and the number of bytes behind it. It is grown by a routine
that is told the size of an element, and computes the size of the memory in 32-bit arithmetic. `Exact` is the
invariant of an array that is always grown with one size: its memory is as large as its capacity asks for.
-/

namespace GrowArray

/-- The capacity of an array, and the size of its memory. -/
structure Block where
  cap : ℕ
  bytes : ℕ
deriving DecidableEq, Repr

/-- `n * elem` in 32-bit arithmetic, as an unsigned number of 64 bits. -/
@[irreducible]
def byteCount (n elem : ℕ) : ℕ := (Int.bmod ((n * elem : ℕ) : ℤ) (2 ^ 32) % ((2 ^ 64 : ℕ) : ℤ)).toNat

namespace Block

/-- No memory. -/
def empty : Block := { cap := 0, bytes := 0 }

/-- The capacity after the next growth. -/
def nextCap (b : Block) : ℕ := if 8 ≤ b.cap then 2 * b.cap else 8

/-- The array is grown. -/
def grow (elem : ℕ) (b : Block) : Block := { cap := b.nextCap, bytes := byteCount b.nextCap elem }

/-- The memory has room for as many elements as the capacity says. -/
def Covers (elem : ℕ) (b : Block) : Prop := b.cap * elem ≤ b.bytes

/-- There are allocations of this size: none is larger than the largest difference of two addresses. -/
def Allocated (b : Block) : Prop := b.bytes < 2 ^ 63

instance (b : Block) : Decidable b.Allocated := inferInstanceAs (Decidable (_ < _))

/-- The memory has the size that the capacity asks for, and the size was computed without overflow. -/
structure Exact (elem : ℕ) (b : Block) : Prop where
  bytes_eq : b.bytes = b.cap * elem
  small : b.cap * elem < 2 ^ 31

end Block

/-! ## The size of the memory -/

variable {n elem : ℕ}

lemma byteCount_of_small (h : n * elem < 2 ^ 31) : byteCount n elem = n * elem := by
  unfold byteCount
  generalize n * elem = product at h
  rw [Int.bmod_def]
  omega

/-- A product that overflows is too large to be allocated, or too small. -/
lemma byteCount_le (h : byteCount n elem < 2 ^ 63) : byteCount n elem ≤ n * elem := by
  unfold byteCount at h ⊢
  generalize n * elem = product at h
  rw [Int.bmod_def] at h ⊢
  omega

/-- A product that overflows once is too large. -/
lemma small_of_allocated (hlt : n * elem < 2 ^ 32) (h : byteCount n elem < 2 ^ 63) :
    n * elem < 2 ^ 31 := by
  unfold byteCount at h
  generalize n * elem = product at h hlt
  rw [Int.bmod_def] at h
  omega

/-! ## Arrays that are grown with one size -/

namespace Block

variable {b : Block} {elem' : ℕ}

lemma empty_exact : empty.Exact elem where
  bytes_eq := (Nat.zero_mul elem).symm
  small := by
    rw [empty, Nat.zero_mul]
    exact Nat.two_pow_pos 31

@[simp]
lemma grow_cap : (b.grow elem).cap = b.nextCap := rfl

@[simp]
lemma grow_bytes : (b.grow elem).bytes = byteCount b.nextCap elem := rfl

lemma lt_nextCap : b.cap < b.nextCap := by
  unfold nextCap
  split_ifs
  all_goals omega

lemma Exact.covers (h : b.Exact elem) (hle : elem' ≤ elem) : b.Covers elem' := by
  unfold Covers
  rw [h.bytes_eq]
  exact Nat.mul_le_mul_left b.cap hle

/-- What is allocated for less than twice the largest number has the right size. -/
lemma grow_exact (hlt : b.nextCap * elem < 2 ^ 32) (h : (b.grow elem).Allocated) :
    (b.grow elem).Exact elem := by
  unfold Allocated at h
  rw [grow_bytes] at h
  have hsmall := small_of_allocated hlt h
  exact { bytes_eq := byteCount_of_small hsmall, small := hsmall }

/-- Doubling never overflows twice. -/
lemma Exact.grow (h : b.Exact elem) (helem : elem < 2 ^ 28) (halloc : (b.grow elem).Allocated) :
    (b.grow elem).Exact elem := by
  apply grow_exact _ halloc
  have hsmall := h.small
  unfold nextCap
  split_ifs
  · rw [Nat.mul_assoc]
    omega
  · omega

/-- An array that is grown for smaller elements than it has is not covered. -/
lemma not_covers_grow (hless : elem < elem') (halloc : (b.grow elem).Allocated) :
    ¬ (b.grow elem).Covers elem' := by
  intro hcovers
  unfold Allocated at halloc
  unfold Covers at hcovers
  rw [grow_bytes] at halloc hcovers
  rw [grow_cap] at hcovers
  have hle := byteCount_le halloc
  have hpos : 0 < b.nextCap := Nat.zero_lt_of_lt lt_nextCap
  have hlt : b.nextCap * elem < b.nextCap * elem' := Nat.mul_lt_mul_of_pos_left hless hpos
  omega

end Block

/-! ## Several arrays -/

/-- The memory of several arrays. -/
abbrev Arrays (ι : Type) := ι → Block

namespace Arrays

variable {ι : Type} {size : ι → ℕ} {m : Arrays ι} {i : ι}

/-- One of the arrays is grown, by the size that is used for it. -/
def grow [DecidableEq ι] (size : ι → ℕ) (m : Arrays ι) (i : ι) : Arrays ι :=
  Function.update m i ((m i).grow (size i))

/-- There is memory for all arrays. -/
def Allocated (m : Arrays ι) : Prop := ∀ i, (m i).Allocated

/-- The memory of each array has room for the elements it is said to have. -/
def Covers (elem : ι → ℕ) (m : Arrays ι) : Prop := ∀ i, (m i).Covers (elem i)

/-- The memory of each array has the size that its capacity asks for. -/
def Exact (size : ι → ℕ) (m : Arrays ι) : Prop := ∀ i, (m i).Exact (size i)

variable [DecidableEq ι]

lemma grow_self : m.grow size i i = (m i).grow (size i) := Function.update_self _ _ _

lemma grow_other {j : ι} (h : j ≠ i) : m.grow size i j = m j := Function.update_of_ne h _ _

lemma grow_cap : (m.grow size i i).cap = (m i).nextCap := congrArg Block.cap grow_self

/-- Growing one of the arrays keeps all exact. -/
lemma Exact.grow (h : m.Exact size) (hsize : size i < 2 ^ 28) (halloc : (m.grow size i).Allocated) :
    (m.grow size i).Exact size := by
  intro j
  by_cases hj : j = i
  · have hsome := halloc j
    rw [hj, grow_self] at hsome ⊢
    exact (h i).grow hsize hsome
  · rw [grow_other hj]
    exact h j

/-- What is allocated after one of the arrays was grown. -/
lemma Allocated.grow (h : m.Allocated) (hi : ((m i).grow (size i)).Allocated) :
    (m.grow size i).Allocated := by
  intro j
  by_cases hj : j = i
  · rw [hj, grow_self]
    exact hi
  · rw [grow_other hj]
    exact h j

end Arrays

end GrowArray

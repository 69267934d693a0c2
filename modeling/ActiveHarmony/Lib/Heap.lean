import Mathlib.Data.List.AList

/-!
# A heap of owned cells

Blocks of memory are cells with an address. A cell that has been freed can not be read, nor freed again.
`Allocator` stands for `malloc`: which free address it returns may depend on the whole heap and on the
number of allocations so far.
-/

namespace Heap

/-- The live cells with their addresses, and the number of allocations. -/
structure Memory (α : Type) where
  cells : AList fun _ : ℕ => α
  allocs : ℕ

variable {α : Type}

/-- Read a cell; `none` if it is not live. -/
def read (h : Memory α) (p : ℕ) : Option α := h.cells.lookup p

/-- Free a cell; `none` if it is not live. -/
def free (h : Memory α) (p : ℕ) : Option (Memory α) :=
  if (read h p).isSome then some { h with cells := h.cells.erase p } else none

/-- Free cells in order. -/
def freeAll : Memory α → List ℕ → Option (Memory α)
  | h, [] => some h
  | h, p :: ps => (free h p).bind fun h => freeAll h ps

/-- A choice of the address of the next cell. -/
abbrev Allocator (α : Type) := Memory α → ℕ

/-- The allocator returns an address that is not in use. -/
def Allocator.Fresh (malloc : Allocator α) : Prop := ∀ h, read h (malloc h) = none

/-- Allocate a cell. -/
def alloc (malloc : Allocator α) (h : Memory α) (x : α) : ℕ × Memory α :=
  (malloc h, { cells := h.cells.insert (malloc h) x, allocs := h.allocs + 1 })

/-- The allocator that takes the first address behind all cells. -/
def bump : Allocator α := fun h => h.cells.keys.foldr (fun p n => max (p + 1) n) 0

lemma bump_fresh : (bump : Allocator α).Fresh := by
  intro h
  have hbehind : ∀ ps : List ℕ, ∀ p ∈ ps, p < ps.foldr (fun p n => max (p + 1) n) 0 := by
    intro ps
    induction ps with
    | nil => exact fun p hp => absurd hp List.not_mem_nil
    | cons q ps ih =>
      intro p hp
      rw [List.foldr_cons]
      obtain rfl | hp := List.mem_cons.mp hp
      · omega
      · have := ih p hp
        omega
  apply AList.lookup_eq_none.mpr
  intro hp
  exact Nat.lt_irrefl _ (hbehind _ _ hp)

/-! ## Reads after an operation -/

variable {malloc : Allocator α} {h h' : Memory α} {p : ℕ}

/-- A new cell has not the address of a live one. -/
lemma ne_malloc (hm : malloc.Fresh) (hp : (read h p).isSome) : p ≠ malloc h := by
  rintro rfl
  rw [hm h] at hp
  cases hp

/-- A live cell is the same after an allocation. -/
lemma read_alloc (hm : malloc.Fresh) (hp : (read h p).isSome) (x : α) :
    read (alloc malloc h x).2 p = read h p :=
  AList.lookup_insert_ne (ne_malloc hm hp)

/-- Freed cells can not be read. -/
lemma read_freeAll {ps : List ℕ} (hfree : freeAll h ps = some h') (p : ℕ) :
    read h' p = if p ∈ ps then none else read h p := by
  induction ps generalizing h with
  | nil =>
    obtain rfl := Option.some.inj hfree
    rw [if_neg List.not_mem_nil]
  | cons q ps ih =>
    obtain ⟨h₁, hq, hrest⟩ := Option.bind_eq_some_iff.mp hfree
    unfold free at hq
    split_ifs at hq with hlive
    obtain rfl := Option.some.inj hq
    rw [ih hrest]
    by_cases hps : p ∈ ps
    · rw [if_pos hps, if_pos (List.mem_cons_of_mem q hps)]
    · rw [if_neg hps]
      by_cases hpq : p = q
      · rw [hpq, if_pos List.mem_cons_self]
        exact AList.lookup_erase q h.cells
      · rw [if_neg (by simp [hpq, hps])]
        exact AList.lookup_erase_ne hpq

end Heap

import Mathlib.Algebra.Order.Ring.Nat
import Mathlib.Data.List.Basic
import Mathlib.Data.List.Rotate
import Mathlib.Tactic.Common

/-!
# Ring buffers

A ring buffer keeps a queue in an array of cells: the queue starts at `head`, goes round at the
end of the array and ends in front of `tail`; all other cells hold a mark `e` for an empty cell.
`Ring.Holds` is that layout. A cell at `tail` that is not marked means that the buffer is full,
and a marked cell at `head` that it is empty.
-/

namespace Ring

/-- The cell of the `j`-th element. -/
def slot (n head j : ℕ) : ℕ := (head + j) % n

variable {n head j k : ℕ}

lemma slot_lt (hn : 0 < n) : slot n head j < n := Nat.mod_lt _ hn

lemma slot_zero (hh : head < n) : slot n head 0 = head := Nat.mod_eq_of_lt hh

/-- Different elements have different cells. -/
lemma slot_inj (hh : head < n) (hj : j < n) (hk : k < n) (h : slot n head j = slot n head k) :
    j = k := by
  unfold slot at h
  have hmod : ∀ i < n, (head + i) % n = if head + i < n then head + i else head + i - n := by
    intro i hi
    by_cases hlt : head + i < n
    · rw [if_pos hlt, Nat.mod_eq_of_lt hlt]
    · rw [if_neg hlt, Nat.mod_eq_sub_mod (by omega), Nat.mod_eq_of_lt (by omega)]
  rw [hmod j hj, hmod k hk] at h
  split_ifs at h <;> omega

/-- The element after the head is the head of the rest. -/
lemma slot_succ : slot n ((head + 1) % n) j = slot n head (j + 1) := by
  unfold slot
  rw [Nat.mod_add_mod]
  congr 1
  omega

variable {α : Type*} {e x : α} {cells q : List α} {tail : ℕ}

/-- The buffer holds the queue `q`. -/
structure Holds (e : α) (cells : List α) (head tail : ℕ) (q : List α) : Prop where
  head_lt : head < cells.length
  length_le : q.length ≤ cells.length
  tail_eq : tail = slot cells.length head q.length
  not_mark : ∀ x ∈ q, x ≠ e
  cell_eq : ∀ j < cells.length, cells[slot cells.length head j]? = some ((q[j]?).getD e)

lemma Holds.pos (h : Holds e cells head tail q) : 0 < cells.length :=
  lt_of_le_of_lt (Nat.zero_le _) h.head_lt

/-- A new buffer holds nothing. -/
lemma holds_empty (hn : 0 < n) : Holds e (List.replicate n e) 0 0 [] where
  head_lt := by rwa [List.length_replicate]
  length_le := Nat.zero_le _
  tail_eq := by rw [List.length_replicate, List.length_nil, slot_zero hn]
  not_mark := by simp
  cell_eq := by
    intro j _
    rw [List.length_replicate, List.getElem?_replicate, if_pos (slot_lt hn)]
    rfl

/-- The cell at `tail` of a buffer with room is marked, that of a full one is not. -/
theorem Holds.tail_marked_iff (h : Holds e cells head tail q) :
    cells[tail]? = some e ↔ q.length < cells.length := by
  rw [h.tail_eq]
  constructor
  · intro hmark
    by_contra hfull
    have hlen : q.length = cells.length := le_antisymm h.length_le (not_lt.mp hfull)
    -- the tail of a full buffer is its head, which holds the first element
    have hround : slot cells.length head q.length = slot cells.length head 0 := by
      unfold slot
      rw [hlen, Nat.add_mod_right, Nat.add_zero]
    have hq : 0 < q.length := by rw [hlen]; exact h.pos
    rw [hround, h.cell_eq 0 h.pos, List.getElem?_eq_getElem hq] at hmark
    exact h.not_mark _ (List.getElem_mem hq) (Option.some.inj hmark)
  · intro hroom
    rw [h.cell_eq _ hroom, List.getElem?_eq_none (le_refl _)]
    rfl

/-- Appending to a buffer with room. -/
theorem Holds.push (h : Holds e cells head tail q) (hmark : cells[tail]? = some e) (hx : x ≠ e) :
    Holds e (cells.set tail x) head ((tail + 1) % cells.length) (q ++ [x]) := by
  have hroom := h.tail_marked_iff.mp hmark
  refine ⟨by rw [List.length_set]; exact h.head_lt, ?_, ?_, ?_, ?_⟩
  · rw [List.length_set, List.length_append, List.length_singleton]
    omega
  · rw [List.length_set, List.length_append, List.length_singleton, h.tail_eq]
    unfold slot
    rw [Nat.mod_add_mod]
    congr 1
  · intro y hy
    rcases List.mem_append.mp hy with hy | hy
    · exact h.not_mark y hy
    · rw [List.mem_singleton.mp hy]
      exact hx
  · intro j hj
    rw [List.length_set] at hj ⊢
    by_cases hlast : j = q.length
    · rw [hlast, ← h.tail_eq, List.getElem?_set_self (by rw [h.tail_eq]; exact slot_lt h.pos),
        List.getElem?_append_right (le_refl _), Nat.sub_self]
      rfl
    · have hne : tail ≠ slot cells.length head j := by
        rw [h.tail_eq]
        exact fun heq => hlast (slot_inj h.head_lt hroom hj heq).symm
      rw [List.getElem?_set_ne hne, h.cell_eq j hj]
      by_cases hlt : j < q.length
      · rw [List.getElem?_append_left hlt]
      · rw [List.getElem?_eq_none (by omega),
          List.getElem?_eq_none (by rw [List.length_append, List.length_singleton]; omega)]

/-- The cell at `head` holds the first element, if there is one. -/
lemma Holds.head_eq (h : Holds e cells head tail q) : cells[head]? = some (q.head?.getD e) := by
  have hcell := h.cell_eq 0 h.pos
  rwa [slot_zero h.head_lt, ← List.head?_eq_getElem?] at hcell

/-- Taking the first element. -/
theorem Holds.pop (h : Holds e cells head tail (x :: q)) :
    Holds e (cells.set head e) ((head + 1) % cells.length) tail q := by
  have hlen := h.length_le
  rw [List.length_cons] at hlen
  refine ⟨by rw [List.length_set]; exact Nat.mod_lt _ h.pos, by rw [List.length_set]; omega, ?_,
    fun y hy => h.not_mark y (List.mem_cons_of_mem x hy), ?_⟩
  · rw [List.length_set, h.tail_eq, slot_succ, List.length_cons]
  · intro j hj
    rw [List.length_set] at hj ⊢
    rw [slot_succ]
    by_cases hlast : j + 1 = cells.length
    · -- the cell in front of the new head is the old head
      have hround : slot cells.length head (j + 1) = head := by
        unfold slot
        rw [hlast, Nat.add_mod_right, Nat.mod_eq_of_lt h.head_lt]
      rw [hround, List.getElem?_set_self h.head_lt, List.getElem?_eq_none (by omega)]
      rfl
    · have hne : head ≠ slot cells.length head (j + 1) := by
        intro heq
        have hzero := slot_zero h.head_lt
        have := slot_inj h.head_lt h.pos (by omega) (hzero.trans heq)
        omega
      rw [List.getElem?_set_ne hne, h.cell_eq (j + 1) (by omega), List.getElem?_cons_succ]

/-- A cell is not marked exactly if it lies between `head` and `tail`. -/
theorem Holds.cell_ne_mark_iff (h : Holds e cells head tail q) (hj : j < cells.length) :
    cells[slot cells.length head j]? ≠ some e ↔ j < q.length := by
  rw [h.cell_eq j hj]
  by_cases hlt : j < q.length
  · rw [List.getElem?_eq_getElem hlt, Option.getD_some]
    exact ⟨fun _ => hlt, fun _ heq => h.not_mark _ (List.getElem_mem hlt) (Option.some.inj heq)⟩
  · rw [List.getElem?_eq_none (by omega)]
    exact ⟨fun hne => absurd rfl hne, fun hlt' => absurd hlt' hlt⟩

/-- Turned so that the head comes first, the buffer is the queue and then marks. -/
theorem Holds.rotate_eq (h : Holds e cells head tail q) :
    cells.rotate head = q ++ List.replicate (cells.length - q.length) e := by
  apply List.ext_getElem?
  intro j
  by_cases hj : j < cells.length
  · rw [List.getElem?_rotate hj, Nat.add_comm]
    have hcell := h.cell_eq j hj
    unfold slot at hcell
    rw [hcell]
    by_cases hlt : j < q.length
    · rw [List.getElem?_append_left hlt, List.getElem?_eq_getElem hlt, Option.getD_some]
    · rw [List.getElem?_append_right (not_lt.mp hlt), List.getElem?_replicate,
        if_pos (by omega), List.getElem?_eq_none (not_lt.mp hlt), Option.getD_none]
  · rw [List.getElem?_eq_none (by rw [List.length_rotate]; omega), List.getElem?_eq_none]
    have := h.length_le
    rw [List.length_append, List.length_replicate]
    omega

/-- The array may grow when the queue does not go round its end. -/
theorem Holds.grow {m : ℕ} (h : Holds e cells head tail q) (hfit : head + q.length ≤ cells.length)
    (hm : 0 < m) :
    Holds e (cells ++ List.replicate m e) head (head + q.length) q := by
  have hhead := h.head_lt
  have hlen : (cells ++ List.replicate m e).length = cells.length + m := by
    rw [List.length_append, List.length_replicate]
  refine ⟨by omega, by omega, ?_, h.not_mark, fun j hj => ?_⟩
  · unfold slot
    rw [hlen, Nat.mod_eq_of_lt (by omega)]
  rw [hlen] at hj ⊢
  by_cases hleft : head + j < cells.length
  · -- a cell of the old array behind the head
    have hcell := h.cell_eq j (by omega)
    unfold slot at hcell ⊢
    rw [Nat.mod_eq_of_lt hleft] at hcell
    rw [Nat.mod_eq_of_lt (by omega), List.getElem?_append_left hleft, hcell]
  · have hnone : q[j]? = none := List.getElem?_eq_none (by omega)
    by_cases hnew : head + j < cells.length + m
    · unfold slot
      rw [Nat.mod_eq_of_lt hnew, List.getElem?_append_right (not_lt.mp hleft),
        List.getElem?_replicate, if_pos (by omega), hnone]
      rfl
    · -- a cell of the old array in front of the head
      have hcell := h.cell_eq (j - m) (by omega)
      unfold slot at hcell ⊢
      rw [Nat.mod_eq_sub_mod (by omega), Nat.mod_eq_of_lt (by omega)] at hcell ⊢
      rw [List.getElem?_append_left (by omega), hnone,
        show head + j - (cells.length + m) = head + (j - m) - cells.length by omega, hcell,
        List.getElem?_eq_none (by omega)]

/-- The cells hold an element as often as the queue does. -/
lemma Holds.count_eq [DecidableEq α] (h : Holds e cells head tail q) (hx : x ≠ e) :
    cells.count x = q.count x := by
  rw [← (List.rotate_perm cells head).count_eq x, h.rotate_eq, List.count_append,
    List.count_replicate, if_neg (by simpa using hx.symm), Nat.add_zero]

end Ring

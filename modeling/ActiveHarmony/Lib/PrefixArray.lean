import Mathlib.Data.List.Infix
import Mathlib.Data.List.Nodup
import Mathlib.Data.List.Perm.Basic

/-!
# Arrays in use up to a length

The first `len` cells of an array are in use: a new element is written behind them, and an element is
removed by writing the last one over it. What is left in the cells behind `len` does not matter.
-/

namespace PrefixArray

variable {α κ : Type*} {cells : List α} {len i : ℕ}

/-- A new element. -/
theorem take_push (h : len < cells.length) (x : α) :
    (cells.set len x).take (len + 1) = cells.take len ++ [x] := by
  rw [List.take_add_one, List.take_set_of_le le_rfl, List.getElem?_set_self h]
  rfl

/-- The last element takes the place of another one. -/
lemma take_set_last {last : α} (hi : i < len - 1) (hlen : len ≤ cells.length)
    (hlast : cells[len - 1]? = some last) :
    ((cells.set i last).take (len - 1)).Perm ((cells.take len).eraseIdx i) := by
  have hsplit : cells.take len = cells.take (len - 1) ++ [last] := by
    have hsucc := @List.take_add_one _ cells (len - 1)
    rw [hlast, Nat.sub_add_cancel (by omega)] at hsucc
    exact hsucc
  have hlt : i < (cells.take (len - 1)).length := by
    rw [List.length_take]
    omega
  rw [hsplit, List.eraseIdx_append_of_lt_length hlt, List.take_set]
  exact (List.set_perm_cons_eraseIdx hlt last).trans (List.perm_append_singleton _ _).symm

/-- An element is removed. -/
theorem take_remove {last : α} (hi : i < len) (hlen : len ≤ cells.length)
    (hlast : cells[len - 1]? = some last) :
    ((if i < len - 1 then cells.set i last else cells).take (len - 1)).Perm
      ((cells.take len).eraseIdx i) := by
  by_cases hlt : i < len - 1
  · rw [if_pos hlt]
    exact take_set_last hlt hlen hlast
  · have hend : i = len - 1 := by omega
    rw [if_neg hlt, List.eraseIdx_eq_take_drop_succ, List.take_take, List.drop_of_length_le, hend,
      min_eq_left (by omega), List.append_nil]
    rw [List.length_take]
    omega

/-- Where no two elements have the same key, the removed one is the only one with its key. -/
theorem eraseIdx_eq_filter [DecidableEq κ] {key : α → κ} {l : List α} {x : α}
    (hnodup : (l.map key).Nodup) (hx : l[i]? = some x) :
    l.eraseIdx i = l.filter fun y => key y ≠ key x := by
  induction l generalizing i with
  | nil => rfl
  | cons y l ih =>
    rw [List.map_cons, List.nodup_cons] at hnodup
    cases i with
    | zero =>
      obtain rfl : y = x := Option.some.inj hx
      have hall : ∀ z ∈ l, key z ≠ key y := by
        intro z hz heq
        exact hnodup.1 (heq ▸ List.mem_map_of_mem hz)
      rw [List.eraseIdx_cons_zero, List.filter_cons_of_neg (by simp), List.filter_eq_self.mpr]
      intro z hz
      exact decide_eq_true (hall z hz)
    | succ i =>
      have hmem : x ∈ l := List.mem_of_getElem? hx
      have hne : key y ≠ key x := by
        intro heq
        exact hnodup.1 (heq ▸ List.mem_map_of_mem hmem)
      rw [List.eraseIdx_cons_succ, List.filter_cons_of_pos (by simpa using hne), ih hnodup.2 hx]

/-- An element is found by its key. -/
lemma find?_eq_some [DecidableEq κ] {key : α → κ} {l : List α} {x : α} (hnodup : (l.map key).Nodup)
    (hx : x ∈ l) : l.find? (fun y => key y = key x) = some x := by
  induction l with
  | nil => exact absurd hx List.not_mem_nil
  | cons y l ih =>
    rw [List.map_cons, List.nodup_cons] at hnodup
    obtain rfl | hmem := List.mem_cons.mp hx
    · rw [List.find?_cons_of_pos (by simp)]
    · have hne : key y ≠ key x := by
        intro heq
        exact hnodup.1 (heq ▸ List.mem_map_of_mem hmem)
      rw [List.find?_cons_of_neg (by simpa using hne)]
      exact ih hnodup.2 hmem

/-- The order of the elements does not matter for it. -/
theorem find?_perm [DecidableEq κ] {key : α → κ} {l l' : List α} (hnodup : (l.map key).Nodup)
    (hperm : l.Perm l') (k : κ) :
    l.find? (fun y => key y = k) = l'.find? fun y => key y = k := by
  cases hfind : l.find? fun y => key y = k with
  | none =>
    symm
    rw [List.find?_eq_none] at hfind ⊢
    exact fun y hy => hfind y (hperm.mem_iff.mpr hy)
  | some x =>
    have hfound := List.find?_some hfind
    have hkey : key x = k := of_decide_eq_true hfound
    have hmem := List.mem_of_find?_eq_some hfind
    rw [← hkey, find?_eq_some ((hperm.map key).nodup_iff.mp hnodup) (hperm.mem_iff.mp hmem)]

end PrefixArray

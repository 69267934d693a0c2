import Mathlib.Data.List.Basic

/-!
# Changing one element of a list

`List.modify` against membership, projections and `List.set`.
-/

namespace ListModify

variable {α β : Type*} {l : List α} {i : ℕ} {f : α → α} {x : α}

/-- An element after the change is an old one or the changed one. -/
lemma mem_cases (h : x ∈ l.modify i f) : x ∈ l ∨ ∃ y, l[i]? = some y ∧ x = f y := by
  obtain ⟨j, hj⟩ := List.mem_iff_getElem?.mp h
  rw [List.getElem?_modify] at hj
  obtain ⟨y, hy, rfl⟩ := Option.map_eq_some_iff.mp hj
  by_cases hij : i = j
  · rw [if_pos hij]
    exact Or.inr ⟨y, by rw [hij]; exact hy, rfl⟩
  · rw [if_neg hij]
    exact Or.inl (List.mem_of_getElem? hy)

/-- What holds of the elements, and is kept by the change, holds after it. -/
lemma forall_mem {p : α → Prop} (h : ∀ x ∈ l, p x) (hf : ∀ x, p x → p (f x)) : ∀ x ∈ l.modify i f, p x := by
  intro x hx
  obtain hx | ⟨y, hy, rfl⟩ := mem_cases hx
  · exact h x hx
  · exact hf y (h y (List.mem_of_getElem? hy))

/-- A projection that the change keeps. -/
lemma map_same {g : α → β} (hg : ∀ x, g (f x) = g x) : (l.modify i f).map g = l.map g := by
  apply List.ext_getElem?
  intro j
  rw [List.getElem?_map, List.getElem?_map, List.getElem?_modify]
  cases l[j]? with
  | none => rfl
  | some y =>
    by_cases hij : i = j
    · simp [hij, hg]
    · simp [hij]

/-- The change of an element that is there sets it. -/
lemma eq_set (hx : l[i]? = some x) : l.modify i f = l.set i (f x) := by
  obtain ⟨hlt, rfl⟩ := List.getElem?_eq_some_iff.mp hx
  rw [List.modify_eq_take_cons_drop hlt, List.set_eq_take_append_cons_drop, if_pos hlt]

end ListModify

import Mathlib.Data.List.Infix
import Mathlib.Data.List.Nodup
import Mathlib.Data.List.Perm.Basic

/-!
# Tables of slots

A table has slots that are vacant or hold a tenant with a key. A tenant moves into a vacant slot, and is
found by its key when it moves out. The number of vacant slots and the tenants follow each move.
-/

namespace SlotTable

variable {σ κ : Type*} [DecidableEq κ] (key : σ → κ) (vacant : κ)

/-- The slots that hold a tenant. -/
def tenants (slots : List σ) : List σ := slots.filter fun x => key x ≠ vacant

/-- The number of vacant slots. -/
def vacancies (slots : List σ) : ℕ := slots.countP fun x => key x = vacant

variable {key vacant} {slots : List σ} {x y : σ} {i : ℕ}

lemma mem_tenants : x ∈ tenants key vacant slots ↔ x ∈ slots ∧ key x ≠ vacant := by
  unfold tenants
  rw [List.mem_filter, decide_eq_true_eq]

/-- A slot apart from the others. -/
lemma perm_cons_eraseIdx (hx : slots[i]? = some x) : slots.Perm (x :: slots.eraseIdx i) := by
  obtain ⟨hlt, rfl⟩ := List.getElem?_eq_some_iff.mp hx
  exact (List.getElem_cons_eraseIdx_perm hlt).symm

lemma set_perm (hx : slots[i]? = some x) : (slots.set i y).Perm (y :: slots.eraseIdx i) :=
  List.set_perm_cons_eraseIdx (List.getElem?_eq_some_iff.mp hx).1 y

lemma tenants_cons : tenants key vacant (x :: slots) =
    if key x = vacant then tenants key vacant slots else x :: tenants key vacant slots := by
  unfold tenants
  by_cases hvacant : key x = vacant
  · rw [if_pos hvacant, List.filter_cons_of_neg (by simpa using hvacant)]
  · rw [if_neg hvacant, List.filter_cons_of_pos (by simpa using hvacant)]

lemma vacancies_cons : vacancies key vacant (x :: slots) =
    if key x = vacant then vacancies key vacant slots + 1 else vacancies key vacant slots := by
  unfold vacancies
  by_cases hvacant : key x = vacant
  · rw [if_pos hvacant, List.countP_cons_of_pos (by simpa using hvacant)]
  · rw [if_neg hvacant, List.countP_cons_of_neg (by simpa using hvacant)]

variable (key vacant) in
lemma tenants_perm {slots' : List σ} (h : slots.Perm slots') :
    (tenants key vacant slots).Perm (tenants key vacant slots') := h.filter _

lemma vacancies_perm {slots' : List σ} (h : slots.Perm slots') :
    vacancies key vacant slots = vacancies key vacant slots' := h.countP_eq _

/-- A tenant takes a vacant slot. -/
theorem move_in (hx : slots[i]? = some x) (hvacant : key x = vacant) (hy : key y ≠ vacant) :
    (tenants key vacant (slots.set i y)).Perm (y :: tenants key vacant slots) ∧
      vacancies key vacant (slots.set i y) + 1 = vacancies key vacant slots := by
  have htenants := tenants_perm key vacant (perm_cons_eraseIdx hx)
  rw [tenants_cons, if_pos hvacant] at htenants
  have hnew := tenants_perm key vacant (set_perm (y := y) hx)
  rw [tenants_cons, if_neg hy] at hnew
  constructor
  · exact hnew.trans (htenants.symm.cons y)
  · rw [vacancies_perm (set_perm hx), vacancies_perm (perm_cons_eraseIdx hx), vacancies_cons,
      vacancies_cons, if_neg hy, if_pos hvacant]

/-- A tenant leaves. -/
theorem move_out (hx : slots[i]? = some x) (hkey : key x ≠ vacant) (hy : key y = vacant) :
    (x :: tenants key vacant (slots.set i y)).Perm (tenants key vacant slots) ∧
      vacancies key vacant (slots.set i y) = vacancies key vacant slots + 1 := by
  have htenants := tenants_perm key vacant (perm_cons_eraseIdx hx)
  rw [tenants_cons, if_neg hkey] at htenants
  have hnew := tenants_perm key vacant (set_perm (y := y) hx)
  rw [tenants_cons, if_pos hy] at hnew
  constructor
  · exact (hnew.cons x).trans htenants.symm
  · rw [vacancies_perm (set_perm hx), vacancies_perm (perm_cons_eraseIdx hx), vacancies_cons,
      vacancies_cons, if_pos hy, if_neg hkey]

variable (key vacant slots) in
/-- A slot is found while there are vacant ones. -/
lemma exists_vacant (h : 0 < vacancies key vacant slots) :
    ∃ i x, slots.findIdx? (fun x => key x = vacant) = some i ∧ slots[i]? = some x ∧ key x = vacant := by
  obtain ⟨x, hx, hvacant⟩ := List.countP_pos_iff.mp h
  obtain ⟨i, hi⟩ : ∃ i, slots.findIdx? (fun x => key x = vacant) = some i := by
    apply Option.isSome_iff_exists.mp
    rw [List.findIdx?_isSome]
    exact List.any_eq_true.mpr ⟨x, hx, hvacant⟩
  obtain ⟨hlt, hfound, -⟩ := List.findIdx?_eq_some_iff_getElem.mp hi
  exact ⟨i, slots[i], hi, List.getElem?_eq_getElem hlt, of_decide_eq_true hfound⟩

/-- The tenant with a key is the first one that is found with it. -/
theorem find_tenant (hnodup : ((tenants key vacant slots).map key).Nodup)
    (hx : x ∈ tenants key vacant slots) :
    ∃ i, slots.findIdx? (fun y => key y = key x) = some i ∧ slots[i]? = some x := by
  obtain ⟨hmem, hkey⟩ := mem_tenants.mp hx
  obtain ⟨i, hi⟩ : ∃ i, slots.findIdx? (fun y => key y = key x) = some i := by
    apply Option.isSome_iff_exists.mp
    rw [List.findIdx?_isSome]
    exact List.any_eq_true.mpr ⟨x, hmem, decide_eq_true rfl⟩
  obtain ⟨hlt, hfound, -⟩ := List.findIdx?_eq_some_iff_getElem.mp hi
  have hsame : key slots[i] = key x := of_decide_eq_true hfound
  have htenant : slots[i] ∈ tenants key vacant slots := by
    apply mem_tenants.mpr
    rw [hsame]
    exact ⟨List.getElem_mem hlt, hkey⟩
  refine ⟨i, hi, ?_⟩
  rw [List.getElem?_eq_getElem hlt, List.inj_on_of_nodup_map hnodup htenant hx hsame]

end SlotTable

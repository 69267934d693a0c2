import Mathlib.Data.List.Perm.Subperm
import Mathlib.Data.List.Nodup

/-!
# Tables that are sent out entry by entry

The entries of a table get a new id when they are sent, from the first to the last one. Each id comes back
at most once, in any order. `Sent` relates the table with the ids that are out and with the entries that
have come back.
-/

namespace SendWindow

variable {α : Type*} [DecidableEq α]

/-- The entries before `send` have been sent with the ids of the table. -/
structure Sent (ids : List α) (send : ℕ) (done : List ℕ) (out : List α) : Prop where
  send_le : send ≤ ids.length
  /-- The id of an entry that was sent is that of no other entry. -/
  unique : ∀ i < send, ∀ j x, ids[i]? = some x → ids[j]? = some x → i = j
  done_nodup : done.Nodup
  done_lt : ∀ i ∈ done, i < send
  out_nodup : out.Nodup
  out_mem : ∀ x, x ∈ out ↔ ∃ i < send, i ∉ done ∧ ids[i]? = some x
  out_length : out.length + done.length = send

variable {ids : List α} {send : ℕ} {done : List ℕ} {out : List α}

omit [DecidableEq α] in
lemma Sent.nil (ids : List α) : Sent ids 0 [] [] where
  send_le := Nat.zero_le _
  unique := nofun
  done_nodup := List.nodup_nil
  done_lt := nofun
  out_nodup := List.nodup_nil
  out_mem := by simp
  out_length := rfl

omit [DecidableEq α] in
/-- The next entry is sent with a new id. -/
lemma Sent.next (h : Sent ids send done out) (hlt : send < ids.length) {x : α} (hnew : x ∉ ids) :
    Sent (ids.set send x) (send + 1) done (out ++ [x]) := by
  have hat : (ids.set send x)[send]? = some x := by
    rw [List.getElem?_set_self hlt]
  have hother : ∀ {i}, i ≠ send → (ids.set send x)[i]? = ids[i]? := fun hne =>
    List.getElem?_set_ne hne.symm
  have hsend : send ∉ done := fun hmem => Nat.lt_irrefl _ (h.done_lt send hmem)
  have hout : x ∉ out := by
    intro hmem
    obtain ⟨i, -, -, hi⟩ := (h.out_mem x).mp hmem
    exact hnew (List.mem_of_getElem? hi)
  refine ⟨?_, ?_, h.done_nodup, ?_, ?_, ?_, ?_⟩
  · rw [List.length_set]
    exact hlt
  · intro i hi j y hiy hjy
    by_cases hisend : i = send
    · subst hisend
      by_cases hjsend : j = i
      · exact hjsend.symm
      · rw [hat] at hiy
        rw [hother hjsend, ← hiy] at hjy
        exact absurd (List.mem_of_getElem? hjy) hnew
    · rw [hother hisend] at hiy
      by_cases hjsend : j = send
      · subst hjsend
        rw [hat, ← hiy] at hjy
        exact absurd (List.mem_of_getElem? hjy.symm) hnew
      · rw [hother hjsend] at hjy
        exact h.unique i (by omega) j y hiy hjy
  · intro i hi
    have hlt := h.done_lt i hi
    omega
  · exact List.nodup_append.mpr ⟨h.out_nodup, List.nodup_singleton x, by
      intro y hy z hz
      rw [List.mem_singleton.mp hz]
      exact fun heq => hout (heq ▸ hy)⟩
  · intro y
    rw [List.mem_append, List.mem_singleton, h.out_mem]
    constructor
    · intro hy
      obtain ⟨i, hi, hdone, hiy⟩ | rfl := hy
      · exact ⟨i, by omega, hdone, by rw [hother (by omega)]; exact hiy⟩
      · exact ⟨send, by omega, hsend, hat⟩
    · intro ⟨i, hi, hdone, hiy⟩
      by_cases hisend : i = send
      · subst hisend
        rw [hat] at hiy
        exact Or.inr (Option.some.inj hiy).symm
      · rw [hother hisend] at hiy
        exact Or.inl ⟨i, by omega, hdone, hiy⟩
  · rw [List.length_append, List.length_singleton]
    have hlen := h.out_length
    omega

/-- An id comes back: its entry was sent and has not come back before. -/
lemma Sent.report (h : Sent ids send done out) {x : α} (hx : x ∈ out) {i : ℕ} (hi : ids[i]? = some x) :
    i < send ∧ i ∉ done ∧ Sent ids send (done ++ [i]) (out.erase x) := by
  obtain ⟨k, hk, hkdone, hkx⟩ := (h.out_mem x).mp hx
  obtain rfl := h.unique k hk i x hkx hi
  refine ⟨hk, hkdone, h.send_le, h.unique, ?_, ?_, h.out_nodup.erase x, ?_, ?_⟩
  · exact List.nodup_append.mpr ⟨h.done_nodup, List.nodup_singleton k, by
      intro a ha b hb
      rw [List.mem_singleton.mp hb]
      exact fun heq => hkdone (heq ▸ ha)⟩
  · intro j hj
    obtain hj | hj := List.mem_append.mp hj
    · exact h.done_lt j hj
    · rw [List.mem_singleton.mp hj]
      exact hk
  · intro y
    rw [h.out_nodup.mem_erase_iff, h.out_mem]
    constructor
    · intro ⟨hne, j, hj, hjdone, hjy⟩
      refine ⟨j, hj, ?_, hjy⟩
      intro hmem
      obtain hmem | hmem := List.mem_append.mp hmem
      · exact hjdone hmem
      · rw [List.mem_singleton.mp hmem, hi] at hjy
        exact hne (Option.some.inj hjy).symm
    · intro ⟨j, hj, hjdone, hjy⟩
      have hjk : j ≠ k := fun heq => hjdone (List.mem_append_right _ (List.mem_singleton.mpr heq))
      refine ⟨?_, j, hj, fun hmem => hjdone (List.mem_append_left _ hmem), hjy⟩
      rintro rfl
      exact hjk (h.unique j hj k y hjy hi)
  · have hlen := h.out_length
    have hpos := List.length_pos_of_mem hx
    rw [List.length_erase_of_mem hx, List.length_append, List.length_singleton]
    omega

omit [DecidableEq α] in
/-- The order of the ids that are out does not count. -/
lemma Sent.perm (h : Sent ids send done out) {out' : List α} (hperm : out.Perm out') :
    Sent ids send done out' :=
  { h with
    out_nodup := hperm.nodup_iff.mp h.out_nodup
    out_mem := fun x => hperm.mem_iff.symm.trans (h.out_mem x)
    out_length := hperm.length_eq ▸ h.out_length }

omit [DecidableEq α] in
/-- All entries have come back when there are as many as the table has. -/
lemma Sent.complete_iff (h : Sent ids send done out) :
    done.length = ids.length ↔ done.Perm (List.range ids.length) := by
  constructor
  · intro hlen
    have hsub : done ⊆ List.range ids.length := by
      intro i hi
      have hlt := h.done_lt i hi
      have hle := h.send_le
      exact List.mem_range.mpr (by omega)
    apply (List.subperm_of_subset h.done_nodup hsub).perm_of_length_le
    exact Nat.le_of_eq (List.length_range.trans hlen.symm)
  · intro hperm
    rw [hperm.length_eq, List.length_range]

omit [DecidableEq α] in
lemma Sent.length_eq (h : Sent ids send done out) : out.length = send - done.length := by
  have hlen := h.out_length
  omega

end SendWindow

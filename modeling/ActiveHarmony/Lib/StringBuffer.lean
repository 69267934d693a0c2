import ActiveHarmony.Lib.PrintBuffer

/-!
# Strings in buffers of fixed size

A buffer holds the string in front of its first terminator. `strcat` appends to the string wherever it
ends, and `snprintf` prints at a position that its caller keeps. Texts that fit, terminator included, are
appended by both. Of texts that do not fit, `strcat` stores something outside of the buffer, and the
position of `snprintf` moves on as if they had been printed.
-/

namespace StringBuffer

open PrintBuffer (store storeCut textOf store_of_le length_store textOf_append)

variable {α : Type} {z : α} {text src cells cells' : List α}

/-! ## The string in a buffer -/

/-- The buffer holds the string. -/
def Holds (z : α) (text cells : List α) : Prop := z ∉ text ∧ ∃ rest, cells = text ++ z :: rest

lemma Holds.length_lt (h : Holds z text cells) : text.length < cells.length := by
  obtain ⟨-, rest, rfl⟩ := h
  rw [List.length_append, List.length_cons]
  omega

lemma Holds.textOf [DecidableEq α] (h : Holds z text cells) : textOf z cells = some text := by
  obtain ⟨hfree, rest, rfl⟩ := h
  refine textOf_append hfree List.take_left ?_
  rw [List.getElem?_append_right (le_refl _), Nat.sub_self]
  rfl

/-- A buffer holds one string. -/
lemma Holds.unique [DecidableEq α] (h : Holds z text cells) (h' : Holds z src cells) : text = src :=
  Option.some.inj (h.textOf.symm.trans h'.textOf)

lemma holds_set_zero (hne : cells ≠ []) : Holds z [] (cells.set 0 z) := by
  obtain ⟨c, rest, rfl⟩ := List.exists_cons_of_ne_nil hne
  exact ⟨List.not_mem_nil, rest, rfl⟩

lemma Holds.store_fits (h : Holds z text cells) (hsrc : z ∉ src)
    (hfit : text.length + src.length < cells.length) :
    ∃ cells', store cells text.length (src ++ [z]) = some cells' ∧ cells'.length = cells.length ∧
      Holds z (text ++ src) cells' := by
  have hroom : text.length + (src ++ [z]).length ≤ cells.length := by
    rw [List.length_append, List.length_singleton]
    omega
  refine ⟨_, store_of_le hroom, length_store (store_of_le hroom), ?_,
    cells.drop (text.length + (src ++ [z]).length), ?_⟩
  · intro hz
    obtain hz | hz := List.mem_append.mp hz
    · exact h.1 hz
    · exact hsrc hz
  · obtain ⟨-, rest, rfl⟩ := h
    rw [List.take_left]
    simp

/-! ## Appending -/

/-- `strcat`, and `strncat` of the characters that it takes from its source. -/
def strcat [DecidableEq α] (z : α) (cells src : List α) : Option (List α) :=
  (textOf z cells).bind fun text => store cells text.length (src ++ [z])

section
variable [DecidableEq α]

lemma Holds.strcat_fits (h : Holds z text cells) (hsrc : z ∉ src)
    (hfit : text.length + src.length < cells.length) :
    ∃ cells', strcat z cells src = some cells' ∧ cells'.length = cells.length ∧
      Holds z (text ++ src) cells' := by
  obtain ⟨cells', hstore, hlen, hholds⟩ := h.store_fits hsrc hfit
  refine ⟨cells', ?_, hlen, hholds⟩
  rw [strcat, h.textOf]
  exact hstore

lemma Holds.strcat_overflow (h : Holds z text cells) (hlong : cells.length ≤ text.length + src.length) :
    strcat z cells src = none := by
  rw [strcat, h.textOf]
  refine if_neg ?_
  rw [List.length_append, List.length_singleton]
  omega

/-- Texts are appended one after the other, or one of them is stored outside. -/
lemma Holds.strcatAll (h : Holds z text cells) {texts : List (List α)} (htexts : ∀ t ∈ texts, z ∉ t) :
    (text.length + texts.flatten.length < cells.length →
      ∃ cells', texts.foldlM (strcat z) cells = some cells' ∧ cells'.length = cells.length ∧
        Holds z (text ++ texts.flatten) cells') ∧
    (cells.length ≤ text.length + texts.flatten.length → texts.foldlM (strcat z) cells = none) := by
  induction texts generalizing text cells with
  | nil =>
    have hlt := h.length_lt
    rw [List.flatten_nil, List.append_nil, List.length_nil]
    exact ⟨fun _ => ⟨cells, rfl, rfl, h⟩, fun hle => absurd hlt (by omega)⟩
  | cons t texts ih =>
    rw [List.flatten_cons, List.length_append, List.foldlM_cons]
    by_cases hfit : text.length + t.length < cells.length
    · obtain ⟨cells₁, hcat, hlen, hholds⟩ := h.strcat_fits (htexts t List.mem_cons_self) hfit
      have hrest := ih hholds fun u hu => htexts u (List.mem_cons_of_mem t hu)
      rw [hlen, List.length_append, List.append_assoc, Nat.add_assoc] at hrest
      rw [hcat]
      exact hrest
    · rw [h.strcat_overflow (by omega)]
      exact ⟨fun hlt => absurd hlt (by omega), fun _ => rfl⟩

end

/-! ## Printing at a position -/

/-- `pos += snprintf(pos, end - pos, ..)`. Behind the end the difference is a huge size, so the store is
outside. -/
def snprintf (z : α) (cells : List α) (pos : ℕ) (text : List α) : Option (List α × ℕ) :=
  if pos ≤ cells.length then
    (storeCut z text cells pos (cells.length - pos)).map fun cells => (cells, pos + text.length)
  else none

lemma length_snprintf {pos pos' : ℕ} (h : snprintf z cells pos text = some (cells', pos')) :
    cells'.length = cells.length := by
  unfold snprintf at h
  split_ifs at h
  obtain ⟨cells₁, hstore, heq⟩ := Option.map_eq_some_iff.mp h
  obtain ⟨rfl, -⟩ := Prod.mk.inj heq
  cases hroom : cells.length - pos with
  | zero =>
    rw [hroom] at hstore
    cases hstore
    rfl
  | succ room =>
    rw [hroom] at hstore
    exact length_store hstore

lemma Holds.snprintf_fits (h : Holds z text cells) (hsrc : z ∉ src)
    (hfit : text.length + src.length < cells.length) :
    ∃ cells', snprintf z cells text.length src = some (cells', (text ++ src).length) ∧
      cells'.length = cells.length ∧ Holds z (text ++ src) cells' := by
  obtain ⟨cells', hstore, hlen, hholds⟩ := h.store_fits hsrc hfit
  refine ⟨cells', ?_, hlen, hholds⟩
  obtain ⟨room, hroom⟩ : ∃ room, cells.length - text.length = room + 1 :=
    Nat.exists_eq_succ_of_ne_zero (by omega)
  rw [snprintf, if_pos (by omega), hroom, storeCut, List.take_of_length_le (by omega), hstore,
    List.length_append]
  rfl

/-- `snprintf` of several texts. -/
def snprintfAll (z : α) (texts : List (List α)) (cells : List α) (pos : ℕ) : Option (List α × ℕ) :=
  texts.foldlM (fun s text => snprintf z s.1 s.2 text) (cells, pos)

lemma Holds.snprintfAll (h : Holds z text cells) {texts : List (List α)} (htexts : ∀ t ∈ texts, z ∉ t)
    (hfit : text.length + texts.flatten.length < cells.length) :
    ∃ cells', snprintfAll z texts cells text.length = some (cells', (text ++ texts.flatten).length) ∧
      Holds z (text ++ texts.flatten) cells' := by
  induction texts generalizing text cells with
  | nil =>
    rw [List.flatten_nil, List.append_nil]
    exact ⟨cells, rfl, h⟩
  | cons t texts ih =>
    rw [List.flatten_cons, List.length_append] at hfit
    obtain ⟨cells₁, hprint, hlen, hholds⟩ := h.snprintf_fits (htexts t List.mem_cons_self) (by omega)
    obtain ⟨cells', hrest, hholds'⟩ := ih hholds (fun u hu => htexts u (List.mem_cons_of_mem t hu))
      (by rw [hlen, List.length_append]; omega)
    rw [List.append_assoc, ← List.flatten_cons] at hrest hholds'
    refine ⟨cells', ?_, hholds'⟩
    rw [snprintfAll, List.foldlM_cons, hprint]
    exact hrest

lemma length_snprintfAll {texts : List (List α)} {pos pos' : ℕ}
    (h : snprintfAll z texts cells pos = some (cells', pos')) : cells'.length = cells.length := by
  induction texts generalizing cells pos with
  | nil =>
    cases h
    rfl
  | cons t texts ih =>
    rw [snprintfAll, List.foldlM_cons] at h
    obtain ⟨⟨cells₁, pos₁⟩, hprint, hrest⟩ := Option.bind_eq_some_iff.mp h
    rw [ih hrest, length_snprintf hprint]

end StringBuffer

import Mathlib.Algebra.Order.Ring.Nat
import Mathlib.Data.List.Basic
import Mathlib.Tactic.Common

/-!
# Printing into a buffer of limited size

Texts are printed one behind the other into a buffer, each with a terminator behind it. A text that does not
fit is cut, and from then on nothing is printed, but the length of every text is still returned: the lengths
of a whole pass tell how large the buffer has to be. A store outside of the buffer has no result.
-/

namespace PrintBuffer

variable {α : Type}

/-! ## Stores and single texts -/

/-- Store a text, if all of its cells are inside of the buffer. -/
def store (cells : List α) (pos : ℕ) (text : List α) : Option (List α) :=
  if pos + text.length ≤ cells.length then
    some (cells.take pos ++ (text ++ cells.drop (pos + text.length)))
  else none

/-- The buffer, the position of the next text and the number of cells from there on. -/
structure Cursor (α : Type) where
  cells : List α
  pos : ℕ
  left : ℕ
deriving DecidableEq, Repr

/-- The cells that are said to be left are inside of the buffer. -/
def Cursor.Fits (c : Cursor α) : Prop := c.left ≠ 0 → c.pos + c.left ≤ c.cells.length

/-- As much of the text as fits, and the terminator, which has a place unless there is none at all. -/
def storeCut (z : α) (text cells : List α) (pos : ℕ) : ℕ → Option (List α)
  | 0 => some cells
  | room + 1 => store cells pos (text.take room ++ [z])

/-- The cursor moves behind the text if it is not longer than what was left. -/
def Cursor.advance (c : Cursor α) (n : ℕ) : Cursor α :=
  if c.left < n then { c with left := 0 } else { c with pos := c.pos + n, left := c.left - n }

/-- Print a text. -/
def put (z : α) (text : List α) (c : Cursor α) : Option (Cursor α) :=
  (storeCut z text c.cells c.pos c.left).map fun cells => { c with cells := cells }.advance text.length

/-! ## What a sequence of texts does to the buffer -/

/-- The text was printed between two states of the cursor. -/
structure Wrote (z : α) (text : List α) (c c' : Cursor α) : Prop where
  length : c'.cells.length = c.cells.length
  left : c'.left = c.left - text.length
  forward : c.pos ≤ c'.pos
  inside : c'.pos + c'.left ≤ c.pos + c.left
  before : c'.cells.take c.pos = c.cells.take c.pos
  printed : text.length < c.left →
    c'.pos = c.pos + text.length ∧ c'.cells.take c'.pos = c.cells.take c.pos ++ text
  ends : text.length < c.left → text ≠ [] ∨ c.cells[c.pos]? = some z → c'.cells[c'.pos]? = some z

variable {z : α} {text text' : List α} {c c' c'' : Cursor α}

lemma Wrote.refl (c : Cursor α) : Wrote z [] c c where
  length := rfl
  left := rfl
  forward := le_refl _
  inside := le_refl _
  before := rfl
  printed _ := ⟨rfl, (List.append_nil _).symm⟩
  ends _ h := h.resolve_left (not_not.mpr rfl)

/-- A longer prefix that is the same has the same shorter ones. -/
lemma take_of_take {l l' : List α} {m n : ℕ} (hle : m ≤ n) (h : l'.take n = l.take n) :
    l'.take m = l.take m := by
  have hm := congrArg (List.take m) h
  rw [List.take_take, List.take_take, Nat.min_eq_left hle] at hm
  exact hm

lemma Wrote.trans (h : Wrote z text c c') (h' : Wrote z text' c' c'') :
    Wrote z (text ++ text') c c'' where
  length := h'.length.trans h.length
  left := by
    rw [h'.left, h.left, List.length_append]
    omega
  forward := h.forward.trans h'.forward
  inside := h'.inside.trans h.inside
  before := (take_of_take h.forward h'.before).trans h.before
  printed hlt := by
    rw [List.length_append] at hlt ⊢
    obtain ⟨hpos, htake⟩ := h.printed (by omega)
    have hleft := h.left
    obtain ⟨hpos', htake'⟩ := h'.printed (by omega)
    refine ⟨by omega, ?_⟩
    rw [htake', htake, List.append_assoc]
  ends hlt hz := by
    rw [List.length_append] at hlt
    have hleft := h.left
    apply h'.ends (by omega)
    by_cases hnil : text' = []
    · rw [hnil, List.append_nil] at hz
      exact Or.inr (h.ends (by omega) hz)
    · exact Or.inl hnil

lemma Wrote.fits (h : Wrote z text c c') (hc : c.Fits) : c'.Fits := by
  intro hleft
  have hroom := h.left
  have hinside := h.inside
  have hfits := hc (by omega)
  rw [h.length]
  omega

/-! ## One text -/

lemma length_store {cells cells' : List α} {pos : ℕ} (h : store cells pos text = some cells') :
    cells'.length = cells.length := by
  unfold store at h
  split_ifs at h with hle
  cases h
  rw [List.length_append, List.length_append, List.length_take, List.length_drop]
  omega

lemma store_of_le {cells : List α} {pos : ℕ} (h : pos + text.length ≤ cells.length) :
    store cells pos text = some (cells.take pos ++ (text ++ cells.drop (pos + text.length))) := if_pos h

/-- What is stored stands behind the cells before it. -/
lemma take_store {cells cells' : List α} {pos : ℕ}
    (h : store cells pos (text ++ text') = some cells') :
    cells'.take (pos + text.length) = cells.take pos ++ text := by
  unfold store at h
  split_ifs at h with hle
  cases h
  rw [List.append_assoc, ← List.append_assoc]
  apply List.take_left'
  rw [List.length_append, List.length_take]
  omega

lemma getElem?_store {cells cells' : List α} {pos : ℕ}
    (h : store cells pos (text ++ [z]) = some cells') : cells'[pos + text.length]? = some z := by
  unfold store at h
  split_ifs at h with hle
  cases h
  have hlen : (cells.take pos ++ text).length = pos + text.length := by
    rw [List.length_append] at hle
    rw [List.length_append, List.length_take]
    omega
  rw [List.append_assoc, ← List.append_assoc, ← hlen, List.getElem?_append_right (le_refl _),
    Nat.sub_self]
  rfl

/-- A text that does not fit takes all the room. -/
lemma wrote_of_lt {cells : List α} (hlong : c.left < text.length)
    (hlen : cells.length = c.cells.length) (hbefore : cells.take c.pos = c.cells.take c.pos) :
    Wrote z text c (Cursor.advance ⟨cells, c.pos, c.left⟩ text.length) := by
  unfold Cursor.advance
  rw [if_pos hlong]
  exact {
    length := hlen
    left := (Nat.sub_eq_zero_of_le hlong.le).symm
    forward := le_refl _
    inside := Nat.le_add_right _ _
    before := hbefore
    printed := fun hlt => absurd hlt (by omega)
    ends := fun hlt => absurd hlt (by omega) }

lemma wrote_of_le {cells : List α} (hle : text.length ≤ c.left)
    (hlen : cells.length = c.cells.length) (hbefore : cells.take c.pos = c.cells.take c.pos)
    (hprinted : text.length < c.left → cells.take (c.pos + text.length) = c.cells.take c.pos ++ text ∧
      cells[c.pos + text.length]? = some z) :
    Wrote z text c (Cursor.advance ⟨cells, c.pos, c.left⟩ text.length) := by
  unfold Cursor.advance
  rw [if_neg (Nat.not_lt.mpr hle)]
  exact {
    length := hlen
    left := rfl
    forward := Nat.le_add_right _ _
    inside := by
      show c.pos + text.length + (c.left - text.length) ≤ c.pos + c.left
      omega
    before := hbefore
    printed := fun hlt => ⟨rfl, (hprinted hlt).1⟩
    ends := fun hlt _ => (hprinted hlt).2 }

/-- A text is printed into a buffer that has the cells it is said to have. -/
lemma put_spec (z : α) (text : List α) (hc : c.Fits) :
    ∃ c', put z text c = some c' ∧ Wrote z text c c' := by
  obtain ⟨cells, pos, _ | room⟩ := c
  · refine ⟨_, rfl, ?_⟩
    by_cases hlong : 0 < text.length
    · exact wrote_of_lt hlong rfl rfl
    · exact wrote_of_le (Nat.le_of_not_lt hlong) rfl rfl fun hlt => absurd hlt (Nat.not_lt_zero _)
  · have hroom : pos + (room + 1) ≤ cells.length := hc (Nat.succ_ne_zero room)
    have hcut : (text.take room ++ [z]).length = min room text.length + 1 := by
      rw [List.length_append, List.length_take, List.length_singleton]
    obtain ⟨cells', hstore⟩ : ∃ cells', store cells pos (text.take room ++ [z]) = some cells' :=
      ⟨_, store_of_le (by omega)⟩
    have hbefore : cells'.take pos = cells.take pos := by
      have htake : cells'.take (pos + ([] : List α).length) = cells.take pos ++ [] := take_store hstore
      rw [List.append_nil] at htake
      exact htake
    refine ⟨Cursor.advance ⟨cells', pos, room + 1⟩ text.length, ?_, ?_⟩
    · show (store cells pos (text.take room ++ [z])).map _ = _
      rw [hstore]
      rfl
    · by_cases hlong : room + 1 < text.length
      · exact wrote_of_lt hlong (length_store hstore) hbefore
      · apply wrote_of_le (Nat.le_of_not_lt hlong) (length_store hstore) hbefore
        intro hlt
        rw [List.take_of_length_le (Nat.le_of_lt_succ hlt)] at hstore
        exact ⟨take_store hstore, getElem?_store hstore⟩

/-! ## Programs that print -/

/-- A program that prints, and may fail. -/
abbrev Printer (α β : Type) := OptionT (StateT (Cursor α) Option) β

/-- Print a text and return its length; a text whose length is not below the limit cannot be printed. -/
def print (z : α) (limit : ℕ) (text : List α) : Printer α ℕ := fun c =>
  (put z text c).map fun c => (if text.length ≤ limit then some text.length else none, c)

/-- The lengths of several texts together. -/
def printAll {β : Type} (p : β → Printer α ℕ) : List β → Printer α ℕ
  | [] => pure 0
  | x :: xs => do
    let count ← p x
    let total ← printAll p xs
    return count + total

/-- The program prints the text and returns its length, or fails if there is none. -/
def Prints (z : α) (p : Printer α ℕ) (text : Option (List α)) : Prop :=
  ∀ c : Cursor α, c.Fits → ∃ c', p c = some (text.map List.length, c') ∧ ∀ t ∈ text, Wrote z t c c'

variable {p q r : Printer α ℕ} {o o' o'' : Option (List α)}

lemma prints_print (z : α) (limit : ℕ) (text : List α) :
    Prints z (print z limit text) (if text.length ≤ limit then some text else none) := by
  intro c hc
  obtain ⟨c', hput, hwrote⟩ := put_spec z text hc
  refine ⟨c', ?_, ?_⟩
  · unfold print
    rw [hput]
    split_ifs <;> rfl
  · intro t ht
    split_ifs at ht
    · cases ht
      exact hwrote
    · cases ht

lemma prints_failure : Prints z (failure : Printer α ℕ) none := by
  intro c _
  refine ⟨c, rfl, ?_⟩
  intro t ht
  cases ht

lemma prints_nil : Prints z (pure 0 : Printer α ℕ) (some []) := by
  intro c _
  refine ⟨c, rfl, ?_⟩
  intro t ht
  cases ht
  exact Wrote.refl c

/-- One text behind the other. -/
lemma Prints.append (hp : Prints z p o) (hq : Prints z q o') :
    Prints z (do let m ← p; let n ← q; return m + n) (do let t ← o; let u ← o'; return t ++ u) := by
  intro c hc
  obtain ⟨c₁, hrun, hwrote⟩ := hp c hc
  cases o with
  | none =>
    refine ⟨c₁, ?_, fun t ht => by cases ht⟩
    show (p c).bind _ = _
    rw [hrun]
    rfl
  | some t =>
    have ht := hwrote t rfl
    obtain ⟨c₂, hrun₂, hwrote₂⟩ := hq c₁ (ht.fits hc)
    refine ⟨c₂, ?_, ?_⟩
    · show (p c).bind _ = _
      rw [hrun]
      show (q c₁).bind _ = _
      rw [hrun₂]
      cases o' with
      | none => rfl
      | some u =>
        show some (some (t.length + u.length), c₂) = some (some (t ++ u).length, c₂)
        rw [List.length_append]
    · intro tu htu
      cases o' with
      | none => cases htu
      | some u =>
        cases htu
        exact ht.trans (hwrote₂ u rfl)

lemma Prints.append₃ (hp : Prints z p o) (hq : Prints z q o') (hr : Prints z r o'') :
    Prints z (do let l ← p; let m ← q; let n ← r; return l + m + n)
      (do let t ← o; let u ← o'; let v ← o''; return t ++ (u ++ v)) := by
  have h := hp.append (hq.append hr)
  simp only [bind_assoc, pure_bind, ← Nat.add_assoc] at h
  exact h

/-- Several texts, one behind the other. -/
lemma prints_printAll {β : Type} {p : β → Printer α ℕ} {f : β → Option (List α)} (xs : List β)
    (h : ∀ x ∈ xs, Prints z (p x) (f x)) :
    Prints z (printAll p xs) (do let texts ← xs.mapM f; return texts.flatten) := by
  induction xs with
  | nil => exact prints_nil
  | cons x xs ih =>
    have hnext := (h x List.mem_cons_self).append (ih fun y hy => h y (List.mem_cons_of_mem x hy))
    rw [List.mapM_cons]
    simp only [bind_assoc, pure_bind, List.flatten_cons] at hnext ⊢
    exact hnext

/-! ## Sending what was printed

A loop that prints one item after the other into a buffer. An item that does not fit is cut off, what stands
before it is sent, and the item is printed again at the start of the buffer.
-/

/-- How the loop ends. -/
inductive Stop where
  /-- All items were printed. -/
  | done
  /-- An item is longer than the buffer. -/
  | full
  /-- An item cannot be printed. -/
  | failed
  /-- What was read is no item. -/
  | outside
  /-- An access outside of the buffer. -/
  | overflow
deriving DecidableEq, Repr

/-- The buffer, the length of the text in it, and what was sent. -/
structure Sending (α : Type) where
  cursor : Cursor α
  total : ℕ
  sent : List (List α)
deriving DecidableEq, Repr

/-- The text in front of the first terminator. -/
def textOf [DecidableEq α] (z : α) (cells : List α) : Option (List α) :=
  if z ∈ cells then some (cells.takeWhile fun c => c ≠ z) else none

/-- The loop from item `i` up to item `n`; `read` has no result for what is no item, and `some none` for one
that is passed over. There is no result for want of fuel. -/
def sendItems [DecidableEq α] {R : Type} (z : α) (size : ℕ) (append : R → Printer α ℕ)
    (read : ℤ → Option (Option R)) (n : ℤ) : ℕ → ℤ → Sending α → Option (Stop × Sending α)
  | 0, _, _ => none
  | fuel + 1, i, s =>
    if i ≥ n then some (.done, s)
    else
      match read i with
      | none => some (.outside, s)
      | some none => sendItems z size append read n fuel (i + 1) s
      | some (some item) =>
        match append item s.cursor with
        | none => some (.overflow, s)
        | some (none, c) => some (.failed, { s with cursor := c })
        | some (some count, c) =>
          if s.total + count ≥ size then
            if s.cursor.pos = 0 then some (.full, { s with cursor := c })
            else
              match store c.cells s.cursor.pos [z] with
              | none => some (.overflow, { s with cursor := c })
              | some cells =>
                match textOf z cells with
                | none => some (.overflow, { s with cursor := c })
                | some chunk =>
                  sendItems z size append read n fuel i { s with
                    cursor := { cells := cells, pos := 0, left := size }
                    total := 0
                    sent := s.sent ++ [chunk] }
          else sendItems z size append read n fuel (i + 1) { s with cursor := c, total := s.total + count }

variable {size : ℕ} {s : Sending α}

/-- The buffer holds a text, with room for its terminator. -/
structure Buffered (z : α) (size : ℕ) (text : List α) (s : Sending α) : Prop where
  length : s.cursor.cells.length = size
  pos : s.cursor.pos = text.length
  left : s.cursor.left + text.length = size
  fits : text.length < size
  total : s.total = text.length
  holds : s.cursor.cells.take text.length = text
  ends : s.cursor.cells[text.length]? = some z
  free : z ∉ text

lemma Buffered.cursor_fits (h : Buffered z size text s) : s.cursor.Fits := by
  intro _
  have hleft := h.left
  rw [h.length, h.pos]
  omega

/-- The text in the buffer is what a reader finds there. -/
lemma textOf_append [DecidableEq α] {cells : List α} (hfree : z ∉ text)
    (htake : cells.take text.length = text)
    (hends : cells[text.length]? = some z) : textOf z cells = some text := by
  have hsplit : cells = text ++ z :: cells.drop (text.length + 1) := by
    obtain ⟨hlt, hz⟩ := List.getElem?_eq_some_iff.mp hends
    conv_lhs => rw [← List.take_append_drop text.length cells, htake, List.drop_eq_getElem_cons hlt, hz]
  have hkeep : ∀ c ∈ text, decide (c ≠ z) = true := by
    intro c hc
    apply decide_eq_true
    rintro rfl
    exact hfree hc
  unfold textOf
  rw [hsplit, if_pos (List.mem_append_right _ List.mem_cons_self), List.takeWhile_append_of_pos hkeep,
    List.takeWhile_cons_of_neg (by simp), List.append_nil]

/-- A text that fits is printed behind the one in the buffer. -/
lemma Buffered.append (h : Buffered z size text s) (hp : Prints z p (some text')) (hfree : z ∉ text')
    (hfits : text.length + text'.length < size) :
    ∃ c, p s.cursor = some (some text'.length, c) ∧
      Buffered z size (text ++ text') ⟨c, s.total + text'.length, s.sent⟩ := by
  obtain ⟨c, hrun, hwrote⟩ := hp s.cursor h.cursor_fits
  have hw := hwrote text' rfl
  have hleft := h.left
  have hlength := hw.left
  have hroom : text'.length < s.cursor.left := by omega
  obtain ⟨hpos, htake⟩ := hw.printed hroom
  rw [h.pos] at hpos htake
  rw [h.holds, hpos, ← List.length_append] at htake
  have hends := hw.ends hroom (Or.inr (h.pos ▸ h.ends))
  rw [hpos, ← List.length_append] at hends
  refine ⟨c, hrun, ?_⟩
  exact {
    length := hw.length.trans h.length
    pos := hpos.trans List.length_append.symm
    left := by
      rw [List.length_append]
      show c.left + _ = _
      omega
    fits := by
      rw [List.length_append]
      exact hfits
    total := by
      rw [List.length_append, ← h.total]
    holds := htake
    ends := hends
    free := by
      rw [List.mem_append]
      rintro (hmem | hmem)
      · exact h.free hmem
      · exact hfree hmem }

/-- A text that does not fit is cut off again. -/
lemma Buffered.cut (h : Buffered z size text s) (hp : Prints z p (some text')) :
    ∃ c cells, p s.cursor = some (some text'.length, c) ∧ store c.cells s.cursor.pos [z] = some cells ∧
      cells.length = size ∧ cells.take text.length = text ∧ cells[text.length]? = some z := by
  obtain ⟨c, hrun, hwrote⟩ := hp s.cursor h.cursor_fits
  have hw := hwrote text' rfl
  have hlen : c.cells.length = size := hw.length.trans h.length
  have hfits := h.fits
  have hbefore := hw.before
  rw [h.pos, h.holds] at hbefore
  obtain ⟨cells, hstore⟩ : ∃ cells, store c.cells text.length [z] = some cells := by
    refine ⟨_, store_of_le ?_⟩
    rw [List.length_singleton]
    omega
  have htake : cells.take (text.length + ([] : List α).length) = c.cells.take text.length ++ [] :=
    take_store hstore
  rw [List.length_nil, Nat.add_zero, List.append_nil, hbefore] at htake
  have hz : cells[text.length + ([] : List α).length]? = some z := getElem?_store hstore
  refine ⟨c, cells, hrun, ?_, (length_store hstore).trans hlen, htake, hz⟩
  rw [h.pos]
  exact hstore

/-- A text at the start of the buffer. -/
lemma buffered_fresh {cells : List α} (hlen : cells.length = size) (hp : Prints z p (some text))
    (hfree : z ∉ text) (hne : text ≠ []) (hfits : text.length < size) (sent : List (List α)) :
    ∃ c, p ⟨cells, 0, size⟩ = some (some text.length, c) ∧
      Buffered z size text ⟨c, text.length, sent⟩ := by
  have hcursor : (Cursor.mk cells 0 size).Fits := by
    intro _
    show 0 + size ≤ cells.length
    omega
  obtain ⟨c, hrun, hwrote⟩ := hp _ hcursor
  have hw := hwrote text rfl
  have hleft : c.left = size - text.length := hw.left
  obtain ⟨hpos, htake⟩ := hw.printed hfits
  have hpos' : c.pos = text.length := hpos.trans (Nat.zero_add _)
  have hends := hw.ends hfits (Or.inl hne)
  rw [hpos'] at htake hends
  refine ⟨c, hrun, ?_⟩
  exact {
    length := hw.length.trans hlen
    pos := hpos'
    left := by
      show c.left + _ = _
      omega
    fits := hfits
    total := rfl
    holds := htake
    ends := hends
    free := hfree }

/-- An item whose text fits into the buffer. -/
structure FitsIn (z : α) (size : ℕ) (p : Printer α ℕ) (text : List α) : Prop where
  prints : Prints z p (some text)
  free : z ∉ text
  ne_nil : text ≠ []
  fits : text.length < size

variable [DecidableEq α] {R : Type} {append : R → Printer α ℕ} {read : ℤ → Option (Option R)} {n i : ℤ}
  {item : R}

/-- An item that fits behind the text in the buffer. -/
lemma sendItems_append (hi : i < n) (hread : read i = some (some item)) (h : Buffered z size text s)
    (hitem : FitsIn z size (append item) text') (hfits : text.length + text'.length < size) (fuel : ℕ) :
    ∃ s', sendItems z size append read n (fuel + 1) i s = sendItems z size append read n fuel (i + 1) s' ∧
      s'.sent = s.sent ∧ Buffered z size (text ++ text') s' := by
  obtain ⟨c, hrun, hbuffered⟩ := h.append hitem.prints hitem.free hfits
  refine ⟨⟨c, s.total + text'.length, s.sent⟩, ?_, rfl, hbuffered⟩
  have hshort : ¬s.total + text'.length ≥ size := by
    rw [h.total]
    omega
  rw [sendItems, if_neg (not_le.mpr hi), hread]
  dsimp only
  rw [hrun]
  dsimp only
  rw [if_neg hshort]

/-- An item that does not fit: the text is sent, and the item is at the start of the buffer. -/
lemma sendItems_flush (hi : i < n) (hread : read i = some (some item)) (h : Buffered z size text s)
    (hne : text ≠ []) (hitem : FitsIn z size (append item) text')
    (hlong : size ≤ text.length + text'.length) (fuel : ℕ) :
    ∃ s', sendItems z size append read n (fuel + 2) i s = sendItems z size append read n fuel (i + 1) s' ∧
      s'.sent = s.sent ++ [text] ∧ Buffered z size text' s' := by
  obtain ⟨c, cells, hrun, hstore, hlen, htake, hends⟩ := h.cut hitem.prints
  obtain ⟨c', hrun', hbuffered⟩ := buffered_fresh hlen hitem.prints hitem.free hitem.ne_nil hitem.fits
    (s.sent ++ [text])
  refine ⟨⟨c', text'.length, s.sent ++ [text]⟩, ?_, rfl, hbuffered⟩
  have hfull : s.total + text'.length ≥ size := by
    rw [h.total]
    exact hlong
  have hpos : s.cursor.pos ≠ 0 := by
    rw [h.pos]
    exact fun hzero => hne (List.length_eq_zero_iff.mp hzero)
  have hshort : ¬0 + text'.length ≥ size := by
    have hlt := hitem.fits
    omega
  rw [sendItems, if_neg (not_le.mpr hi), hread]
  dsimp only
  rw [hrun]
  dsimp only
  rw [if_pos hfull, if_neg hpos, hstore]
  dsimp only
  rw [textOf_append h.free htake hends]
  dsimp only
  rw [sendItems, if_neg (not_le.mpr hi), hread]
  dsimp only
  rw [hrun']
  dsimp only
  rw [if_neg hshort, Nat.zero_add]

/-- With enough fuel the loop ends, and it reads nothing but items if there are only items from `i` on. -/
lemma sendItems_ends {fuel : ℕ} (hfuel : 2 * (n - i).toNat + (if s.cursor.pos = 0 then 0 else 1) < fuel) :
    ∃ stop s', sendItems z size append read n fuel i s = some (stop, s') ∧
      ((∀ j, i ≤ j → j < n → read j ≠ none) → stop ≠ .outside) := by
  induction fuel generalizing i s with
  | zero => omega
  | succ fuel ih =>
    rw [sendItems]
    by_cases hi : i ≥ n
    · rw [if_pos hi]
      exact ⟨.done, s, rfl, fun _ h => by cases h⟩
    rw [if_neg hi]
    -- An item takes two rounds at most, as the second one starts with an empty buffer.
    have hnext : ∀ s' : Sending α, 2 * (n - (i + 1)).toNat + (if s'.cursor.pos = 0 then 0 else 1) < fuel := by
      intro s'
      split_ifs at hfuel ⊢
      all_goals omega
    have hmono : (∀ j, i ≤ j → j < n → read j ≠ none) → ∀ j, i + 1 ≤ j → j < n → read j ≠ none :=
      fun h j hj hlt => h j (by omega) hlt
    cases hread : read i with
    | none => exact ⟨.outside, s, rfl, fun h => absurd hread (h i (le_refl i) (by omega))⟩
    | some item =>
      cases item with
      | none =>
        obtain ⟨stop, s', hrun, hinside⟩ := ih (hnext s)
        exact ⟨stop, s', hrun, fun h => hinside (hmono h)⟩
      | some item =>
        dsimp only
        cases hprint : append item s.cursor with
        | none => exact ⟨.overflow, s, rfl, fun _ h => by cases h⟩
        | some out =>
          obtain ⟨count, c⟩ := out
          cases count with
          | none => exact ⟨.failed, _, rfl, fun _ h => by cases h⟩
          | some count =>
            dsimp only
            by_cases hfull : s.total + count ≥ size
            · rw [if_pos hfull]
              by_cases hpos : s.cursor.pos = 0
              · rw [if_pos hpos]
                exact ⟨.full, _, rfl, fun _ h => by cases h⟩
              · rw [if_neg hpos] at hfuel ⊢
                cases store c.cells s.cursor.pos [z] with
                | none => exact ⟨.overflow, _, rfl, fun _ h => by cases h⟩
                | some cells =>
                  dsimp only
                  cases textOf z cells with
                  | none => exact ⟨.overflow, _, rfl, fun _ h => by cases h⟩
                  | some chunk =>
                    -- The same item again, at the start of the buffer.
                    apply ih
                    rw [if_pos rfl]
                    omega
            · rw [if_neg hfull]
              obtain ⟨stop, s', hrun, hinside⟩ := ih (hnext { s with cursor := c, total := s.total + count })
              exact ⟨stop, s', hrun, fun h => hinside (hmono h)⟩

omit [DecidableEq α] in
/-- The first cell tells if anything is in the buffer. -/
lemma Buffered.head_iff (h : Buffered z size text s) : s.cursor.cells.head? = some z ↔ text = [] := by
  rw [List.head?_eq_getElem?]
  cases text with
  | nil => exact ⟨fun _ => rfl, fun _ => h.ends⟩
  | cons c text =>
    have hfirst : s.cursor.cells[0]? = some c := by
      have htake := congrArg (fun l : List α => l[0]?) h.holds
      rw [List.getElem?_take_of_lt (show 0 < (c :: text).length from Nat.succ_pos _)] at htake
      exact htake
    rw [hfirst]
    constructor
    · intro hzero
      exact absurd (Option.some.inj hzero ▸ List.mem_cons_self) h.free
    · intro hnil
      cases hnil

/-- The items are sent in groups, and the last group stays in the buffer. -/
lemma sendItems_spec {items : List (Option R)} {texts : R → List α} (group : List (List α)) {fuel : ℕ}
    (hitems : ∀ item ∈ items.reduceOption, FitsIn z size (append item) (texts item))
    (hread : ∀ (k : ℕ) item, items[k]? = some item → read (i + k) = some item)
    (hn : n = i + items.length) (hfuel : 2 * items.length < fuel)
    (h : Buffered z size group.flatten s) :
    ∃ (s' : Sending α) (groups : List (List (List α))) (last : List (List α)),
      sendItems z size append read n fuel i s = some (.done, s') ∧
      s'.sent = s.sent ++ groups.map List.flatten ∧
      groups.flatten ++ last = group ++ items.reduceOption.map texts ∧
      Buffered z size last.flatten s' := by
  induction items generalizing i s fuel group with
  | nil =>
    obtain ⟨fuel, rfl⟩ := Nat.exists_eq_succ_of_ne_zero (Nat.ne_zero_of_lt hfuel)
    refine ⟨s, [], group, ?_, (List.append_nil _).symm, (List.append_nil _).symm, h⟩
    rw [sendItems, if_pos]
    rw [hn]
    exact (Int.add_zero i).le
  | cons item items ih =>
    rw [List.length_cons] at hfuel hn
    have hi : i < n := by omega
    have hread₀ : read i = some item := by
      have hhead := hread 0 item rfl
      rw [Int.natCast_zero, Int.add_zero] at hhead
      exact hhead
    have htail : ∀ (k : ℕ) item, items[k]? = some item → read (i + 1 + k) = some item := by
      intro k item' hk
      have hnext := hread (k + 1) item' hk
      rw [Int.natCast_succ, Int.add_comm (k : ℤ) 1, ← Int.add_assoc] at hnext
      exact hnext
    have hn' : n = i + 1 + items.length := by omega
    cases item with
    | none =>
      obtain ⟨fuel, rfl⟩ := Nat.exists_eq_succ_of_ne_zero (Nat.ne_zero_of_lt hfuel)
      obtain ⟨s', groups, last, hrun, hsent, htexts, hlast⟩ :=
        ih _ hitems htail hn' (show 2 * items.length < fuel by omega) h
      refine ⟨s', groups, last, ?_, hsent, htexts, hlast⟩
      rw [sendItems, if_neg (not_le.mpr hi), hread₀]
      exact hrun
    | some item =>
      have hfirst : FitsIn z size (append item) (texts item) := hitems item List.mem_cons_self
      have hrest : ∀ item ∈ items.reduceOption, FitsIn z size (append item) (texts item) :=
        fun item hitem => hitems item (List.mem_cons_of_mem _ hitem)
      obtain ⟨fuel, rfl⟩ : ∃ m, fuel = m + 2 := ⟨fuel - 2, by omega⟩
      by_cases hfits : group.flatten.length + (texts item).length < size
      · -- The item joins the group in the buffer.
        obtain ⟨s₁, hstep, hsent₁, hbuffered⟩ := sendItems_append hi hread₀ h hfirst hfits (fuel + 1)
        have hgroup : group.flatten ++ texts item = (group ++ [texts item]).flatten := by
          rw [List.flatten_append, List.flatten_singleton]
        rw [hgroup] at hbuffered
        obtain ⟨s', groups, last, hrun, hsent, htexts, hlast⟩ :=
          ih _ hrest htail hn' (show 2 * items.length < fuel + 1 by omega) hbuffered
        refine ⟨s', groups, last, hstep.trans hrun, hsent.trans (congrArg (· ++ _) hsent₁), ?_, hlast⟩
        rw [htexts, List.append_assoc]
        rfl
      · -- The group is sent, and the item is printed again as the first one of the next group.
        have hne : group.flatten ≠ [] := by
          intro hnil
          rw [hnil, List.length_nil] at hfits
          have hlt := hfirst.fits
          omega
        obtain ⟨s₁, hstep, hsent₁, hbuffered⟩ :=
          sendItems_flush hi hread₀ h hne hfirst (Nat.le_of_not_lt hfits) fuel
        have hgroup : texts item = [texts item].flatten := List.flatten_singleton.symm
        rw [hgroup] at hbuffered
        obtain ⟨s', groups, last, hrun, hsent, htexts, hlast⟩ :=
          ih _ hrest htail hn' (show 2 * items.length < fuel by omega) hbuffered
        refine ⟨s', group :: groups, last, hstep.trans hrun, ?_, ?_, hlast⟩
        · rw [hsent, hsent₁, List.append_assoc]
          rfl
        · rw [List.flatten_cons, List.append_assoc, htexts]
          rfl

end PrintBuffer

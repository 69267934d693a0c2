import ActiveHarmony.Config.SaveFile

/-!
# Escaped values

A backslash before every backslash, hash and newline makes the line of a value that `hcfg_parse` can read
back. The parser then takes a backslash off the front of the unquoted value, so a value that starts with one
loses it.
-/

namespace ActiveHarmony

open TextScan (isSpace)

/-- A character with a backslash where `hcfg_parse` needs one. -/
def escapeChar (c : UInt8) : Bytes := if c = 92 ∨ c = 35 ∨ c = 10 then [92, c] else [c]

/-- A value with its special characters escaped. -/
def escape (val : Bytes) : Bytes := val.flatMap escapeChar

variable {key val : Bytes}

lemma escape_cons (c : UInt8) (val : Bytes) : escape (c :: val) = escapeChar c ++ escape val :=
  List.flatMap_cons

/-- Unquoting undoes the escapes, up to the newline behind them. -/
theorem unquote_escape (val rest : Bytes) :
    unquote (escape val ++ 10 :: rest) = some (val, false) ∧
      unquoteRest (escape val ++ 10 :: rest) = 10 :: rest := by
  induction val with
  | nil => exact ⟨unquote_newline rest, unquoteRest_of_stop (Or.inl rfl) rest⟩
  | cons c val ih =>
    obtain ⟨hvalue, hrest⟩ := ih
    rw [escape_cons, escapeChar]
    by_cases hspecial : c = 92 ∨ c = 35 ∨ c = 10
    · rw [if_pos hspecial]
      have hback : unquoteRest (92 :: c :: (escape val ++ 10 :: rest)) =
          unquoteRest (escape val ++ 10 :: rest) := rfl
      show unquote (92 :: c :: (escape val ++ 10 :: rest)) = _ ∧
        unquoteRest (92 :: c :: (escape val ++ 10 :: rest)) = _
      rw [unquote_backslash, hback, hvalue]
      exact ⟨rfl, hrest⟩
    · have hc : c ≠ 10 ∧ c ≠ 35 ∧ c ≠ 92 := by
        simp only [not_or] at hspecial
        exact ⟨hspecial.2.2, hspecial.2.1, hspecial.1⟩
      rw [if_neg hspecial]
      show unquote (c :: (escape val ++ 10 :: rest)) = _ ∧ unquoteRest (c :: (escape val ++ 10 :: rest)) = _
      rw [unquote_char hc, unquoteRest_char hc, hvalue]
      exact ⟨rfl, hrest⟩

/-- A value without white space at its front is escaped to such a value. -/
lemma escape_head {c : UInt8} (hc : isSpace c = false) (val : Bytes) :
    ∃ d more, escape (c :: val) = d :: more ∧ isBlank d = false ∧ d ≠ 10 := by
  have hblank : isBlank c = false := by
    unfold isBlank
    rw [hc, Bool.false_and]
  rw [escape_cons, escapeChar]
  by_cases hspecial : c = 92 ∨ c = 35 ∨ c = 10
  · rw [if_pos hspecial]
    exact ⟨92, _, rfl, by decide, by decide⟩
  · rw [if_neg hspecial]
    exact ⟨c, _, rfl, hblank, fun hnl => hspecial (Or.inr (Or.inr hnl))⟩

/-- How `hcfg_parse` reads an escaped value. -/
lemma valueOf_escape {c : UInt8} (hc : isSpace c = false) (val rest : Bytes) :
    valueOf (escape (c :: val) ++ 10 :: rest) =
        some (some ((dropQuote (c :: val) false).rdropWhile isSpace)) ∧
      afterLine (unquoteRest ((escape (c :: val) ++ 10 :: rest).dropWhile isBlank)) = rest := by
  obtain ⟨hvalue, hrest⟩ := unquote_escape (c :: val) rest
  obtain ⟨d, more, hescape, hblank, hnl⟩ := escape_head hc val
  rw [hescape, List.cons_append] at hvalue hrest ⊢
  have hdrop : (d :: (more ++ 10 :: rest)).dropWhile isBlank = d :: (more ++ 10 :: rest) :=
    List.dropWhile_cons_of_neg (by rw [hblank]; decide)
  unfold valueOf
  rw [hdrop]
  dsimp only
  rw [if_neg hnl, hvalue, hrest]
  exact ⟨rfl, afterLine_newline rest⟩

/-- What is left of a value without white space at its end. -/
lemma dropQuote_eq_iff {c : UInt8} {val : Bytes} (hlast : (c :: val).rdropWhile isSpace = c :: val) :
    (dropQuote (c :: val) false).rdropWhile isSpace = c :: val ↔ c ≠ 92 := by
  unfold dropQuote
  constructor
  · intro hsame heq
    rw [if_pos ⟨rfl, congrArg some heq⟩] at hsame
    have hle := (List.rdropWhile_prefix isSpace (l := val)).length_le
    rw [List.tail_cons] at hsame
    rw [hsame, List.length_cons] at hle
    omega
  · intro hne
    rw [if_neg fun hback => hne (Option.some.inj hback.2)]
    exact hlast

/-- The line of an escaped value is read back, with the position behind it, exactly if the value does not
start with a backslash. -/
theorem hcfgParse_escape (hkey : IsKey key) (hne : val ≠ []) (hfirst : ∀ c ∈ val.head?, isSpace c = false)
    (hlast : ∀ c ∈ val.getLast?, isSpace c = false) (rest : Bytes) :
    (hcfgParse (KeyVal.line ⟨key, escape val⟩ ++ rest) = some (some (key.map toupper), some val) ∧
      hcfgNext (KeyVal.line ⟨key, escape val⟩ ++ rest) = some rest) ↔ val.head? ≠ some 92 := by
  obtain ⟨c, more, rfl⟩ := List.exists_cons_of_ne_nil hne
  have hline : KeyVal.line ⟨key, escape (c :: more)⟩ ++ rest =
      key ++ 61 :: (escape (c :: more) ++ 10 :: rest) := by
    unfold KeyVal.line
    rw [List.append_assoc, List.cons_append, List.append_assoc]
    rfl
  have hend : (c :: more).rdropWhile isSpace = c :: more := by
    rw [List.rdropWhile_eq_self_iff]
    intro hcons
    rw [hlast _ (List.getLast?_eq_getLast_of_ne_nil hcons)]
    decide
  obtain ⟨hvalue, hnext⟩ := valueOf_escape (hfirst c rfl) more rest
  have hparse := hcfgParse_request hkey (some (escape (c :: more) ++ 10 :: rest))
  rw [Option.getD_some, hvalue] at hparse
  have hread : hcfgParse (key ++ 61 :: (escape (c :: more) ++ 10 :: rest)) =
      some (some (key.map toupper), some ((dropQuote (c :: more) false).rdropWhile isSpace)) := hparse
  rw [hline, hread, hcfgNext_request hkey, hnext, List.head?_cons]
  constructor
  · intro ⟨hsame, _⟩ hback
    have hval := Option.some.inj (Prod.mk.inj (Option.some.inj hsame)).2
    exact (dropQuote_eq_iff hend).mp hval (Option.some.inj hback)
  · intro hback
    rw [(dropQuote_eq_iff hend).mpr fun heq => hback (congrArg some heq)]
    exact ⟨rfl, rfl⟩

/-- A title with all special characters. -/
theorem special_characters_read_back :
    hcfgParse (KeyVal.line ⟨cstr "title", escape [97, 35, 92, 10, 98]⟩) =
        some (some (cstr "TITLE"), some [97, 35, 92, 10, 98]) ∧
      hcfgNext (KeyVal.line ⟨cstr "title", escape [97, 35, 92, 10, 98]⟩) = some [] := by
  have hread := (@hcfgParse_escape (cstr "title") [97, 35, 92, 10, 98]
    ⟨by decide, List.all_eq_true.mp (by decide)⟩ (by decide) (fun c hc => by cases hc; decide)
    (fun c hc => by cases hc; decide) []).mpr (by decide)
  rw [List.append_nil] at hread
  exact hread

/-- A backslash at the front is lost. -/
theorem leading_backslash_lost : ¬ ∀ key val : Bytes, IsKey key → val ≠ [] →
    (∀ c ∈ val.head?, isSpace c = false) → (∀ c ∈ val.getLast?, isSpace c = false) →
    hcfgParse (KeyVal.line ⟨key, escape val⟩) = some (some (key.map toupper), some val) ∧
      hcfgNext (KeyVal.line ⟨key, escape val⟩) = some [] := by
  intro hclaim
  have hread := hclaim (cstr "TITLE") [92, 120] ⟨by decide, List.all_eq_true.mp (by decide)⟩ (by decide)
    (fun c hc => by cases hc; decide) (fun c hc => by cases hc; decide)
  exact absurd hread.1 (by decide)

end ActiveHarmony

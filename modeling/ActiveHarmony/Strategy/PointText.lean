import ActiveHarmony.Layer.CacheLog
import ActiveHarmony.Lib.BoundedBuffer

/-!
# Points as text

`hval_parse` and `hpoint_parse`, which read the values of a point from the text of a configuration key. The
text is what lies in memory from a pointer on: its bytes, the NUL and whatever is behind it. A read behind the
memory has no result.

The loop of `hval_parse_string` that looks for the end of a string goes on while its test for the end holds.
So no string is read as it was written.
-/

namespace ActiveHarmony

open TextScan

/-- `printf` in a form that `%lf` reads exactly, up to a comma or the end of the text. -/
structure LfFormat (V : Type) where
  print : V → Bytes
  scan : Scanner V
  print_terminated : ∀ v, 0 ∉ print v
  scan_print : ∀ v rest, (rest = [] ∨ ∃ tail, rest = 44 :: tail) → scan (print v ++ rest) = some (v, rest)

variable {V : Type} (fmt : LfFormat V)

/-! ## The parsers -/

/-- The text that starts here, if there is a NUL behind it. -/
def textAt (cells : Bytes) : Option Bytes :=
  if 0 ∈ cells then some (cells.takeWhile fun c => c != 0) else none

/-- `while (p(*buf)) ++buf;` -/
def skipCells (p : UInt8 → Bool) : Bytes → Option Bytes
  | [] => none
  | c :: cells => if p c then skipCells p cells else some (c :: cells)

/-- The loop over the bytes of a string goes on while this holds. -/
def atTail (quoted : Bool) (c : UInt8) : Bool := if quoted then c == 34 else isSpace c

/-- The loop over the bytes of a string: its number of rounds, and how far it goes. -/
def findTail (quoted : Bool) : Bytes → Option (ℕ × ℕ)
  | [] => none
  | [c] => if atTail quoted c then none else some (0, 0)
  | c :: d :: cells =>
    if atTail quoted c then
      if c = 92 then (findTail quoted cells).map fun res => (res.1 + 1, res.2 + 2)
      else (findTail quoted (d :: cells)).map fun res => (res.1 + 1, res.2 + 1)
    else some (0, 0)

/-- The loop that copies the bytes in front of the tail, without the backslashes. -/
def copyUnescaped : ℕ → Bytes → Option Bytes
  | 0, _ => some []
  | _ + 1, [] => none
  | dist + 1, c :: cells =>
    if c = 92 then
      match cells with
      | [] => none
      | d :: cells => (copyUnescaped (dist - 1) cells).map (d :: ·)
    else (copyUnescaped dist cells).map (c :: ·)

/-- `hval_parse_string`: the span, and the new string, for which there are `len + 1` bytes. -/
def hvalParseString (buf : Bytes) : Option (ℕ × Bytes) := do
  let head ← skipCells isSpace buf
  let c ← head.head?
  let quoted := c = 34
  let head := if quoted then head.tail else head
  let (len, dist) ← findTail quoted head
  let newbuf ← copyUnescaped dist head
  if newbuf.length ≤ len then
    some (buf.length - head.length + dist + 1, newbuf)
  else none

/-- `hval_parse`: the value and the span; the inner `none` is -1. -/
def hvalParse (bounds : HBounds V) (buf : Bytes) : Option (Option (HVal V × ℕ)) :=
  match bounds with
  | .int .. => (textAt buf).map fun text =>
      (scanLd text).map fun res => (.int res.1, text.length - res.2.length)
  | .real .. => (textAt buf).map fun text =>
      (fmt.scan text).map fun res => (.real res.1, text.length - res.2.length)
  | .str _ => (hvalParseString buf).map fun res => some (.str (some res.2), res.1)
  | .unknown => some none

/-- Skip whitespace and a single separator character. -/
def skipSeparator (buf : Bytes) : Option Bytes :=
  (skipCells isSpace buf).map fun buf =>
    match buf with
    | 44 :: cells => cells
    | 59 :: cells => cells
    | cells => cells

/-- The loop over the ranges: the values, and what is behind them. -/
def hpointParseVals : List (HRange V) → Bytes → Option (Option (List (HVal V) × Bytes))
  | [], buf => some (some ([], buf))
  | range :: ranges, buf =>
    match hvalParse fmt range.bounds buf with
    | none => none
    | some none => some none
    | some (some (val, span)) =>
      match skipSeparator (buf.drop span) with
      | none => none
      | some buf => (hpointParseVals ranges buf).map fun res => res.map fun res => (val :: res.1, res.2)

/-- `hpoint_parse`: its return value, and the point if it is 0. -/
def hpointParse (pt : HPoint V) (sig : HSignature V) (buf : Bytes) : Option (ℤ × Option (HPoint V)) :=
  let id := if pt.val.length ≠ sig.range.length then 0 else pt.id
  match hpointParseVals fmt sig.range buf with
  | none => none
  | some none => some (-1, none)
  | some (some (_, [])) => none
  | some (some (vals, c :: _)) => if c ≠ 0 then some (-1, none) else some (0, some { id := id, val := vals })

/-! ## The text of a point -/

/-- A quote and a backslash have a backslash in front of them. -/
def escapeByte (c : UInt8) : Bytes := if c = 34 ∨ c = 92 then [92, c] else [c]

/-- A value as it is written in a text. -/
def valText : HVal V → Bytes
  | .int i => decimalInt i
  | .real r => fmt.print r
  | .str s => 34 :: ((s.getD []).flatMap escapeByte ++ [34])
  | .unknown => []

/-- The values of a point, separated by commas. -/
def pointText (vals : List (HVal V)) : Bytes := [44].intercalate (vals.map (valText fmt))

variable {fmt}

/-! ## Numbers are read back -/

/-- What stands behind a value in a text. -/
def EndsVal (rest : Bytes) : Prop := (∃ tail, rest = 44 :: tail ∧ 0 ∈ tail) ∨ ∃ tail, rest = 0 :: tail

lemma textAt_append {text rest : Bytes} (htext : 0 ∉ text) (hrest : EndsVal rest) :
    ∃ rest', textAt (text ++ rest) = some (text ++ rest') ∧ (rest' = [] ∨ ∃ tail, rest' = 44 :: tail) := by
  have hmem : 0 ∈ text ++ rest := by
    apply List.mem_append_right
    obtain ⟨tail, rfl, htail⟩ | ⟨tail, rfl⟩ := hrest
    · exact List.mem_cons_of_mem _ htail
    · exact List.mem_cons_self
  have htake : (text ++ rest).takeWhile (fun c => c != 0) = text ++ rest.takeWhile (fun c => c != 0) := by
    apply List.takeWhile_append_of_pos
    intro c hc
    rw [bne_iff_ne]
    rintro rfl
    exact htext hc
  refine ⟨rest.takeWhile fun c => c != 0, ?_, ?_⟩
  · unfold textAt
    rw [if_pos hmem, htake]
  · obtain ⟨tail, rfl, -⟩ | ⟨tail, rfl⟩ := hrest
    · exact Or.inr ⟨_, rfl⟩
    · exact Or.inl rfl

lemma EndsVal.noDigit {rest : Bytes} (h : rest = [] ∨ ∃ tail, rest = 44 :: tail) : NoDigit rest := by
  obtain rfl | ⟨tail, rfl⟩ := h
  · intro c cs hnil
    cases hnil
  · exact noDigit_cons (by decide)

/-- The value is no string. -/
def HBounds.IsNumber : HBounds V → Prop
  | .str _ => False
  | _ => True

/-- A number is read back, and nothing behind it is. -/
lemma hvalParse_number {bounds : HBounds V} {v : HVal V} (hv : OfRange bounds v) (hnumber : bounds.IsNumber)
    {rest : Bytes} (hrest : EndsVal rest) :
    hvalParse fmt bounds (valText fmt v ++ rest) = some (some (v, (valText fmt v).length)) := by
  cases bounds with
  | unknown => exact hv.elim
  | str => exact hnumber.elim
  | int =>
    cases v with
    | int i =>
      obtain ⟨rest', htext, hends⟩ := textAt_append (decimalInt_terminated i) hrest
      have hread : scanLd (decimalInt i ++ rest') = some (i, rest') := by
        have hint : integer (decimalInt i ++ rest') = some (i, rest') :=
          integer_decimalInt i spaces_nil (EndsVal.noDigit hends)
        unfold scanLd
        rw [bind_eq_of_eq_some hint, clampLong_of_isLong hv]
        rfl
      show (textAt (decimalInt i ++ rest)).map _ = _
      rw [htext, Option.map_some, hread, Option.map_some, List.length_append, Nat.add_sub_cancel]
      rfl
    | _ => exact hv.elim
  | real =>
    cases v with
    | real r =>
      obtain ⟨rest', htext, hends⟩ := textAt_append (fmt.print_terminated r) hrest
      show (textAt (fmt.print r ++ rest)).map _ = _
      rw [htext, Option.map_some, fmt.scan_print r rest' hends, Option.map_some, List.length_append,
        Nat.add_sub_cancel]
      rfl
    | _ => exact hv.elim

/-! ## No string is -/

lemma skipCells_of_not {p : UInt8 → Bool} {c : UInt8} (hc : p c = false) (cells : Bytes) :
    skipCells p (c :: cells) = some (c :: cells) := by
  rw [skipCells, if_neg (by simp [hc])]

lemma EndsVal.head {rest : Bytes} (h : EndsVal rest) :
    ∃ c tail, rest = c :: tail ∧ (c = 44 ∨ c = 0) := by
  obtain ⟨tail, rfl, -⟩ | ⟨tail, rfl⟩ := h
  · exact ⟨44, tail, rfl, Or.inl rfl⟩
  · exact ⟨0, tail, rfl, Or.inr rfl⟩

/-- The loop stops at once in front of anything but a quote. -/
lemma findTail_stop {c : UInt8} (hc : c ≠ 34) (cells : Bytes) : findTail true (c :: cells) = some (0, 0) := by
  have hout : ¬atTail true c = true := by
    unfold atTail
    rw [if_pos rfl, beq_iff_eq]
    exact hc
  cases cells with
  | nil => exact if_neg hout
  | cons d cells => exact if_neg hout

lemma hvalParseString_eq {cells newbuf : Bytes} {len dist : ℕ}
    (hfind : findTail true cells = some (len, dist))
    (hcopy : copyUnescaped dist cells = some newbuf) (hlen : newbuf.length ≤ len) :
    hvalParseString (34 :: cells) = some (dist + 2, newbuf) := by
  unfold hvalParseString
  rw [skipCells_of_not (by decide)]
  show (findTail true cells).bind _ = _
  rw [hfind]
  show (copyUnescaped dist cells).bind _ = _
  rw [hcopy]
  show (if newbuf.length ≤ len then some (cells.length + 1 - cells.length + dist + 1, newbuf) else none) = _
  rw [if_pos hlen]
  congr 2
  omega

/-- The tail of a string in quotes is found at its first byte, and of the empty string one too late. -/
lemma hvalParseString_quoted (s : Bytes) {rest : Bytes} (hrest : EndsVal rest) :
    ∃ span s', hvalParseString (34 :: (s.flatMap escapeByte ++ 34 :: rest)) = some (span, s') ∧ s' ≠ s := by
  cases s with
  | nil =>
    obtain ⟨c, tail, rfl, hc⟩ := hrest.head
    have hstop : findTail true (c :: tail) = some (0, 0) := by
      apply findTail_stop
      obtain rfl | rfl := hc
      all_goals decide
    have hfind : findTail true (34 :: c :: tail) = some (1, 1) := by
      show (findTail true (c :: tail)).map _ = _
      rw [hstop]
      rfl
    -- The quote behind the empty string is taken for its first character.
    exact ⟨3, [34], hvalParseString_eq hfind rfl (le_refl _), by simp⟩
  | cons c s =>
    obtain ⟨d, cells, hcells, hd⟩ : ∃ d cells, (c :: s).flatMap escapeByte ++ 34 :: rest = d :: cells ∧
        d ≠ 34 := by
      rw [List.flatMap_cons, List.append_assoc]
      unfold escapeByte
      split_ifs with hc
      · exact ⟨92, _, rfl, by decide⟩
      · exact ⟨c, _, rfl, fun heq => hc (Or.inl heq)⟩
    -- Escaped or not, the first character is no quote, and so nothing is copied.
    rw [hcells]
    exact ⟨2, [], hvalParseString_eq (findTail_stop hd cells) rfl (le_refl _), by simp⟩

/-- A string is read as another one. -/
lemma hvalParse_string {set : List Bytes} {v : HVal V} (hv : OfRange (.str set) v) {rest : Bytes}
    (hrest : EndsVal rest) :
    ∃ v' span, hvalParse fmt (.str set) (valText fmt v ++ rest) = some (some (v', span)) ∧ v' ≠ v := by
  cases v with
  | str s =>
    cases s with
    | none => exact hv.elim
    | some s =>
      obtain ⟨span, s', hparse, hne⟩ := hvalParseString_quoted s hrest
      refine ⟨.str (some s'), span, ?_, ?_⟩
      · show (hvalParseString (34 :: (s.flatMap escapeByte ++ [34]) ++ rest)).map _ = _
        rw [List.cons_append, List.append_assoc]
        show (hvalParseString (34 :: (s.flatMap escapeByte ++ 34 :: rest))).map _ = _
        rw [hparse]
        rfl
      · intro heq
        cases heq
        exact hne rfl
  | _ => exact hv.elim

/-! ## The whole text -/

/-- The values behind the first one. -/
def pointTail (fmt : LfFormat V) : List (HVal V) → Bytes
  | [] => []
  | v :: vs => 44 :: (valText fmt v ++ pointTail fmt vs)

lemma pointText_cons (v : HVal V) (vs : List (HVal V)) :
    pointText fmt (v :: vs) = valText fmt v ++ pointTail fmt vs := by
  induction vs generalizing v with
  | nil =>
    show [44].intercalate [valText fmt v] = _
    rw [List.intercalate_singleton]
    exact (List.append_nil _).symm
  | cons w vs ih =>
    show [44].intercalate (valText fmt v :: valText fmt w :: vs.map (valText fmt)) = _
    rw [List.intercalate_cons_cons]
    have hnext := ih w
    unfold pointText at hnext
    rw [List.map_cons] at hnext
    rw [hnext]
    simp [pointTail]

lemma pointTail_ends (vs : List (HVal V)) (behind : Bytes) : EndsVal (pointTail fmt vs ++ 0 :: behind) := by
  cases vs with
  | nil => exact Or.inr ⟨behind, rfl⟩
  | cons v vs =>
    left
    refine ⟨valText fmt v ++ pointTail fmt vs ++ 0 :: behind, rfl, ?_⟩
    exact List.mem_append_right _ List.mem_cons_self

lemma skipSeparator_tail (v : HVal V) (vs : List (HVal V)) (behind : Bytes) :
    skipSeparator (pointTail fmt (v :: vs) ++ 0 :: behind) =
      some (pointText fmt (v :: vs) ++ 0 :: behind) := by
  rw [pointText_cons]
  show (skipCells isSpace (44 :: (valText fmt v ++ pointTail fmt vs ++ 0 :: behind))).map _ = _
  rw [skipCells_of_not (by decide)]
  rfl

lemma skipSeparator_end (behind : Bytes) : skipSeparator (0 :: behind) = some (0 :: behind) := by
  unfold skipSeparator
  rw [skipCells_of_not (by decide)]
  rfl

/-- The signature has no range of strings. -/
def OnlyNumbers (ranges : List (HRange V)) : Prop := ∀ range ∈ ranges, range.bounds.IsNumber

/-- Behind the text of a value, the loop goes on with the text of the others. -/
lemma hpointParseVals_cons {range : HRange V} {ranges : List (HRange V)} {v v' : HVal V} {vs : List (HVal V)}
    {span : ℕ} {behind : Bytes}
    (hparse : hvalParse fmt range.bounds (valText fmt v ++ (pointTail fmt vs ++ 0 :: behind)) =
      some (some (v', span))) :
    hpointParseVals fmt (range :: ranges) (pointText fmt (v :: vs) ++ 0 :: behind) =
      match skipSeparator ((valText fmt v ++ (pointTail fmt vs ++ 0 :: behind)).drop span) with
      | none => none
      | some buf => (hpointParseVals fmt ranges buf).map fun res => res.map fun res => (v' :: res.1, res.2) := by
  rw [pointText_cons, List.append_assoc, hpointParseVals, hparse]

variable (fmt) in
/-- Numbers are read one after the other. -/
lemma hpointParseVals_number {range : HRange V} {v : HVal V} (hv : OfRange range.bounds v)
    (hnumber : range.bounds.IsNumber) (ranges : List (HRange V)) (vs : List (HVal V)) (behind : Bytes) :
    hpointParseVals fmt (range :: ranges) (pointText fmt (v :: vs) ++ 0 :: behind) =
      (hpointParseVals fmt ranges (pointText fmt vs ++ 0 :: behind)).map fun res =>
        res.map fun res => (v :: res.1, res.2) := by
  have hparse : hvalParse fmt range.bounds (valText fmt v ++ (pointTail fmt vs ++ 0 :: behind)) = _ :=
    hvalParse_number hv hnumber (pointTail_ends vs behind)
  rw [hpointParseVals_cons hparse, List.drop_left]
  cases vs with
  | nil =>
    show (match skipSeparator (0 :: behind) with
      | none => none
      | some buf => _) = _
    rw [skipSeparator_end]
    rfl
  | cons w vs => rw [skipSeparator_tail]

lemma hpointParseVals_numbers {ranges : List (HRange V)} {vals : List (HVal V)}
    (hspace : InSpace ranges vals)
    (hnumbers : OnlyNumbers ranges) (behind : Bytes) :
    hpointParseVals fmt ranges (pointText fmt vals ++ 0 :: behind) = some (some (vals, 0 :: behind)) := by
  induction hspace with
  | nil => rfl
  | @cons range v ranges vs hv htail ih =>
    rw [hpointParseVals_number fmt hv (hnumbers range List.mem_cons_self) ranges vs behind,
      ih fun r hr => hnumbers r (List.mem_cons_of_mem range hr)]
    rfl

/-- A string in front of the others is not read as it is, whatever is made of the others. -/
lemma onlyNumbers_of_hpointParseVals {ranges : List (HRange V)} {vals : List (HVal V)} {behind rest : Bytes}
    (hspace : InSpace ranges vals)
    (h : hpointParseVals fmt ranges (pointText fmt vals ++ 0 :: behind) = some (some (vals, rest))) :
    OnlyNumbers ranges := by
  induction hspace with
  | nil =>
    intro range hmem
    cases hmem
  | @cons range v ranges vs hv htail ih =>
    by_cases hnumber : range.bounds.IsNumber
    · rw [hpointParseVals_number fmt hv hnumber ranges vs behind] at h
      obtain ⟨res, hres, hmap⟩ := Option.map_eq_some_iff.mp h
      obtain ⟨⟨vals, rest⟩, hrest, heq⟩ := Option.map_eq_some_iff.mp hmap
      cases heq
      rw [hrest] at hres
      intro r hr
      obtain rfl | hr := List.mem_cons.mp hr
      · exact hnumber
      · exact ih hres r hr
    · obtain ⟨set, hset⟩ : ∃ set, range.bounds = .str set := by
        cases hbounds : range.bounds with
        | str set => exact ⟨set, rfl⟩
        | _ =>
          rw [hbounds] at hnumber
          exact absurd trivial hnumber
      rw [hset] at hv
      obtain ⟨v', span, hparse, hne⟩ : ∃ v' span,
          hvalParse fmt (.str set) (valText fmt v ++ (pointTail fmt vs ++ 0 :: behind)) =
            some (some (v', span)) ∧ v' ≠ v := hvalParse_string hv (pointTail_ends vs behind)
      rw [← hset] at hparse
      rw [hpointParseVals_cons hparse] at h
      split at h
      · cases h
      · obtain ⟨res, -, hmap⟩ := Option.map_eq_some_iff.mp h
        obtain ⟨res', -, heq⟩ := Option.map_eq_some_iff.mp hmap
        cases heq
        exact absurd rfl hne

/-- The text of a point is read back as the point if and only if none of its values is a string. -/
theorem hpointParse_pointText_iff {sig : HSignature V} {vals : List (HVal V)}
    (hspace : InSpace sig.range vals) (pt : HPoint V) (behind : Bytes) :
    (∃ pt', hpointParse fmt pt sig (pointText fmt vals ++ 0 :: behind) = some (0, some pt') ∧
      pt'.val = vals) ↔ OnlyNumbers sig.range := by
  constructor
  · rintro ⟨pt', hparse, hvals⟩
    unfold hpointParse at hparse
    dsimp only at hparse
    split at hparse
    · cases hparse
    · cases hparse
    · cases hparse
    · next vals' c tail hread =>
      by_cases hnul : c ≠ 0
      · rw [if_pos hnul] at hparse
        cases hparse
      · rw [if_neg hnul] at hparse
        cases hparse
        cases hvals
        exact onlyNumbers_of_hpointParseVals hspace hread
  · intro hnumbers
    refine ⟨{ id := if pt.val.length ≠ sig.range.length then 0 else pt.id, val := vals }, ?_, rfl⟩
    unfold hpointParse
    rw [hpointParseVals_numbers hspace hnumbers behind]
    rfl

/-! ## Two signatures -/

/-- Whole numbers as reals, printed without a point. -/
def wholeFormat : LfFormat ℤ where
  print := decimalInt
  scan := integer
  print_terminated := decimalInt_terminated
  scan_print _ _ hrest := integer_decimalInt _ spaces_nil (EndsVal.noDigit hrest)

/-- A signature of a tile size and a factor. -/
def numberSignature : HSignature ℤ where
  name := some (cstr "gemm")
  range := [{ name := some (cstr "tile"), bounds := .int 1 64 1 },
    { name := some (cstr "factor"), bounds := .real 0 8 1 }]

theorem numberSignature_roundTrip :
    (∃ pt', hpointParse wholeFormat (hpointInitializer ℤ) numberSignature (cstr "-5,3" ++ 0 :: []) =
      some (0, some pt') ∧ pt'.val = [.int (-5), .real 3]) ↔ OnlyNumbers numberSignature.range := by
  have hspace : InSpace numberSignature.range [.int (-5), .real 3] := by
    refine .cons ?_ (.cons trivial .nil)
    show IsLong (-5)
    decide
  exact hpointParse_pointText_iff hspace (hpointInitializer ℤ) []

/-- A signature of a loop order. -/
def orderSignature : HSignature ℤ where
  name := some (cstr "gemm")
  range := [{ name := some (cstr "order"), bounds := .str [cstr "ijk", cstr "kji"] }]

/-- The value `"kji"` is read as the empty string, and what is behind that is an error. -/
theorem orderSignature_not_roundTrip :
    InSpace orderSignature.range [.str (some (cstr "kji"))] ∧
    pointText wholeFormat [.str (some (cstr "kji"))] = cstr "\"kji\"" ∧
    hvalParse wholeFormat (.str [cstr "ijk", cstr "kji"]) (cstr "\"kji\"" ++ [0]) =
      some (some (.str (some []), 2)) ∧
    hpointParse wholeFormat (hpointInitializer ℤ) orderSignature (cstr "\"kji\"" ++ [0]) =
      some (-1, none) := by
  refine ⟨.cons ?_ .nil, by decide, by decide, by decide⟩
  exact List.mem_cons_of_mem _ List.mem_cons_self

end ActiveHarmony

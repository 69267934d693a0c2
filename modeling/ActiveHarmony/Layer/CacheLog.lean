import ActiveHarmony.Layer.Cache
import ActiveHarmony.Wire.RoundTrip
import Mathlib.Data.List.TakeWhile

/-!
# The log of `log.c`, and how `cache.c` reads it

`logger_analyze` prints a line for each trial, and `load_logger_file` reads such lines back into the
cache with calls of `fscanf`, whose results it looks at only where a value is read.
`loads_back_iff` says which trials come back as they were.
-/

namespace ActiveHarmony

open TextScan

/-- The conversions `%lf` and `%la` of `printf`, and `%*f` and `%la` of `scanf`, which skip white space
themselves. A printed number is skipped, or read back exactly, up to the byte behind it. -/
structure LogFormat (V : Type) where
  lf : V → Bytes
  la : V → Bytes
  skipF : Bytes → Option Bytes
  scanLa : Scanner V
  lf_head : ∀ v, ∃ c cs, lf v = c :: cs ∧ isSpace c = false ∧ c ≠ 40
  lf_line : ∀ v, 10 ∉ lf v
  skip_lf : ∀ v c rest, c = 91 ∨ c = 10 → skipF (lf v ++ c :: rest) = some (c :: rest)
  scan_la : ∀ v rest, scanLa (la v ++ 93 :: rest) = some (v, 93 :: rest)

variable {V : Type} (fmt : LogFormat V)

/-! ## The writer -/

/-- `%lf[%la]`. -/
def LogFormat.bracketed (v : V) : Bytes := fmt.lf v ++ 91 :: (fmt.la v ++ [93])

/-- A value; `none` if it has no type. -/
def loggerValue : HVal V → Option Bytes
  | .int i => some (decimalInt i)
  | .real r => some (fmt.bracketed r)
  | .str s => some (34 :: (s.getD (cstr "(null)") ++ [34]))
  | .unknown => none

/-- The loop over the values, with what stands in front of the next one: the error and the text. -/
def loggerValues : Bytes → List (HVal V) → Option Bytes × Bytes
  | _, [] => (none, [])
  | sep, v :: vs =>
    match loggerValue fmt v with
    | none => (some (cstr "Invalid point value type"), sep)
    | some text =>
      let (error, rest) := loggerValues (cstr ",") vs
      (error, sep ++ (text ++ rest))

/-- The loop over the performances. -/
def loggerPerf : Bytes → List V → Bytes
  | _, [] => []
  | sep, p :: ps => sep ++ (fmt.bracketed p ++ loggerPerf (cstr ",") ps)

section

variable [Add V] [Zero V]

/-- `logger_analyze`: the error, and the text that is written. -/
def loggerAnalyze (trial : HTrial V V) : Option Bytes × Bytes :=
  let (error, vals) := loggerValues fmt [] trial.point.val
  let head := cstr "Point #" ++ (decimalInt trial.point.id ++ (cstr ": (" ++ vals))
  if error.isSome then (error, head)
  else
    let perfs := if 1 < trial.perf.p.length then
        cstr "=> (" ++ (loggerPerf fmt [] trial.perf.p ++ cstr ") ")
      else []
    (none, head ++ (cstr ") " ++ (perfs ++ (cstr "=> " ++ (fmt.lf (hperfUnify trial.perf) ++ [10])))))

/-- The text that is written for several trials. -/
def logText (trials : List (HTrial V V)) : Bytes :=
  (trials.map fun trial => (loggerAnalyze fmt trial).2).flatten

end

/-! ## The reader -/

/-- The part of a format without conversions: whether all of it matched, and what is left. -/
def scanfLiteral : Bytes → Bytes → Bool × Bytes
  | [], buf => (true, buf)
  | f :: fs, buf =>
    if isSpace f then scanfLiteral fs (skipSpace buf)
    else
      match buf with
      | [] => (false, [])
      | c :: cs => if c = f then scanfLiteral fs cs else (false, c :: cs)

/-- `%*d`. -/
def skipD (buf : Bytes) : Bool × Bytes :=
  let (_, buf) := sign (skipSpace buf)
  match digits buf with
  | none => (false, buf)
  | some (_, buf) => (true, buf)

/-- `"oint #%*d: ( "`. -/
def readHeader (buf : Bytes) : Bytes :=
  match scanfLiteral (cstr "oint #") buf with
  | (false, buf) => buf
  | (true, buf) =>
    match skipD buf with
    | (false, buf) => buf
    | (true, buf) => (scanfLiteral (cstr ": ( ") buf).2

/-- `"%*f[%la]"`. -/
def scanBracketed : Scanner V := fun buf =>
  match fmt.skipF buf with
  | none => none
  | some [] => none
  | some (c :: buf) =>
    if c = 91 then (fmt.scanLa buf).map fun res => (res.1, (scanfLiteral (cstr "]") res.2).2)
    else none

/-- `fgetc`; `none` is `EOF`. -/
def fgetc : Bytes → Option UInt8 × Bytes
  | [] => (none, [])
  | c :: buf => (some c, buf)

/-- The next byte of a string: the one after a backslash stands for itself. -/
def nextChar (buf : Bytes) : Option UInt8 × Bytes :=
  if (fgetc buf).1 = some 92 then fgetc (fgetc buf).2 else fgetc buf

/-- The loop of `safe_scanstr`, for at most so many bytes. -/
def scanChars : ℕ → Bytes → Bytes × Bytes
  | 0, buf => ([], buf)
  | room + 1, buf =>
    match nextChar buf with
    | (none, buf) => ([], buf)
    | (some c, buf) =>
      if c = 34 then ([], buf) else (c :: (scanChars room buf).1, (scanChars room buf).2)

/-- `sizeof(buf)`, where `buf` is a pointer. -/
def sizeofBuf : ℕ := 8

/-- `safe_scanstr`. A string that fills the buffer is written past its end, which is an error here. -/
def safeScanstr (buflen : ℕ) (set : List Bytes) : Scanner Bytes := fun buf =>
  let (str, buf) := scanChars buflen (scanfLiteral (cstr " \"") buf).2
  if str.length = sizeofBuf ∨ str.length = buflen then none
  else (set.find? (· = str)).map fun str => (str, buf)

/-- `find_max_strlen`. -/
def findMaxStrlen (ranges : List (HRange V)) : ℕ :=
  (ranges.map fun r => match r.bounds with
    | .str set => (set.map fun str => str.length + 1).foldr max 0
    | _ => 0).foldr max 0

/-- The error of a value that cannot be read. -/
def parseError : Bytes := cstr "Error parsing point data from logfile"

/-- The error of a performance that cannot be read. -/
def perfError : Bytes := cstr "Error parsing performance data from logfile"

/-- One value of a point. -/
def readValue (buflen : ℕ) (bounds : HBounds V) (buf : Bytes) : Except Bytes (HVal V × Bytes) :=
  match bounds with
  | .int .. => ((scanLd buf).map fun res => (.int res.1, res.2)).elim (.error parseError) .ok
  | .real .. =>
    ((scanBracketed fmt buf).map fun res => (.real res.1, res.2)).elim (.error parseError) .ok
  | .str set =>
    ((safeScanstr buflen set buf).map fun res => (.str (some res.1), res.2)).elim
      (.error parseError) .ok
  | .unknown => .error (cstr "Invalid point value type")

/-- The loop over the values, with what is skipped in front of the next one. -/
def readValues (buflen : ℕ) : Bytes → List (HRange V) → Bytes → Except Bytes (List (HVal V) × Bytes)
  | _, [], buf => .ok ([], buf)
  | sep, r :: rs, buf => do
    let (v, buf) ← readValue fmt buflen r.bounds (scanfLiteral sep buf).2
    let (vs, buf) ← readValues buflen (cstr " ,") rs buf
    return (v :: vs, buf)

/-- The loop over the performances. -/
def readPerf : Bytes → ℕ → Bytes → Except Bytes (List V × Bytes)
  | _, 0, buf => .ok ([], buf)
  | sep, n + 1, buf =>
    match scanBracketed fmt (skipSpace (scanfLiteral sep buf).2) with
    | none => .error perfError
    | some (p, buf) => do
      let (ps, buf) ← readPerf (cstr " ,") n buf
      return (p :: ps, buf)

/-- A line, from its second byte on. -/
def readEntry (ranges : List (HRange V)) (oCnt : ℕ) (buf : Bytes) :
    Except Bytes (CacheEntry V V × Bytes) := do
  let (val, buf) ← readValues fmt (findMaxStrlen ranges + 1) [] ranges (readHeader buf)
  let (p, buf) ← readPerf fmt [] oCnt (scanfLiteral (cstr " ) => (") buf).2
  match skipSpace buf with
  | [] => .error parseError
  | c :: buf =>
    if c = 41 then
      -- Discard the rest of the line.
      .ok ({ point := { id := 0, val := val }, perf := { p := p } }, buf.dropWhile (· ≠ 10))
    else .error parseError

/-- The loop of `load_logger_file`, for fewer than `fuel` lines: the cache, or the error. -/
def loadLoggerFile (ranges : List (HRange V)) (oCnt : ℕ) :
    ℕ → List (CacheEntry V V) → Bytes → Option (Except Bytes (List (CacheEntry V V)))
  | 0, _, _ => none
  | fuel + 1, cache, buf =>
    match skipSpace buf with
    | [] => some (.ok cache)
    | c :: buf =>
      -- Skip any line that doesn't start with 'P'.
      if c ≠ 80 then loadLoggerFile ranges oCnt fuel cache (buf.dropWhile (· ≠ 10))
      else
        match readEntry fmt ranges oCnt buf with
        | .error error => some (.error error)
        | .ok (entry, buf) => loadLoggerFile ranges oCnt fuel (cache ++ [entry]) buf

/-! ## Strings -/

/-- A string that `safe_scanstr` reads as it was printed. -/
def PlainString (str : Bytes) : Prop := 34 ∉ str ∧ 92 ∉ str ∧ str.length ≠ sizeofBuf

lemma nextChar_cons {c : UInt8} (hc : c ≠ 92) (buf : Bytes) : nextChar (c :: buf) = (some c, buf) :=
  if_neg fun h => hc (Option.some.inj h)

lemma scanChars_plain {str : Bytes} {room : ℕ} (rest : Bytes) (hquote : 34 ∉ str) (hescape : 92 ∉ str)
    (hroom : str.length < room) : scanChars room (str ++ 34 :: rest) = (str, rest) := by
  induction str generalizing room with
  | nil =>
    rcases Nat.exists_eq_succ_of_ne_zero (Nat.ne_of_gt hroom) with ⟨room, rfl⟩
    rfl
  | cons c str ih =>
    rcases Nat.exists_eq_succ_of_ne_zero (Nat.ne_zero_of_lt hroom) with ⟨room, rfl⟩
    rw [List.mem_cons, not_or] at hquote hescape
    have hrest := ih hquote.2 hescape.2 (Nat.lt_of_succ_lt_succ hroom)
    rw [List.cons_append, scanChars, nextChar_cons (Ne.symm hescape.1)]
    dsimp only
    rw [if_neg (Ne.symm hquote.1), hrest]

/-- No quotation mark gets into the buffer. -/
lemma scanChars_no_quote (room : ℕ) (buf : Bytes) : 34 ∉ (scanChars room buf).1 := by
  induction room generalizing buf with
  | zero => exact List.not_mem_nil
  | succ room ih =>
    rw [scanChars]
    rcases nextChar buf with ⟨_ | c, buf⟩
    · exact List.not_mem_nil
    · dsimp only
      split_ifs with hquote
      · exact List.not_mem_nil
      · exact List.not_mem_cons_of_ne_of_not_mem (Ne.symm hquote) (ih buf)

/-- The buffer gets no more bytes than the string has, and fewer if the string has a backslash. -/
lemma scanChars_length (room : ℕ) {str : Bytes} (rest : Bytes) (hquote : 34 ∉ str) :
    (scanChars room (str ++ 34 :: rest)).1.length ≤ str.length ∧
      (92 ∈ str → (scanChars room (str ++ 34 :: rest)).1.length < str.length) := by
  induction room generalizing str with
  | zero => exact ⟨Nat.zero_le _, fun hmem => List.length_pos_of_mem hmem⟩
  | succ room ih =>
    match str with
    | [] => exact ⟨Nat.le_refl _, fun hmem => absurd hmem List.not_mem_nil⟩
    | c :: str =>
      rw [List.mem_cons, not_or] at hquote
      by_cases hc : c = 92
      · -- the byte behind the backslash is the only one of the two that is stored
        subst hc
        suffices hlt : (scanChars (room + 1) (92 :: str ++ 34 :: rest)).1.length < str.length + 1 from
          ⟨Nat.le_of_lt hlt, fun _ => hlt⟩
        match str with
        | [] => exact Nat.zero_lt_one
        | d :: str =>
          rw [List.mem_cons, not_or] at hquote
          have hrest := (ih hquote.2.2).1
          have hnext : nextChar (92 :: (d :: str) ++ 34 :: rest) = (some d, str ++ 34 :: rest) := rfl
          rw [scanChars, hnext]
          dsimp only
          rw [if_neg (Ne.symm hquote.2.1)]
          dsimp only [List.length_cons]
          omega
      · have hrest := ih hquote.2
        rw [List.cons_append, scanChars, nextChar_cons hc]
        dsimp only
        rw [if_neg (Ne.symm hquote.1), List.mem_cons]
        dsimp only [List.length_cons]
        refine ⟨Nat.succ_le_succ hrest.1, fun hmem => Nat.succ_lt_succ (hrest.2 ?_)⟩
        exact hmem.resolve_left (Ne.symm hc)

/-- The string comes back only if it is free of quotation marks and backslashes. -/
lemma scanChars_eq {room : ℕ} {str rest : Bytes}
    (h : (scanChars room (str ++ 34 :: rest)).1 = str) : 34 ∉ str ∧ 92 ∉ str := by
  have hquote : 34 ∉ str := by
    rw [← h]
    exact scanChars_no_quote room _
  refine ⟨hquote, fun hescape => ?_⟩
  have hlt := (scanChars_length room rest hquote).2 hescape
  rw [h] at hlt
  exact Nat.lt_irrefl _ hlt

/-! ## Values -/

/-- A value that a range allows, except that a number may lie out of its bounds. -/
def OfRange : HBounds V → HVal V → Prop
  | .int .., .int i => IsLong i
  | .real .., .real _ => True
  | .str set, .str (some s) => s ∈ set
  | _, _ => False

/-- A value that is read as it was printed. -/
def PlainVal : HVal V → Prop
  | .str (some s) => PlainString s
  | _ => True

/-- The byte behind a value. -/
def IsDelimiter (c : UInt8) : Prop := c = 44 ∨ c = 41

lemma IsDelimiter.noDigit {c : UInt8} (hc : IsDelimiter c) (rest : Bytes) : NoDigit (c :: rest) := by
  rcases hc with rfl | rfl
  · exact noDigit_cons (by decide)
  · exact noDigit_cons (by decide)

variable {fmt}

lemma scanBracketed_bracketed (v : V) (rest : Bytes) :
    scanBracketed fmt (fmt.bracketed v ++ rest) = some (v, rest) := by
  have htext : fmt.bracketed v ++ rest = fmt.lf v ++ 91 :: (fmt.la v ++ 93 :: rest) := by
    unfold LogFormat.bracketed
    simp only [List.append_assoc, List.cons_append, List.nil_append]
  unfold scanBracketed
  rw [htext, fmt.skip_lf v 91 _ (Or.inl rfl)]
  dsimp only
  rw [if_pos rfl, fmt.scan_la]
  rfl

/-- A string is found in the set only if it was read as it is. -/
lemma safeScanstr_eq_some {buflen : ℕ} {set : List Bytes} {buf str rest : Bytes}
    (h : safeScanstr buflen set (34 :: buf) = some (str, rest)) :
    scanChars buflen buf = (str, rest) ∧ str.length ≠ sizeofBuf := by
  have hskip : (scanfLiteral (cstr " \"") (34 :: buf)).2 = buf := rfl
  unfold safeScanstr at h
  rw [hskip] at h
  rcases hscan : scanChars buflen buf with ⟨str', rest'⟩
  rw [hscan] at h
  dsimp only at h
  split_ifs at h with hlen
  rcases Option.map_eq_some_iff.mp h with ⟨found, hfound, heq⟩
  have hsame := of_decide_eq_true (@List.find?_some _ (· = str') _ _ hfound)
  rw [(Prod.mk.inj heq).1] at hsame
  rw [not_or] at hlen
  rw [hsame, (Prod.mk.inj heq).2]
  exact ⟨rfl, hlen.1⟩

lemma safeScanstr_plain {buflen : ℕ} {set : List Bytes} {str : Bytes} (hplain : PlainString str)
    (hmem : str ∈ set) (hlen : str.length < buflen) (rest : Bytes) :
    safeScanstr buflen set (34 :: (str ++ 34 :: rest)) = some (str, rest) := by
  have hskip : (scanfLiteral (cstr " \"") (34 :: (str ++ 34 :: rest))).2 = str ++ 34 :: rest := rfl
  have hfind : set.find? (· = str) = some str := by
    rcases hfound : set.find? (· = str) with _ | found
    · have hnone := List.find?_eq_none.mp hfound str hmem
      exact absurd (decide_eq_true rfl) hnone
    · rw [of_decide_eq_true (@List.find?_some _ (· = str) _ _ hfound)]
  unfold safeScanstr
  rw [hskip, scanChars_plain rest hplain.1 hplain.2.1 hlen]
  dsimp only
  rw [if_neg (not_or.mpr ⟨hplain.2.2, Nat.ne_of_lt hlen⟩), hfind]
  rfl

/-- Every string of a range fits the buffer. -/
def Fits (buflen : ℕ) (bounds : HBounds V) : Prop :=
  ∀ set, bounds = .str set → ∀ str ∈ set, str.length < buflen

/-- A value comes back as it was exactly if it is plain, and then the reader stands behind it. -/
lemma readValue_iff {buflen : ℕ} {bounds : HBounds V} {v : HVal V} {text rest : Bytes} {c : UInt8}
    (hfits : Fits buflen bounds) (hv : OfRange bounds v) (htext : loggerValue fmt v = some text)
    (hc : IsDelimiter c) (buf : Bytes) :
    readValue fmt buflen bounds (text ++ c :: rest) = .ok (v, buf) ↔ PlainVal v ∧ buf = c :: rest := by
  cases bounds with
  | unknown => exact hv.elim
  | int =>
    cases v with
    | int i =>
      cases htext
      have hread : integer (decimalInt i ++ c :: rest) = some (i, c :: rest) :=
        integer_decimalInt i spaces_nil (hc.noDigit rest)
      have hscan : scanLd (decimalInt i ++ c :: rest) = some (i, c :: rest) := by
        unfold scanLd
        rw [bind_eq_of_eq_some hread, clampLong_of_isLong hv]
        rfl
      unfold readValue
      dsimp only
      rw [hscan]
      exact ⟨fun h => ⟨trivial, by cases h; rfl⟩, fun h => by rw [h.2]; rfl⟩
    | _ => exact hv.elim
  | real =>
    cases v with
    | real r =>
      cases htext
      unfold readValue
      dsimp only
      rw [scanBracketed_bracketed]
      exact ⟨fun h => ⟨trivial, by cases h; rfl⟩, fun h => by rw [h.2]; rfl⟩
    | _ => exact hv.elim
  | str set =>
    cases v with
    | str s =>
      cases s with
      | none => exact hv.elim
      | some str =>
        cases htext
        have happend : 34 :: (str ++ [34]) ++ c :: rest = 34 :: (str ++ 34 :: c :: rest) := by
          rw [List.cons_append, List.append_assoc, List.singleton_append]
        unfold readValue
        dsimp only [Option.getD_some]
        rw [happend]
        constructor
        · intro h
          rcases hscan : safeScanstr buflen set (34 :: (str ++ 34 :: c :: rest)) with
            _ | ⟨str', buf'⟩
          · rw [hscan] at h
            cases h
          · rw [hscan] at h
            cases h
            rcases safeScanstr_eq_some hscan with ⟨hchars, hlen⟩
            have hfree := scanChars_eq (congrArg Prod.fst hchars)
            have hplain := scanChars_plain (c :: rest) hfree.1 hfree.2 (hfits set rfl _ hv)
            rw [hchars] at hplain
            exact ⟨⟨hfree.1, hfree.2, hlen⟩, (Prod.mk.inj hplain).2⟩
        · intro h
          rw [safeScanstr_plain h.1 hv (hfits set rfl str hv), h.2]
          rfl
    | _ => exact hv.elim

/-- What `find_max_strlen` is for. -/
lemma fits_findMaxStrlen {ranges : List (HRange V)} {r : HRange V} (hr : r ∈ ranges) :
    Fits (findMaxStrlen ranges + 1) r.bounds := by
  intro set hset str hstr
  have hfold : ∀ (l : List ℕ) (n : ℕ), n ∈ l → n ≤ l.foldr max 0 :=
    fun l n hn => List.le_max_of_le' 0 hn (Nat.le_refl n)
  have hlen := hfold (set.map fun str => str.length + 1) _ (List.mem_map.mpr ⟨str, hstr, rfl⟩)
  have hmax : _ ≤ findMaxStrlen ranges := hfold _ _ (List.mem_map.mpr ⟨r, hr, rfl⟩)
  rw [hset] at hmax
  dsimp only at hmax
  omega

/-- The values of a point in the search space. -/
def InSpace (ranges : List (HRange V)) (vals : List (HVal V)) : Prop :=
  List.Forall₂ (fun r v => OfRange r.bounds v) ranges vals

variable (fmt) in
lemma OfRange.loggerValue {bounds : HBounds V} {v : HVal V} (hv : OfRange bounds v) :
    ∃ text, loggerValue fmt v = some text := by
  cases v with
  | unknown => cases bounds <;> exact hv.elim
  | _ => exact ⟨_, rfl⟩

lemma loggerValues_cons {v : HVal V} {text : Bytes} (h : loggerValue fmt v = some text) (sep : Bytes)
    (vs : List (HVal V)) : loggerValues fmt sep (v :: vs) =
      ((loggerValues fmt (cstr ",") vs).1, sep ++ (text ++ (loggerValues fmt (cstr ",") vs).2)) := by
  rw [loggerValues, h]

variable (fmt) in
lemma InSpace.no_error {ranges : List (HRange V)} {vals : List (HVal V)} (h : InSpace ranges vals)
    (sep : Bytes) : (loggerValues fmt sep vals).1 = none := by
  induction h generalizing sep with
  | nil => rfl
  | cons hv _ ih =>
    rcases hv.loggerValue fmt with ⟨text, htext⟩
    rw [loggerValues_cons htext]
    exact ih _

variable (fmt) in
/-- A value is followed by a delimiter. -/
lemma loggerValues_delimiter {ranges : List (HRange V)} {vals : List (HVal V)}
    (h : InSpace ranges vals) (rest : Bytes) :
    ∃ c tail, (loggerValues fmt (cstr ",") vals).2 ++ 41 :: rest = c :: tail ∧ IsDelimiter c := by
  cases h with
  | nil => exact ⟨41, rest, rfl, Or.inr rfl⟩
  | cons hv _ =>
    rcases hv.loggerValue fmt with ⟨text, htext⟩
    rw [loggerValues_cons htext]
    exact ⟨44, _, rfl, Or.inl rfl⟩

/-- What is printed in front of a value and what is skipped there. -/
def Separates (printed skipped : Bytes) : Prop :=
  ∀ buf, (scanfLiteral skipped (printed ++ buf)).2 = buf

lemma separates_nil : Separates [] [] := fun _ => rfl

lemma separates_comma : Separates (cstr ",") (cstr " ,") := fun _ => rfl

/-- A computation succeeds if and only if both of its parts do. -/
lemma bind_eq_ok {ε α β : Type} {x : Except ε α} {f : α → Except ε β} {b : β} :
    (x >>= f) = .ok b ↔ ∃ a, x = .ok a ∧ f a = .ok b := by
  cases x with
  | error e =>
    constructor
    · rintro ⟨⟩
    · rintro ⟨a, ⟨⟩, -⟩
  | ok a =>
    constructor
    · exact fun h => ⟨a, rfl, h⟩
    · rintro ⟨a', ha, h⟩
      cases ha
      exact h

variable (fmt) in
/-- The values come back exactly if all of them are plain. -/
lemma readValues_iff {buflen : ℕ} {ranges : List (HRange V)} {vals : List (HVal V)}
    (hfits : ∀ r ∈ ranges, Fits buflen r.bounds) (hvals : InSpace ranges vals) {printed skipped : Bytes}
    (hsep : Separates printed skipped) (rest buf : Bytes) :
    readValues fmt buflen skipped ranges ((loggerValues fmt printed vals).2 ++ 41 :: rest) =
      .ok (vals, buf) ↔ (∀ v ∈ vals, PlainVal v) ∧ buf = 41 :: rest := by
  induction hvals generalizing printed skipped with
  | nil =>
    refine ⟨fun h => ⟨fun v hv => absurd hv List.not_mem_nil, ?_⟩, fun h => ?_⟩
    · exact (Prod.mk.inj (Except.ok.inj h)).2.symm
    · rw [h.2]
      rfl
  | @cons r v rs vs hv hvs ih =>
    have hrest := ih (fun r hr => hfits r (List.mem_cons_of_mem _ hr)) separates_comma
    rcases hv.loggerValue fmt with ⟨text, htext⟩
    rcases loggerValues_delimiter fmt hvs rest with ⟨c, tail, htail, hc⟩
    have hvalue := @readValue_iff _ _ _ _ _ _ tail _ (hfits r List.mem_cons_self) hv htext hc
    rw [loggerValues_cons htext, List.append_assoc, List.append_assoc, readValues, hsep, htail,
      List.forall_mem_cons]
    rw [htail] at hrest
    simp only [bind_eq_ok, Prod.exists]
    constructor
    · rintro ⟨v', buf', hread, vs', buf'', hreads, heq⟩
      cases heq
      rcases (hvalue buf').mp hread with ⟨hplain, rfl⟩
      rcases hrest.mp hreads with ⟨hplains, hbuf⟩
      exact ⟨⟨hplain, hplains⟩, hbuf⟩
    · rintro ⟨⟨hplain, hplains⟩, hbuf⟩
      exact ⟨v, _, (hvalue _).mpr ⟨hplain, rfl⟩, vs, buf, hrest.mpr ⟨hplains, hbuf⟩, rfl⟩

/-! ## Lines -/

lemma skipSpace_cons {c : UInt8} (hc : isSpace c = false) (buf : Bytes) :
    skipSpace (c :: buf) = c :: buf :=
  skipSpace_append spaces_nil hc

lemma decimalInt_head (z : ℤ) : ∃ c cs, decimalInt z = c :: cs ∧ isSpace c = false := by
  unfold decimalInt
  by_cases hz : z < 0
  · rw [if_pos hz]
    exact ⟨45, _, rfl, by decide⟩
  · rw [if_neg hz]
    rcases decimal_head z.natAbs with ⟨c, cs, hcs, hc⟩
    exact ⟨c, cs, hcs, isDigit_not_isSpace hc⟩

lemma loggerValue_head {v : HVal V} {text : Bytes} (h : loggerValue fmt v = some text) :
    ∃ c cs, text = c :: cs ∧ isSpace c = false := by
  cases v with
  | unknown => cases h
  | int i =>
    cases h
    exact decimalInt_head i
  | real r =>
    cases h
    rcases fmt.lf_head r with ⟨c, cs, hcs, hc, -⟩
    exact ⟨c, cs ++ 91 :: (fmt.la r ++ [93]), by rw [LogFormat.bracketed, hcs]; rfl, hc⟩
  | str s =>
    cases h
    exact ⟨34, _, rfl, by decide⟩

variable (fmt) in
/-- The values start where the header ends. -/
lemma loggerValues_head {ranges : List (HRange V)} {vals : List (HVal V)}
    (h : InSpace ranges vals) (rest : Bytes) :
    ∃ c tail, (loggerValues fmt [] vals).2 ++ 41 :: rest = c :: tail ∧ isSpace c = false := by
  cases h with
  | nil => exact ⟨41, rest, rfl, by decide⟩
  | cons hv _ =>
    rcases hv.loggerValue fmt with ⟨text, htext⟩
    rcases loggerValue_head htext with ⟨c, cs, rfl, hc⟩
    rw [loggerValues_cons htext]
    exact ⟨c, _, rfl, hc⟩

lemma skipD_decimalInt (z : ℤ) {rest : Bytes} (hrest : NoDigit rest) :
    skipD (decimalInt z ++ rest) = (true, rest) := by
  rcases decimalInt_head z with ⟨c, cs, hcs, hc⟩
  have hskip : skipSpace (decimalInt z ++ rest) = decimalInt z ++ rest := by
    rw [hcs]
    exact skipSpace_cons hc _
  have hdigits : digits (sign (decimalInt z ++ rest)).2 = some (z.natAbs, rest) := by
    unfold decimalInt
    by_cases hz : z < 0
    · rw [if_pos hz]
      exact digits_decimal z.natAbs hrest
    · rw [if_neg hz]
      rcases decimal_head z.natAbs with ⟨d, ds, hds, hd⟩
      have hsign := @sign_of_isDigit d (ds ++ rest) hd
      rw [← List.cons_append, ← hds] at hsign
      rw [hsign]
      exact digits_decimal z.natAbs hrest
  unfold skipD
  rw [hskip]
  dsimp only
  rw [hdigits]

lemma readHeader_text (id : ℤ) {buf : Bytes} (hbuf : ∃ c tail, buf = c :: tail ∧ isSpace c = false) :
    readHeader (cstr "oint #" ++ (decimalInt id ++ (cstr ": (" ++ buf))) = buf := by
  rcases hbuf with ⟨c, tail, rfl, hc⟩
  have hliteral : ∀ x, scanfLiteral (cstr "oint #") (cstr "oint #" ++ x) = (true, x) := fun _ => rfl
  have hcolon : (scanfLiteral (cstr ": ( ") (cstr ": (" ++ c :: tail)).2 = skipSpace (c :: tail) := rfl
  have hdigit : NoDigit (cstr ": (" ++ c :: tail) := noDigit_cons (by decide)
  unfold readHeader
  rw [hliteral]
  dsimp only
  rw [skipD_decimalInt id hdigit]
  dsimp only
  rw [hcolon, skipSpace_cons hc]

lemma bracketed_skipSpace (v : V) (rest : Bytes) :
    skipSpace (fmt.bracketed v ++ rest) = fmt.bracketed v ++ rest := by
  rcases fmt.lf_head v with ⟨c, cs, hcs, hc, -⟩
  rw [LogFormat.bracketed, hcs]
  exact skipSpace_cons hc _

/-- Performances come back. -/
lemma readPerf_text (ps : List V) {printed skipped : Bytes} (hsep : Separates printed skipped)
    (rest : Bytes) :
    readPerf fmt skipped ps.length (loggerPerf fmt printed ps ++ rest) = .ok (ps, rest) := by
  induction ps generalizing printed skipped with
  | nil => rfl
  | cons p ps ih =>
    have hrest := ih separates_comma
    rw [List.length_cons, readPerf, loggerPerf, List.append_assoc, List.append_assoc, hsep,
      bracketed_skipSpace, scanBracketed_bracketed]
    dsimp only
    rw [hrest]
    rfl

section

variable [Add V] [Zero V]

variable (fmt) in
/-- The part of a line behind the values. -/
def perfText (perf : HPerf V) : Bytes :=
  let perfs := if 1 < perf.p.length then cstr "=> (" ++ (loggerPerf fmt [] perf.p ++ cstr ") ") else []
  perfs ++ (cstr "=> " ++ (fmt.lf (hperfUnify perf) ++ [10]))

lemma loggerAnalyze_text {ranges : List (HRange V)} {trial : HTrial V V}
    (h : InSpace ranges trial.point.val) :
    (loggerAnalyze fmt trial).2 = 80 :: (cstr "oint #" ++ (decimalInt trial.point.id ++ (cstr ": (" ++
      ((loggerValues fmt [] trial.point.val).2 ++ 41 :: 32 :: perfText fmt trial.perf)))) := by
  have herror := h.no_error fmt []
  unfold loggerAnalyze
  rcases hvals : loggerValues fmt [] trial.point.val with ⟨error, vals⟩
  rw [hvals] at herror
  dsimp only at herror ⊢
  rw [if_neg (by rw [herror]; decide), List.append_assoc, List.append_assoc, List.append_assoc]
  rfl

variable (fmt) in
/-- A line with several performances is read to its end. -/
lemma perfText_many {perf : HPerf V} (hmany : 1 < perf.p.length) (more : Bytes) :
    ∃ buf, scanfLiteral (cstr " ) => (") (41 :: 32 :: (perfText fmt perf ++ more)) = (true, buf) ∧
      ∃ buf', readPerf fmt [] perf.p.length buf = .ok (perf.p, 41 :: buf') ∧
        buf'.dropWhile (· ≠ 10) = 10 :: more := by
  have htext : perfText fmt perf ++ more = cstr "=> (" ++ (loggerPerf fmt [] perf.p ++
      41 :: 32 :: (cstr "=> " ++ (fmt.lf (hperfUnify perf) ++ 10 :: more))) := by
    unfold perfText
    dsimp only
    rw [if_pos hmany]
    simp only [List.append_assoc, List.cons_append, List.nil_append]
    rfl
  rw [htext]
  refine ⟨_, rfl, _, readPerf_text perf.p separates_nil _, ?_⟩
  have hline : ∀ c ∈ 32 :: (cstr "=> " ++ fmt.lf (hperfUnify perf)), decide (c ≠ 10) = true := by
    intro c hc
    rw [decide_eq_true_eq]
    rintro rfl
    rw [List.mem_cons, List.mem_append] at hc
    rcases hc with h32 | hlit | hlf
    · exact absurd h32 (by decide)
    · exact absurd hlit (by decide)
    · exact fmt.lf_line _ hlf
  rw [← List.append_assoc, ← List.cons_append, List.dropWhile_append_of_pos hline]
  rfl

variable (fmt) in
/-- A line with a single performance has no list of performances. -/
lemma perfText_one {perf : HPerf V} (hone : perf.p.length = 1) (more : Bytes) (oCnt : ℕ) :
    readPerf fmt [] (oCnt + 1)
      (scanfLiteral (cstr " ) => (") (41 :: 32 :: (perfText fmt perf ++ more))).2 =
        .error perfError := by
  have htext : perfText fmt perf ++ more =
      cstr "=> " ++ (fmt.lf (hperfUnify perf) ++ 10 :: more) := by
    unfold perfText
    dsimp only
    rw [if_neg (by omega), List.nil_append, List.append_assoc, List.append_assoc,
      List.singleton_append]
  rcases fmt.lf_head (hperfUnify perf) with ⟨c, cs, hcs, hc, hparen⟩
  have hskip := skipSpace_cons hc (cs ++ 10 :: more)
  have hliteral : (scanfLiteral (cstr " ) => (") (41 :: 32 :: (perfText fmt perf ++ more))).2 =
      fmt.lf (hperfUnify perf) ++ 10 :: more := by
    rw [htext, hcs]
    show (scanfLiteral (cstr "(") (skipSpace (c :: (cs ++ 10 :: more)))).2 = _
    rw [hskip]
    show (if c = 40 then scanfLiteral [] (cs ++ 10 :: more) else (false, c :: (cs ++ 10 :: more))).2 = _
    rw [if_neg hparen]
    rfl
  have hspace : skipSpace (scanfLiteral [] (fmt.lf (hperfUnify perf) ++ 10 :: more)).2 =
      fmt.lf (hperfUnify perf) ++ 10 :: more := by
    rw [hcs]
    exact hskip
  have hscan : scanBracketed fmt (fmt.lf (hperfUnify perf) ++ 10 :: more) = none := by
    unfold scanBracketed
    rw [fmt.skip_lf _ 10 _ (Or.inr rfl)]
    rfl
  rw [hliteral, readPerf, hspace, hscan]

/-- What the cache should contain for a trial. -/
def entryOf (trial : HTrial V V) : CacheEntry V V :=
  { point := { id := 0, val := trial.point.val }, perf := trial.perf }

/-- The line of a trial behind its first byte, and what follows it. -/
def lineTail (fmt : LogFormat V) (trial : HTrial V V) (more : Bytes) : Bytes :=
  cstr "oint #" ++ (decimalInt trial.point.id ++ (cstr ": (" ++
    ((loggerValues fmt [] trial.point.val).2 ++ 41 :: 32 :: (perfText fmt trial.perf ++ more))))

lemma readHeader_lineTail {ranges : List (HRange V)} {trial : HTrial V V}
    (h : InSpace ranges trial.point.val) (more : Bytes) :
    readHeader (lineTail fmt trial more) =
      (loggerValues fmt [] trial.point.val).2 ++ 41 :: 32 :: (perfText fmt trial.perf ++ more) :=
  readHeader_text trial.point.id (loggerValues_head fmt h _)

variable (fmt) in
/-- An entry comes back exactly if it has several performances and plain values. -/
lemma readEntry_iff {ranges : List (HRange V)} {trial : HTrial V V}
    (hspace : InSpace ranges trial.point.val) (hperf : 1 ≤ trial.perf.p.length)
    (more buf : Bytes) :
    readEntry fmt ranges trial.perf.p.length (lineTail fmt trial more) = .ok (entryOf trial, buf) ↔
      (1 < trial.perf.p.length ∧ ∀ v ∈ trial.point.val, PlainVal v) ∧ buf = 10 :: more := by
  have hvalues := readValues_iff fmt (fun r hr => fits_findMaxStrlen hr) hspace separates_nil
    (32 :: (perfText fmt trial.perf ++ more))
  unfold readEntry
  rw [readHeader_lineTail hspace]
  simp only [bind_eq_ok, Prod.exists]
  constructor
  · rintro ⟨val, buf₁, hval, p, buf₂, hp, hend⟩
    rcases hskip : skipSpace buf₂ with _ | ⟨c, rest⟩
    · rw [hskip] at hend
      cases hend
    · rw [hskip] at hend
      dsimp only at hend
      split_ifs at hend with hc
      rcases Prod.mk.inj (Except.ok.inj hend) with ⟨hentry, hbuf⟩
      have hval' : val = trial.point.val := congrArg (fun e => e.point.val) hentry
      rw [hval'] at hval
      rcases (hvalues buf₁).mp hval with ⟨hplain, rfl⟩
      rcases Nat.lt_or_ge 1 trial.perf.p.length with hmany | hone
      · rcases perfText_many fmt hmany more with ⟨buf₃, hliteral, buf₄, hread, hline⟩
        rw [hliteral, hread] at hp
        cases hp
        cases (show 41 :: buf₄ = c :: rest from hskip)
        rw [hline] at hbuf
        exact ⟨⟨hmany, hplain⟩, hbuf.symm⟩
      · have hlen : trial.perf.p.length = 0 + 1 := Nat.le_antisymm hone hperf
        have herror := perfText_one fmt hlen more 0
        rw [hlen, herror] at hp
        cases hp
  · rintro ⟨⟨hmany, hplain⟩, rfl⟩
    rcases perfText_many fmt hmany more with ⟨buf₁, hliteral, buf₂, hread, hline⟩
    refine ⟨_, _, (hvalues _).mpr ⟨hplain, rfl⟩, trial.perf.p, _, by rw [hliteral]; exact hread, ?_⟩
    have hskip : skipSpace (41 :: buf₂) = 41 :: buf₂ := skipSpace_cons (by decide) buf₂
    rw [hskip]
    dsimp only
    rw [if_pos rfl, hline]
    rfl

lemma logText_cons {ranges : List (HRange V)} {trial : HTrial V V}
    (hspace : InSpace ranges trial.point.val) (trials : List (HTrial V V)) :
    logText fmt (trial :: trials) = 80 :: lineTail fmt trial (logText fmt trials) := by
  unfold logText lineTail
  rw [List.map_cons, List.flatten_cons, loggerAnalyze_text hspace]
  simp only [List.append_assoc, List.cons_append]

end

/-! ## Files -/

variable {ranges : List (HRange V)}

/-- `hpoint_init` sets the identifier. -/
lemma readEntry_id {oCnt : ℕ} {buf buf' : Bytes} {entry : CacheEntry V V}
    (h : readEntry fmt ranges oCnt buf = .ok (entry, buf')) : entry.point.id = 0 := by
  unfold readEntry at h
  simp only [bind_eq_ok, Prod.exists] at h
  rcases h with ⟨val, buf₁, -, p, buf₂, -, hend⟩
  rcases hskip : skipSpace buf₂ with _ | ⟨c, rest⟩
  · rw [hskip] at hend
    cases hend
  · rw [hskip] at hend
    dsimp only at hend
    split_ifs at hend
    cases hend
    rfl

lemma skipSpace_spaces {ws : Bytes} (hws : Spaces ws) : skipSpace ws = [] :=
  List.dropWhile_eq_nil_iff.mpr hws

variable (fmt) in
lemma loadLoggerFile_end {ws : Bytes} (hws : Spaces ws) (oCnt fuel : ℕ)
    (cache : List (CacheEntry V V)) :
    loadLoggerFile fmt ranges oCnt (fuel + 1) cache ws = some (.ok cache) := by
  rw [loadLoggerFile, skipSpace_spaces hws]

lemma loadLoggerFile_line {ws : Bytes} (hws : Spaces ws) (oCnt fuel : ℕ)
    (cache : List (CacheEntry V V)) (buf : Bytes) :
    loadLoggerFile fmt ranges oCnt (fuel + 1) cache (ws ++ 80 :: buf) =
      (readEntry fmt ranges oCnt buf).casesOn (fun error => some (.error error))
        fun res => loadLoggerFile fmt ranges oCnt fuel (cache ++ [res.1]) res.2 := by
  rw [loadLoggerFile, skipSpace_append hws (by decide)]
  dsimp only
  rw [if_neg (not_not_intro rfl)]
  rcases readEntry fmt ranges oCnt buf with error | ⟨entry, buf'⟩
  · rfl
  · rfl

/-- Entries are only added. -/
lemma loadLoggerFile_extends {oCnt fuel : ℕ} {cache entries : List (CacheEntry V V)} {buf : Bytes}
    (h : loadLoggerFile fmt ranges oCnt fuel cache buf = some (.ok entries)) :
    ∃ more, entries = cache ++ more := by
  induction fuel generalizing cache buf with
  | zero => cases h
  | succ fuel ih =>
    rw [loadLoggerFile] at h
    rcases hskip : skipSpace buf with _ | ⟨c, rest⟩
    · rw [hskip] at h
      cases h
      exact ⟨[], (List.append_nil _).symm⟩
    · rw [hskip] at h
      dsimp only at h
      split_ifs at h
      · exact ih h
      · rcases hread : readEntry fmt ranges oCnt rest with error | ⟨entry, buf'⟩
        · rw [hread] at h
          cases h
        · rw [hread] at h
          rcases ih h with ⟨more, hmore⟩
          exact ⟨entry :: more, by rw [hmore, List.append_assoc, List.singleton_append]⟩

/-- The values and the performance of an entry. -/
def CacheEntry.pair (entry : CacheEntry V V) : List (HVal V) × HPerf V :=
  (entry.point.val, entry.perf)

/-- The values and the performance of a trial. -/
def HTrial.pair (trial : HTrial V V) : List (HVal V) × HPerf V := (trial.point.val, trial.perf)

variable [Add V] [Zero V] {oCnt : ℕ} {trials : List (HTrial V V)}

omit [Add V] [Zero V] in
lemma spaces_newline : Spaces [10] := by
  intro c hc
  rw [List.mem_singleton.mp hc]
  decide

variable (fmt) in
/-- The loop over the lines, with the line end that is left of the line before. -/
lemma loadLoggerFile_iff (hcount : 1 ≤ oCnt)
    (hspace : ∀ trial ∈ trials, InSpace ranges trial.point.val)
    (hperf : ∀ trial ∈ trials, trial.perf.p.length = oCnt) {ws : Bytes} (hws : Spaces ws)
    (cache : List (CacheEntry V V)) :
    (∃ fuel entries, loadLoggerFile fmt ranges oCnt fuel cache (ws ++ logText fmt trials) =
      some (.ok (cache ++ entries)) ∧ entries.map CacheEntry.pair = trials.map HTrial.pair) ↔
      ∀ trial ∈ trials, 1 < oCnt ∧ ∀ v ∈ trial.point.val, PlainVal v := by
  induction trials generalizing ws cache with
  | nil =>
    refine ⟨fun _ trial htrial => absurd htrial List.not_mem_nil, fun _ => ⟨1, [], ?_, rfl⟩⟩
    have htext : logText fmt ([] : List (HTrial V V)) = [] := rfl
    rw [htext, List.append_nil, List.append_nil]
    exact loadLoggerFile_end fmt hws oCnt 0 cache
  | cons trial trials ih =>
    rw [List.forall_mem_cons] at hspace hperf ⊢
    have hrest := fun entry => ih hspace.2 hperf.2 spaces_newline (cache ++ [entry])
    have hone : 1 ≤ trial.perf.p.length := by rw [hperf.1]; exact hcount
    have hentry := readEntry_iff fmt hspace.1 hone (logText fmt trials)
    rw [hperf.1] at hentry
    rw [logText_cons hspace.1]
    constructor
    · rintro ⟨fuel, entries, hload, hpairs⟩
      cases fuel with
      | zero => cases hload
      | succ fuel =>
        rw [loadLoggerFile_line hws] at hload
        rcases hread : readEntry fmt ranges oCnt (lineTail fmt trial (logText fmt trials)) with
          error | ⟨entry, buf⟩
        · rw [hread] at hload
          cases hload
        · rw [hread] at hload
          rcases loadLoggerFile_extends hload with ⟨more, hmore⟩
          rw [List.append_assoc, List.singleton_append] at hmore
          cases List.append_cancel_left hmore
          rcases List.cons.inj hpairs with ⟨hpair, hpairs'⟩
          have hsame : entry = entryOf trial := by
            rcases entry with ⟨⟨id, val⟩, perf⟩
            cases readEntry_id hread
            cases hpair
            rfl
          rw [hsame] at hread hload
          rcases (hentry buf).mp hread with ⟨hgood, rfl⟩
          refine ⟨hgood, (hrest (entryOf trial)).mp ⟨fuel, more, ?_, hpairs'⟩⟩
          rw [List.append_assoc]
          exact hload
    · rintro ⟨hgood, hgoods⟩
      rcases (hrest (entryOf trial)).mpr hgoods with ⟨fuel, entries, hload, hpairs⟩
      refine ⟨fuel + 1, entryOf trial :: entries, ?_, congrArg (HTrial.pair trial :: ·) hpairs⟩
      rw [loadLoggerFile_line hws, (hentry _).mpr ⟨hgood, rfl⟩]
      rw [List.append_assoc] at hload
      exact hload

/-- The trials come back from the log if and only if there are several performances and every string
is free of quotation marks and backslashes and does not have eight bytes. -/
theorem loads_back_iff (hcount : 1 ≤ oCnt)
    (hspace : ∀ trial ∈ trials, InSpace ranges trial.point.val)
    (hperf : ∀ trial ∈ trials, trial.perf.p.length = oCnt) :
    (∃ fuel entries, loadLoggerFile fmt ranges oCnt fuel [] (logText fmt trials) =
      some (.ok entries) ∧ entries.map CacheEntry.pair = trials.map HTrial.pair) ↔
      trials = [] ∨ 1 < oCnt ∧ ∀ trial ∈ trials, ∀ v ∈ trial.point.val, PlainVal v := by
  have hload := loadLoggerFile_iff fmt hcount hspace hperf spaces_nil []
  simp only [List.nil_append] at hload
  rw [hload]
  constructor
  · intro h
    cases trials with
    | nil => exact Or.inl rfl
    | cons trial trials =>
      exact Or.inr ⟨(h trial List.mem_cons_self).1, fun trial htrial => (h trial htrial).2⟩
  · rintro (rfl | ⟨hmany, hplain⟩)
    · exact fun trial htrial => absurd htrial List.not_mem_nil
    · exact fun trial htrial => ⟨hmany, hplain trial htrial⟩

/-! ## Two logs -/

/-- What `printf` and `scanf` do with 0 and 1. -/
def bitFormat : LogFormat ℕ where
  lf n := decimal n ++ cstr ".000000"
  la n := cstr "0x" ++ (decimal n ++ cstr "p+0")
  skipF buf :=
    match digits (skipSpace buf) with
    | some (_, 46 :: buf) => some (buf.dropWhile isDigit)
    | _ => none
  scanLa buf := do
    let (_, buf) ← exactly (cstr "0x") buf
    let (n, buf) ← digits buf
    let (_, buf) ← exactly (cstr "p+0") buf
    return (n, buf)
  lf_head n := by
    rcases decimal_head n with ⟨c, cs, hcs, hc⟩
    refine ⟨c, cs ++ cstr ".000000", by rw [hcs]; rfl, isDigit_not_isSpace hc, ?_⟩
    rintro rfl
    exact absurd hc (by decide)
  lf_line n := by
    intro hmem
    rcases List.mem_append.mp hmem with hdecimal | hzeros
    · exact absurd (decimal_isDigit n 10 hdecimal) (by decide)
    · exact absurd hzeros (by decide)
  skip_lf n c rest hc := by
    rcases decimal_head n with ⟨d, ds, hds, hd⟩
    have hskip : skipSpace ((decimal n ++ cstr ".000000") ++ c :: rest) =
        decimal n ++ (46 :: (cstr "000000" ++ c :: rest)) := by
      rw [List.append_assoc, hds]
      exact skipSpace_cons (isDigit_not_isSpace hd) _
    have hpoint : NoDigit (46 :: (cstr "000000" ++ c :: rest)) := noDigit_cons (by decide)
    rw [hskip, digits_decimal n hpoint]
    rcases hc with rfl | rfl
    · rfl
    · rfl
  scan_la n rest := by
    have hletter : NoDigit (cstr "p+0" ++ 93 :: rest) := noDigit_cons (by decide)
    show (digits ((decimal n ++ cstr "p+0") ++ 93 :: rest)).bind _ = _
    rw [List.append_assoc, digits_decimal n hletter]
    rfl

/-- A trial of a point with a string, and with two performances. -/
def wordTrial : HTrial ℕ ℕ :=
  { point := { id := 1, val := [.str (some (cstr "ab"))] }, perf := { p := [0, 1] } }

theorem word_loads_back :
    ∃ fuel entries, loadLoggerFile bitFormat [{ name := none, bounds := .str [cstr "ab"] }] 2 fuel []
      (logText bitFormat [wordTrial]) = some (.ok entries) ∧
        entries.map CacheEntry.pair = [wordTrial].map HTrial.pair := by
  refine (loads_back_iff (by decide) ?_ ?_).mpr (Or.inr ⟨by decide, ?_⟩)
  · intro trial htrial
    rw [List.mem_singleton.mp htrial]
    exact List.Forall₂.cons (List.mem_singleton.mpr rfl) List.Forall₂.nil
  · intro trial htrial
    rw [List.mem_singleton.mp htrial]
    rfl
  · intro trial htrial v hv
    rw [List.mem_singleton.mp htrial] at hv
    rw [List.mem_singleton.mp hv]
    exact ⟨by decide, by decide, by decide⟩

/-- A trial of a point with a number, and with a single performance. -/
def numberTrial : HTrial ℕ ℕ := { point := { id := 1, val := [.int 3] }, perf := { p := [1] } }

/-- The range of the number. -/
def numberRange : HRange ℕ := { name := none, bounds := .int 1 4 1 }

/-- A single performance is not read back: its line has no list. -/
theorem number_does_not_load :
    InSpace [numberRange] numberTrial.point.val ∧
      loadLoggerFile bitFormat [numberRange] 1 2 [] (logText bitFormat [numberTrial]) =
        some (.error perfError) ∧
      ¬ ∃ fuel entries, loadLoggerFile bitFormat [numberRange] 1 fuel []
        (logText bitFormat [numberTrial]) = some (.ok entries) ∧
          entries.map CacheEntry.pair = [numberTrial].map HTrial.pair := by
  have hspace : InSpace [numberRange] numberTrial.point.val :=
    List.Forall₂.cons (show IsLong 3 by decide) List.Forall₂.nil
  refine ⟨hspace, by decide +kernel, ?_⟩
  have hload := loadLoggerFile_iff bitFormat (Nat.le_refl 1)
    (List.forall_mem_singleton.mpr hspace) (List.forall_mem_singleton.mpr (show _ = 1 from rfl))
    spaces_nil []
  rintro ⟨fuel, entries, h⟩
  exact absurd (hload.mp ⟨fuel, entries, h⟩ numberTrial (List.mem_singleton.mpr rfl)).1 (by decide)

end ActiveHarmony

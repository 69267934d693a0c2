import ActiveHarmony.Data
import ActiveHarmony.Lib.StringBuffer
import ActiveHarmony.Lib.TextScan
import Mathlib.Data.List.TakeWhile

/-!
# The texts of the constraint layer

The constraint layer gives the Omega calculator the names of the variables, their bounds, the constraints
of the user and the point to be tested, each as a text in a global buffer of 1024 bytes. The names are
appended without a test of their length. The bounds and the values are printed at a position that moves on
by the length of every text, printed or not, so that it passes the end of the buffer and the room becomes
a huge number. All of it is right up to 1023 bytes, and never above.

The constraints of the user are measured while they are appended. But they are appended to what an earlier
initialisation has left, as nothing empties their buffer, so that a restart of the session doubles them.
-/

namespace ActiveHarmony

open TextScan (isSpace decimalInt decimalInt_terminated)
open StringBuffer

/-- `MAX_TEXT_LEN`. -/
def maxTextLen : ℕ := 1024

variable {V : Type}

/-! ## The names of the variables -/

/-- The loop of `build_vars_text`. -/
def appendNames : List (HRange V) → Bytes → Option Bytes
  | [], varsText => some varsText
  | range :: ranges, varsText => do
    let varsText ← strcat 0 varsText (← range.name)
    let varsText ← if ranges.isEmpty then some varsText else strcat 0 varsText (cstr ", ")
    appendNames ranges varsText

/-- `build_vars_text`: its return value and `vars_text`. -/
def buildVarsText (sig : HSignature V) (varsText : Bytes) : Option (ℤ × Bytes) :=
  (appendNames sig.range (varsText.set 0 0)).map fun varsText => (0, varsText)

/-! ## The bounds and the point -/

/-- The loop of `build_bounds_text` and of `build_point_text`: parts with ` && ` between them. A part is
missing where the signature has no range for it, and it is `some none` where its type makes the function
return -1. -/
def printParts : List (Option (Option Bytes)) → Bytes → ℕ → Option (ℤ × Bytes)
  | [], text, _ => some (0, text)
  | none :: _, _, _ => none
  | some none :: _, text, _ => some (-1, text)
  | some (some part) :: parts, text, ptr => do
    let (text, ptr) ← snprintf 0 text ptr part
    let (text, ptr) ← if parts.isEmpty then some (text, ptr) else snprintf 0 text ptr (cstr " && ")
    printParts parts text ptr

/-- What `%s` prints. -/
def printString (s : Option Bytes) : Bytes := s.getD (cstr "(null)")

variable (lf : V → Bytes)

/-- The bounds of a variable; `lf` is what `%lf` prints. -/
def boundsPart (range : HRange V) : Option Bytes :=
  match range.bounds with
  | .int min max _ =>
    some (decimalInt min ++ cstr " <= " ++ printString range.name ++ cstr " <= " ++ decimalInt max)
  | .real min max _ => some (lf min ++ cstr " <= " ++ printString range.name ++ cstr " <= " ++ lf max)
  | .str _ => none
  | .unknown => none

/-- `build_bounds_text`: its return value and `bounds_text`. -/
def buildBoundsText (sig : HSignature V) (boundsText : Bytes) : Option (ℤ × Bytes) :=
  printParts (sig.range.map fun range => some (boundsPart lf range)) (boundsText.set 0 0) 0

/-- The value of a variable; `range` is the range of the same index in `local_sig`, if there is one. -/
def pointPart (range : Option (HRange V)) (val : HVal V) : Option (Option Bytes) :=
  match val with
  | .int i => range.map fun range => some (printString range.name ++ cstr " = " ++ decimalInt i)
  | .real r => range.map fun range => some (printString range.name ++ cstr " = " ++ lf r)
  | .str _ => some none
  | .unknown => some none

/-- `build_point_text`: its return value and `point_text`. -/
def buildPointText (localSig : HSignature V) (point : HPoint V) (pointText : Bytes) : Option (ℤ × Bytes) :=
  printParts (point.val.mapIdx fun i val => pointPart lf localSig.range[i]? val) (pointText.set 0 0) 0

/-! ## Joined texts -/

/-- The text is complete, or the function returned an error. -/
def Complete (text : Bytes) (result : Option (ℤ × Bytes)) : Prop :=
  ∃ ret cells, result = some (ret, cells) ∧ (ret = 0 → Holds 0 text cells)

lemma intersperse_cons (sep part : Bytes) (parts : List Bytes) :
    (part :: parts).intersperse sep =
      part :: if parts.isEmpty then [] else sep :: parts.intersperse sep := by
  cases parts with
  | nil => rfl
  | cons p parts => rfl

lemma appendNames_eq {ranges : List (HRange V)} (hnames : ∀ range ∈ ranges, range.name.isSome)
    (text : Bytes) :
    appendNames ranges text =
      ((ranges.map fun range => range.name.getD []).intersperse (cstr ", ")).foldlM (strcat 0) text := by
  induction ranges generalizing text with
  | nil => rfl
  | cons range ranges ih =>
    obtain ⟨name, hname⟩ := Option.isSome_iff_exists.mp (hnames range List.mem_cons_self)
    have hrest := ih fun r hr => hnames r (List.mem_cons_of_mem range hr)
    rw [List.map_cons, intersperse_cons, List.foldlM_cons, hname]
    rw [appendNames, hname]
    show (strcat 0 text name).bind _ = (strcat 0 text name).bind _
    congr 1
    funext text₁
    cases ranges with
    | nil => rfl
    | cons r ranges =>
      show (strcat 0 text₁ (cstr ", ")).bind _ = (strcat 0 text₁ (cstr ", ")).bind _
      congr 1
      funext text₂
      exact hrest text₂

lemma printParts_cons (part : Bytes) (parts : List (Option (Option Bytes))) (text : Bytes) (ptr : ℕ) :
    printParts (some (some part) :: parts) text ptr =
      (snprintf 0 text ptr part).bind fun res =>
        if parts.isEmpty then printParts parts res.1 res.2
        else (snprintf 0 res.1 res.2 (cstr " && ")).bind fun res => printParts parts res.1 res.2 := by
  rw [printParts]
  cases parts with
  | nil => rfl
  | cons p parts => rfl

lemma printParts_eq (parts : List Bytes) (text : Bytes) (ptr : ℕ) :
    printParts (parts.map fun part => some (some part)) text ptr =
      (snprintfAll 0 (parts.intersperse (cstr " && ")) text ptr).map fun res => (0, res.1) := by
  induction parts generalizing text ptr with
  | nil => rfl
  | cons part parts ih =>
    rw [List.map_cons, intersperse_cons, printParts_cons, snprintfAll, List.foldlM_cons]
    show _ = ((snprintf 0 text ptr part).bind _).map _
    rw [Option.map_bind]
    congr 1
    funext r
    obtain ⟨text₁, ptr₁⟩ := r
    cases parts with
    | nil => rfl
    | cons p parts =>
      show (snprintf 0 text₁ ptr₁ (cstr " && ")).bind _ = ((snprintf 0 text₁ ptr₁ (cstr " && ")).bind _).map _
      rw [Option.map_bind]
      congr 1
      funext r
      exact ih r.1 r.2

/-- Texts with a separator between them. -/
def joined (sep : Bytes) (parts : List Bytes) : Bytes := (parts.intersperse sep).flatten

lemma mem_intersperse {sep text : Bytes} {parts : List Bytes} (h : text ∈ parts.intersperse sep) :
    text = sep ∨ text ∈ parts := by
  induction parts with
  | nil => cases h
  | cons part parts ih =>
    rw [intersperse_cons] at h
    obtain rfl | h := List.mem_cons.mp h
    · exact Or.inr List.mem_cons_self
    · split_ifs at h
      · cases h
      · obtain rfl | h := List.mem_cons.mp h
        · exact Or.inl rfl
        · exact (ih h).imp_right (List.mem_cons_of_mem part)

lemma terminated_intersperse {sep : Bytes} {parts : List Bytes} (hsep : 0 ∉ sep)
    (hparts : ∀ part ∈ parts, 0 ∉ part) : ∀ text ∈ parts.intersperse sep, 0 ∉ text := by
  intro text htext
  obtain rfl | hmem := mem_intersperse htext
  · exact hsep
  · exact hparts text hmem

/-- The names are complete in the buffer if they fit, and otherwise stored outside of it. -/
lemma appendNames_complete {ranges : List (HRange V)}
    (hnames : ∀ range ∈ ranges, ∃ name, range.name = some name ∧ 0 ∉ name) {varsText : Bytes}
    (hne : varsText ≠ []) :
    Complete (joined (cstr ", ") (ranges.map fun range => range.name.getD []))
        ((appendNames ranges (varsText.set 0 0)).map fun varsText => (0, varsText)) ↔
      (joined (cstr ", ") (ranges.map fun range => range.name.getD [])).length < varsText.length := by
  have hsome : ∀ range ∈ ranges, range.name.isSome := by
    intro range hrange
    obtain ⟨name, hname, -⟩ := hnames range hrange
    rw [hname]
    rfl
  have hparts : ∀ part ∈ ranges.map (fun range => range.name.getD []), 0 ∉ part := by
    intro part hpart
    obtain ⟨range, hrange, rfl⟩ := List.mem_map.mp hpart
    obtain ⟨name, hname, hfree⟩ := hnames range hrange
    rw [hname]
    exact hfree
  have hfree := terminated_intersperse (show 0 ∉ cstr ", " by decide) hparts
  have hall := (holds_set_zero (z := (0 : UInt8)) hne).strcatAll hfree
  rw [List.length_set, List.length_nil, Nat.zero_add] at hall
  rw [appendNames_eq hsome]
  unfold joined
  constructor
  · rintro ⟨ret, cells, hrun, -⟩
    by_contra hlong
    rw [hall.2 (by omega)] at hrun
    cases hrun
  · intro hfit
    obtain ⟨cells, hrun, -, hholds⟩ := hall.1 hfit
    exact ⟨0, cells, by rw [hrun]; rfl, fun _ => hholds⟩

/-- Parts that are printed are complete in the buffer if they fit. No error is returned if they do not. -/
lemma printParts_complete {parts : List Bytes} (hparts : ∀ part ∈ parts, 0 ∉ part) {text : Bytes}
    (hne : text ≠ []) :
    Complete (joined (cstr " && ") parts)
        (printParts (parts.map fun part => some (some part)) (text.set 0 0) 0) ↔
      (joined (cstr " && ") parts).length < text.length := by
  rw [printParts_eq]
  unfold joined
  constructor
  · rintro ⟨ret, cells, hrun, hholds⟩
    obtain ⟨⟨cells', ptr⟩, hprint, heq⟩ := Option.map_eq_some_iff.mp hrun
    obtain ⟨rfl, rfl⟩ := Prod.mk.inj heq
    have hlt := (hholds rfl).length_lt
    rw [length_snprintfAll hprint, List.length_set] at hlt
    exact hlt
  · intro hfit
    have hfree := terminated_intersperse (show 0 ∉ cstr " && " by decide) hparts
    obtain ⟨cells, hprint, hholds⟩ := (holds_set_zero (z := (0 : UInt8)) hne).snprintfAll hfree
      (by rw [List.length_set, List.length_nil, Nat.zero_add]; exact hfit)
    rw [List.length_nil] at hprint
    exact ⟨0, cells, by rw [hprint]; rfl, fun _ => hholds⟩

/-! ## Numeric signatures -/

/-- A named range of integers or reals. -/
def HRange.Numeric (range : HRange V) : Prop :=
  (∃ name, range.name = some name ∧ 0 ∉ name) ∧
    ((∃ min max step, range.bounds = .int min max step) ∨ ∃ min max step, range.bounds = .real min max step)

/-- A value of the type of a range. -/
def HBounds.SameType : HBounds V → HVal V → Prop
  | .int .., .int _ => True
  | .real .., .real _ => True
  | _, _ => False

/-- The names of the variables. -/
def varsOf (sig : HSignature V) : Bytes := joined (cstr ", ") (sig.range.map fun range => range.name.getD [])

/-- The bounds of the variables. -/
def boundsOf (sig : HSignature V) : Bytes :=
  joined (cstr " && ") (sig.range.map fun range => (boundsPart lf range).getD [])

/-- The values of a point. -/
def pointOf (sig : HSignature V) (point : HPoint V) : Bytes :=
  joined (cstr " && ") (List.zipWith (fun range val => ((pointPart lf (some range) val).getD none).getD [])
    sig.range point.val)

section
variable {lf} (hlf : ∀ v, 0 ∉ lf v)
include hlf

lemma boundsPart_numeric {range : HRange V} (h : range.Numeric) :
    ∃ part, boundsPart lf range = some part ∧ 0 ∉ part := by
  obtain ⟨⟨name, hname, hfree⟩, ⟨min, max, step, hbounds⟩ | ⟨min, max, step, hbounds⟩⟩ := h
  · refine ⟨_, by rw [boundsPart, hbounds], ?_⟩
    simp only [List.mem_append, not_or, hname]
    exact ⟨⟨⟨⟨decimalInt_terminated min, by decide⟩, hfree⟩, by decide⟩, decimalInt_terminated max⟩
  · refine ⟨_, by rw [boundsPart, hbounds], ?_⟩
    simp only [List.mem_append, not_or, hname]
    exact ⟨⟨⟨⟨hlf min, by decide⟩, hfree⟩, by decide⟩, hlf max⟩

lemma pointPart_numeric {range : HRange V} (h : range.Numeric) {val : HVal V}
    (hval : range.bounds.SameType val) :
    ∃ part, pointPart lf (some range) val = some (some part) ∧ 0 ∉ part := by
  obtain ⟨⟨name, hname, hfree⟩, -⟩ := h
  match val with
  | .int i =>
    refine ⟨_, rfl, ?_⟩
    simp only [List.mem_append, not_or, hname]
    exact ⟨⟨hfree, by decide⟩, decimalInt_terminated i⟩
  | .real r =>
    refine ⟨_, rfl, ?_⟩
    simp only [List.mem_append, not_or, hname]
    exact ⟨⟨hfree, by decide⟩, hlf r⟩
  | .str s =>
    cases hbounds : range.bounds <;> simp [hbounds, HBounds.SameType] at hval
  | .unknown =>
    cases hbounds : range.bounds <;> simp [hbounds, HBounds.SameType] at hval

lemma buildBoundsText_complete {sig : HSignature V} (hsig : ∀ range ∈ sig.range, range.Numeric)
    {text : Bytes} (hne : text ≠ []) :
    Complete (boundsOf lf sig) (buildBoundsText lf sig text) ↔ (boundsOf lf sig).length < text.length := by
  have hparts : sig.range.map (fun range => some (boundsPart lf range)) =
      (sig.range.map fun range => (boundsPart lf range).getD []).map fun part => some (some part) := by
    rw [List.map_map]
    apply List.map_congr_left
    intro range hrange
    obtain ⟨part, hpart, -⟩ := boundsPart_numeric hlf (hsig range hrange)
    rw [Function.comp_apply, hpart]
    rfl
  unfold boundsOf buildBoundsText
  rw [hparts]
  apply printParts_complete _ hne
  intro part hpart
  obtain ⟨range, hrange, rfl⟩ := List.mem_map.mp hpart
  obtain ⟨part, hpart, hfree⟩ := boundsPart_numeric hlf (hsig range hrange)
  rw [hpart]
  exact hfree

lemma buildPointText_complete {sig : HSignature V} (hsig : ∀ range ∈ sig.range, range.Numeric)
    {point : HPoint V}
    (hpoint : List.Forall₂ (fun range val => HBounds.SameType range.bounds val) sig.range point.val)
    {text : Bytes} (hne : text ≠ []) :
    Complete (pointOf lf sig point) (buildPointText lf sig point text) ↔
      (pointOf lf sig point).length < text.length := by
  have hlen := hpoint.length_eq
  have hval : ∀ i (hi : i < sig.range.length) (hi' : i < point.val.length),
      ∃ part, pointPart lf (some sig.range[i]) point.val[i] = some (some part) ∧ 0 ∉ part := by
    intro i hi hi'
    exact pointPart_numeric hlf (hsig _ (List.getElem_mem hi)) (hpoint.get hi hi')
  have hparts : point.val.mapIdx (fun i val => pointPart lf sig.range[i]? val) =
      (List.zipWith (fun range val => ((pointPart lf (some range) val).getD none).getD []) sig.range
        point.val).map fun part => some (some part) := by
    apply List.ext_getElem
    · rw [List.length_mapIdx, List.length_map, List.length_zipWith, hlen, Nat.min_self]
    · intro i hi hi'
      rw [List.length_mapIdx] at hi
      obtain ⟨part, hpart, -⟩ := hval i (by omega) hi
      rw [List.getElem_mapIdx, List.getElem_map, List.getElem_zipWith, List.getElem?_eq_getElem (by omega),
        hpart]
      rfl
  unfold pointOf buildPointText
  rw [hparts]
  apply printParts_complete _ hne
  intro part hpart
  obtain ⟨i, hi, rfl⟩ := List.getElem_of_mem hpart
  rw [List.length_zipWith] at hi
  obtain ⟨part, hpart, hfree⟩ := hval i (by omega) (by omega)
  rw [List.getElem_zipWith, hpart]
  exact hfree

/-- Each text of the constraint layer is built inside of its buffer and completely, or refused, if and
only if all of them are shorter than their buffers. -/
theorem constraintTexts_iff {sig : HSignature V} (hsig : ∀ range ∈ sig.range, range.Numeric)
    {point : HPoint V}
    (hpoint : List.Forall₂ (fun range val => HBounds.SameType range.bounds val) sig.range point.val)
    {varsText boundsText pointText : Bytes} (hvars : varsText.length = maxTextLen)
    (hbounds : boundsText.length = maxTextLen) (hpt : pointText.length = maxTextLen) :
    (Complete (varsOf sig) (buildVarsText sig varsText) ∧
      Complete (boundsOf lf sig) (buildBoundsText lf sig boundsText) ∧
      Complete (pointOf lf sig point) (buildPointText lf sig point pointText)) ↔
    (varsOf sig).length < maxTextLen ∧ (boundsOf lf sig).length < maxTextLen ∧
      (pointOf lf sig point).length < maxTextLen := by
  have hne : ∀ {text : Bytes}, text.length = maxTextLen → text ≠ [] := by
    rintro text hlen rfl
    cases hlen
  have hnames := appendNames_complete (fun range hrange => (hsig range hrange).1) (hne hvars)
  have hb := buildBoundsText_complete hlf hsig (hne hbounds)
  have hp := buildPointText_complete hlf hsig hpoint (hne hpt)
  rw [hvars] at hnames
  rw [hbounds] at hb
  rw [hpt] at hp
  exact and_congr hnames (and_congr hb hp)

end

/-- A variable with its values from 0 to 9. -/
def namedVariable (name : Bytes) : HSignature ℤ :=
  { name := some (cstr "s"), range := [⟨some name, .int 0 9 1⟩] }

/-- A point of it. -/
def namedPoint : HPoint ℤ := { id := 1, val := [.int 7] }

lemma namedVariable_numeric {name : Bytes} (h : 0 ∉ name) :
    ∀ range ∈ (namedVariable name).range, range.Numeric := by
  intro range hrange
  obtain rfl := List.mem_singleton.mp hrange
  exact ⟨⟨name, rfl, h⟩, Or.inl ⟨0, 9, 1, rfl⟩⟩

theorem constraintTexts_iff_short :
    Complete (varsOf (namedVariable (cstr "x")))
        (buildVarsText (namedVariable (cstr "x")) (List.replicate maxTextLen 0)) ∧
      Complete (boundsOf decimalInt (namedVariable (cstr "x")))
        (buildBoundsText decimalInt (namedVariable (cstr "x")) (List.replicate maxTextLen 0)) ∧
      Complete (pointOf decimalInt (namedVariable (cstr "x")) namedPoint)
        (buildPointText decimalInt (namedVariable (cstr "x")) namedPoint (List.replicate maxTextLen 0)) := by
  have hpoint : List.Forall₂ (fun range val => HBounds.SameType range.bounds val)
      (namedVariable (cstr "x")).range namedPoint.val := List.Forall₂.cons trivial List.Forall₂.nil
  exact (constraintTexts_iff decimalInt_terminated (namedVariable_numeric (by decide)) hpoint
    List.length_replicate List.length_replicate List.length_replicate).mpr ⟨by decide, by decide, by decide⟩

lemma namedVariable_overflow {name : Bytes} (hfree : 0 ∉ name) (hlong : maxTextLen ≤ name.length) :
    buildVarsText (namedVariable name) (List.replicate maxTextLen 0) = none ∧
      ¬Complete (boundsOf decimalInt (namedVariable name))
        (buildBoundsText decimalInt (namedVariable name) (List.replicate maxTextLen 0)) := by
  have hne : List.replicate maxTextLen (0 : UInt8) ≠ [] := by
    rw [Ne, List.replicate_eq_nil_iff]
    decide
  constructor
  · have hnames : ∀ range ∈ (namedVariable name).range, range.name.isSome := by
      intro range hrange
      obtain rfl := List.mem_singleton.mp hrange
      rfl
    have hover : strcat 0 ((List.replicate maxTextLen 0).set 0 0) name = none := by
      apply (holds_set_zero hne).strcat_overflow
      rw [List.length_set, List.length_replicate, List.length_nil, Nat.zero_add]
      exact hlong
    have hall : [name].foldlM (strcat 0) ((List.replicate maxTextLen 0).set 0 0) = none := by
      rw [List.foldlM_cons, hover]
      rfl
    rw [buildVarsText, appendNames_eq hnames]
    exact congrArg (Option.map _) hall
  · rw [buildBoundsText_complete decimalInt_terminated (namedVariable_numeric hfree) hne,
      List.length_replicate]
    have hbounds : boundsOf decimalInt (namedVariable name) =
        decimalInt 0 ++ cstr " <= " ++ name ++ cstr " <= " ++ decimalInt 9 := List.append_nil _
    simp only [hbounds, List.length_append]
    omega

/-- A name of 1024 bytes is stored beyond the end of `vars_text`, and its bounds are cut off without an
error. -/
theorem constraintTexts_overflow :
    buildVarsText (namedVariable (List.replicate 1024 97)) (List.replicate maxTextLen 0) = none ∧
      ¬Complete (boundsOf decimalInt (namedVariable (List.replicate 1024 97)))
        (buildBoundsText decimalInt (namedVariable (List.replicate 1024 97))
          (List.replicate maxTextLen 0)) := by
  apply namedVariable_overflow
  · rw [List.mem_replicate]
    decide
  · rw [List.length_replicate, maxTextLen]

/-! ## The constraints of the user -/

/-- The line that a round of `build_user_text` appends. -/
def firstLine (ptr : Bytes) : Bytes := (ptr.dropWhile isSpace).takeWhile (· ≠ 10)

/-- Where the next round goes on: at the next line that is not blank. -/
def nextLine (ptr : Bytes) : Bytes := ((ptr.dropWhile isSpace).dropWhile (· ≠ 10)).dropWhile isSpace

lemma nextLine_lt {ptr : Bytes} (h : ptr ≠ []) : (nextLine ptr).length < ptr.length := by
  obtain ⟨c, rest, rfl⟩ := List.exists_cons_of_ne_nil h
  have hdrop : ∀ (p : UInt8 → Bool) (l : Bytes), (l.dropWhile p).length ≤ l.length :=
    fun p l => (List.dropWhile_suffix p).length_le
  have hrest : ((c :: rest).dropWhile isSpace).dropWhile (· ≠ 10) =
      (if isSpace c then rest.dropWhile isSpace else rest).dropWhile (· ≠ 10) := by
    by_cases hc : isSpace c = true
    · rw [List.dropWhile_cons_of_pos hc, if_pos hc]
    · have hne : c ≠ 10 := by
        rintro rfl
        exact hc rfl
      rw [List.dropWhile_cons_of_neg hc, if_neg hc, List.dropWhile_cons_of_pos (by simpa using hne)]
  unfold nextLine
  rw [hrest, List.length_cons, Nat.lt_succ_iff]
  refine (hdrop _ _).trans ((hdrop _ _).trans ?_)
  split_ifs
  · exact hdrop _ _
  · exact le_refl _

/-- A text is appended to `user_text` while the length that was counted is below its size. -/
def appendMeasured (userText text : Bytes) (len : ℕ) : Option Bytes :=
  if len < maxTextLen then strcat 0 userText text else some userText

/-- The loop of `build_user_text`: its return value and `user_text`. The pointer is what it points to. -/
def appendLines (ptr : Bytes) (len : ℕ) (userText : Bytes) : Option (ℤ × Bytes) :=
  if _hptr : ptr = [] then some (0, userText)
  else do
    let len := len + (firstLine ptr).length
    let userText ← appendMeasured userText (firstLine ptr) len
    let (len, userText) ←
      if nextLine ptr = [] then some (len, userText)
      else (appendMeasured userText (cstr " && ") (len + 4)).map fun userText => (len + 4, userText)
    if maxTextLen ≤ len then some (-1, userText) else appendLines (nextLine ptr) len userText
termination_by ptr.length
decreasing_by exact nextLine_lt _hptr

/-- `build_user_text`. Nothing empties `user_text` before. -/
def buildUserText (constraints userText : Bytes) : Option (ℤ × Bytes) := appendLines constraints 0 userText

/-- The calls of `build_user_text` in a number of restarts, each of which ignores what the layer returns. -/
def restarts (constraints : Bytes) : ℕ → Bytes → Option (List (ℤ × Bytes))
  | 0, _ => some []
  | n + 1, userText => do
    let res ← buildUserText constraints userText
    let results ← restarts constraints n res.2
    return res :: results

/-- All calls, from the first one when the layer is loaded on. There is no session to restart if that one
fails. -/
def initialisations (constraints : Bytes) (n : ℕ) : Option (List (ℤ × Bytes)) := do
  let res ← buildUserText constraints (List.replicate maxTextLen 0)
  let results ← if res.1 ≠ 0 then some [] else restarts constraints n res.2
  return res :: results

/-- The lines that are not blank, without the blanks in front of them. -/
def userLines (constraints : Bytes) : List Bytes :=
  ((constraints.splitOn 10).map fun line => line.dropWhile isSpace).filter fun line => line ≠ []

/-- The text that the lines make. -/
def userTextOf (constraints : Bytes) : Bytes := joined (cstr " && ") (userLines constraints)

lemma userLines_space {c : UInt8} (hc : isSpace c = true) (rest : Bytes) :
    userLines (c :: rest) = userLines rest := by
  unfold userLines
  by_cases hline : c = 10
  · subst hline
    have hsplit := List.splitOn_append_cons_self_of_not_mem (List.not_mem_nil (a := (10 : UInt8))) rest
    rw [List.nil_append] at hsplit
    rw [hsplit]
    rfl
  · have hsplit : (c :: rest).splitOn 10 = (rest.splitOn 10).modifyHead (c :: ·) := by
      rw [List.splitOn_cons_eq_if_modifyHead, if_neg (by simpa using hline)]
    obtain ⟨line, lines, hlines⟩ := List.exists_cons_of_ne_nil (List.splitOn_ne_nil 10 rest)
    rw [hsplit, hlines, List.modifyHead_cons, List.map_cons, List.map_cons, List.dropWhile_cons_of_pos hc]

lemma userLines_dropWhile (text : Bytes) : userLines (text.dropWhile isSpace) = userLines text := by
  induction text with
  | nil => rfl
  | cons c text ih =>
    by_cases hc : isSpace c = true
    · rw [List.dropWhile_cons_of_pos hc, ih, userLines_space hc]
    · rw [List.dropWhile_cons_of_neg hc]

/-- A text that does not start with a blank starts with a line. -/
lemma userLines_line {c : UInt8} (hc : isSpace c = false) (rest : Bytes) :
    userLines (c :: rest) =
      (c :: rest).takeWhile (· ≠ 10) :: userLines ((c :: rest).dropWhile (· ≠ 10)) := by
  have hne : c ≠ 10 := by
    rintro rfl
    cases hc
  have hall : ∀ line : Bytes, 10 ∉ line → ∀ b ∈ line, decide (b ≠ 10) = true := by
    intro line hline b hb
    exact decide_eq_true fun heq => hline (heq ▸ hb)
  by_cases hten : 10 ∈ c :: rest
  · obtain ⟨line, more, hsplit, hline⟩ := List.eq_append_cons_of_mem hten
    obtain ⟨line, rfl⟩ : ∃ line', line = c :: line' := by
      cases line with
      | nil => exact absurd (List.cons.inj hsplit).1 hne
      | cons b line => exact ⟨line, by rw [(List.cons.inj hsplit).1]⟩
    rw [hsplit, List.takeWhile_append_of_pos (hall _ hline), List.dropWhile_append_of_pos (hall _ hline),
      List.takeWhile_cons_of_neg (by simp), List.dropWhile_cons_of_neg (by simp), List.append_nil,
      userLines_space (by decide)]
    unfold userLines
    rw [List.splitOn_append_cons_self_of_not_mem hline, List.map_cons,
      List.dropWhile_cons_of_neg (by simp [hc]), List.filter_cons_of_pos (by simp)]
  · rw [List.takeWhile_eq_self_iff.mpr (hall _ hten), List.dropWhile_eq_nil_iff.mpr (hall _ hten)]
    unfold userLines
    rw [List.splitOn_eq_singleton hten, List.map_singleton, List.dropWhile_cons_of_neg (by simp [hc]),
      List.filter_cons_of_pos (by simp)]
    rfl

/-- The text that is left when a round starts is the line of the round and the text that is left behind
it. -/
lemma userTextOf_round (ptr : Bytes) :
    userTextOf ptr =
      firstLine ptr ++ (if nextLine ptr = [] then [] else cstr " && " ++ userTextOf (nextLine ptr)) := by
  unfold userTextOf firstLine nextLine
  rw [← userLines_dropWhile ptr]
  cases hdrop : ptr.dropWhile isSpace with
  | nil => rfl
  | cons c rest =>
    have hc := List.head?_dropWhile_not isSpace ptr
    rw [hdrop] at hc
    rw [userLines_line hc, ← userLines_dropWhile ((c :: rest).dropWhile (· ≠ 10)), joined, intersperse_cons,
      List.flatten_cons]
    congr 1
    cases hnext : ((c :: rest).dropWhile (· ≠ 10)).dropWhile isSpace with
    | nil => rfl
    | cons d more =>
      have hd := List.head?_dropWhile_not isSpace ((c :: rest).dropWhile (· ≠ 10))
      rw [hnext] at hd
      rw [userLines_line hd]
      rfl

lemma appendLines_end (len : ℕ) (userText : Bytes) : appendLines [] len userText = some (0, userText) := by
  rw [appendLines, dif_pos rfl]

/-- The last line. -/
lemma appendLines_last {ptr : Bytes} (hptr : ptr ≠ []) (hnext : nextLine ptr = []) (len : ℕ)
    (userText : Bytes) :
    appendLines ptr len userText =
      (appendMeasured userText (firstLine ptr) (len + (firstLine ptr).length)).map fun userText =>
        (if maxTextLen ≤ len + (firstLine ptr).length then -1 else 0, userText) := by
  rw [appendLines, dif_neg hptr]
  cases hcat : appendMeasured userText (firstLine ptr) (len + (firstLine ptr).length) with
  | none => simp [hcat]
  | some userText =>
    simp only [hcat, hnext, if_true, Option.bind_eq_bind, Option.bind_some, appendLines_end, Option.map_some]
    split_ifs <;> rfl

/-- A line with another one behind it. -/
lemma appendLines_more {ptr : Bytes} (hptr : ptr ≠ []) (hnext : nextLine ptr ≠ []) (len : ℕ)
    (userText : Bytes) :
    appendLines ptr len userText =
      (appendMeasured userText (firstLine ptr) (len + (firstLine ptr).length)).bind fun userText =>
      (appendMeasured userText (cstr " && ") (len + (firstLine ptr).length + 4)).bind fun userText =>
      if maxTextLen ≤ len + (firstLine ptr).length + 4 then some (-1, userText)
      else appendLines (nextLine ptr) (len + (firstLine ptr).length + 4) userText := by
  rw [appendLines, dif_neg hptr]
  show (appendMeasured userText (firstLine ptr) (len + (firstLine ptr).length)).bind _ = _
  congr 1
  funext userText
  simp only [hnext, if_false]
  cases appendMeasured userText (cstr " && ") (len + (firstLine ptr).length + 4) with
  | none => rfl
  | some userText => rfl

lemma mem_firstLine {ptr : Bytes} (h : 0 ∉ ptr) : 0 ∉ firstLine ptr := by
  intro hz
  exact h ((List.dropWhile_suffix _).subset ((List.takeWhile_prefix _).subset hz))

lemma mem_nextLine {ptr : Bytes} (h : 0 ∉ ptr) : 0 ∉ nextLine ptr := by
  intro hz
  have hsuffix : nextLine ptr <:+ ptr :=
    (List.dropWhile_suffix _).trans ((List.dropWhile_suffix _).trans (List.dropWhile_suffix _))
  exact h (hsuffix.subset hz)

/-- A text that was counted is appended, or stored outside of the buffer. -/
lemma appendMeasured_spec {text src userText : Bytes} (h : Holds 0 text userText)
    (hlen : userText.length = maxTextLen) (hsrc : 0 ∉ src) {len : ℕ} (hshort : len < maxTextLen) :
    (text.length + src.length < maxTextLen → ∃ userText', appendMeasured userText src len = some userText' ∧
      userText'.length = maxTextLen ∧ Holds 0 (text ++ src) userText') ∧
    (maxTextLen ≤ text.length + src.length → appendMeasured userText src len = none) := by
  unfold appendMeasured
  rw [if_pos hshort, ← hlen]
  exact ⟨fun hfit => h.strcat_fits hsrc hfit, fun hlong => h.strcat_overflow hlong⟩

/-- The text that is left is measured with what the call has appended so far. If that is short enough, the
text is appended to whatever is in the buffer, or stored outside of it. -/
lemma appendLines_short {ptr text userText : Bytes} (hptr : 0 ∉ ptr) (h : Holds 0 text userText)
    (hlen : userText.length = maxTextLen) {len : ℕ} (hshort : len + (userTextOf ptr).length < maxTextLen) :
    (text.length + (userTextOf ptr).length < maxTextLen →
      ∃ userText', appendLines ptr len userText = some (0, userText') ∧ userText'.length = maxTextLen ∧
        Holds 0 (text ++ userTextOf ptr) userText') ∧
    (maxTextLen ≤ text.length + (userTextOf ptr).length → appendLines ptr len userText = none) := by
  induction hsize : ptr.length using Nat.strong_induction_on generalizing ptr text userText len with
  | _ n ih =>
    subst hsize
    by_cases hempty : ptr = []
    · subst hempty
      have hlt := h.length_lt
      have hnone : userTextOf [] = [] := rfl
      rw [hnone, List.append_nil, List.length_nil, appendLines_end]
      exact ⟨fun _ => ⟨userText, rfl, hlen, h⟩, fun hle => absurd hlt (by omega)⟩
    have hround := userTextOf_round ptr
    by_cases hnext : nextLine ptr = []
    · rw [if_pos hnext, List.append_nil] at hround
      rw [appendLines_last hempty hnext, hround, if_neg (by rw [← hround]; omega)]
      rw [hround] at hshort
      obtain ⟨hfits, hlong⟩ := appendMeasured_spec h hlen (mem_firstLine hptr) hshort
      constructor
      · intro hfit
        obtain ⟨userText', hcat, hlen', hholds⟩ := hfits hfit
        exact ⟨userText', by rw [hcat]; rfl, hlen', hholds⟩
      · intro hover
        rw [hlong hover]
        rfl
    · rw [if_neg hnext] at hround
      have htotal := congrArg List.length hround
      have hsep : (cstr " && ").length = 4 := rfl
      rw [List.length_append, List.length_append, hsep] at htotal
      rw [appendLines_more hempty hnext]
      simp only [if_neg (show ¬maxTextLen ≤ len + (firstLine ptr).length + 4 by omega)]
      obtain ⟨hfits, hlong⟩ := appendMeasured_spec h hlen (mem_firstLine hptr)
        (show len + (firstLine ptr).length < maxTextLen by omega)
      by_cases hfit₁ : text.length + (firstLine ptr).length < maxTextLen
      · obtain ⟨text₁, hcat₁, hlen₁, hholds₁⟩ := hfits hfit₁
        obtain ⟨hfits₁, hlong₁⟩ := appendMeasured_spec hholds₁ hlen₁ (show 0 ∉ cstr " && " by decide)
          (show len + (firstLine ptr).length + 4 < maxTextLen by omega)
        rw [List.length_append, hsep] at hfits₁ hlong₁
        rw [hcat₁, Option.bind_some]
        by_cases hfit₂ : text.length + (firstLine ptr).length + 4 < maxTextLen
        · obtain ⟨text₂, hcat₂, hlen₂, hholds₂⟩ := hfits₁ hfit₂
          have hrest := ih (nextLine ptr).length (nextLine_lt hempty) (mem_nextLine hptr) hholds₂ hlen₂
            (show len + (firstLine ptr).length + 4 + (userTextOf (nextLine ptr)).length < maxTextLen by omega)
            rfl
          rw [hcat₂, Option.bind_some, hround]
          simpa only [List.append_assoc, List.length_append, hsep, Nat.add_assoc] using hrest
        · rw [hlong₁ (by omega)]
          exact ⟨fun hlt => absurd hlt (by omega), fun _ => rfl⟩
      · rw [hlong (by omega)]
        exact ⟨fun hlt => absurd hlt (by omega), fun _ => rfl⟩

/-- If it is too long, the call returns -1, as long as there is nothing in the buffer that it has not
measured. -/
lemma appendLines_long {ptr text userText : Bytes} (hptr : 0 ∉ ptr) (h : Holds 0 text userText)
    (hlen : userText.length = maxTextLen) {len : ℕ} (hmeasured : text.length ≤ len) (hroom : len < maxTextLen)
    (hlong : maxTextLen ≤ len + (userTextOf ptr).length) :
    ∃ userText', appendLines ptr len userText = some (-1, userText') := by
  induction hsize : ptr.length using Nat.strong_induction_on generalizing ptr text userText len with
  | _ n ih =>
    subst hsize
    have hempty : ptr ≠ [] := by
      rintro rfl
      have hnone : (userTextOf []).length = 0 := rfl
      omega
    have hround := userTextOf_round ptr
    -- the line is appended, or it is too long to be
    obtain ⟨text₁, hcat₁, hholds₁⟩ : ∃ text₁,
        appendMeasured userText (firstLine ptr) (len + (firstLine ptr).length) = some text₁ ∧
        (len + (firstLine ptr).length < maxTextLen →
          text₁.length = maxTextLen ∧ Holds 0 (text ++ firstLine ptr) text₁) := by
      by_cases hcount : len + (firstLine ptr).length < maxTextLen
      · obtain ⟨text₁, hcat₁, hholds₁⟩ :=
          (appendMeasured_spec h hlen (mem_firstLine hptr) hcount).1 (by omega)
        exact ⟨text₁, hcat₁, fun _ => hholds₁⟩
      · exact ⟨userText, if_neg hcount, fun hlt => absurd hlt hcount⟩
    by_cases hnext : nextLine ptr = []
    · rw [if_pos hnext, List.append_nil] at hround
      rw [hround] at hlong
      rw [appendLines_last hempty hnext, hcat₁, if_pos hlong]
      exact ⟨text₁, rfl⟩
    · rw [if_neg hnext] at hround
      have htotal := congrArg List.length hround
      have hsep : (cstr " && ").length = 4 := rfl
      rw [List.length_append, List.length_append, hsep] at htotal
      rw [appendLines_more hempty hnext, hcat₁, Option.bind_some]
      by_cases hcount : len + (firstLine ptr).length + 4 < maxTextLen
      · obtain ⟨hlen₁, hholds₁⟩ := hholds₁ (by omega)
        have hshort : (text ++ firstLine ptr).length + (cstr " && ").length < maxTextLen := by
          rw [List.length_append, hsep]
          omega
        obtain ⟨text₂, hcat₂, hlen₂, hholds₂⟩ :=
          (appendMeasured_spec hholds₁ hlen₁ (show 0 ∉ cstr " && " by decide) hcount).1 hshort
        rw [hcat₂, Option.bind_some, if_neg (not_le.mpr hcount)]
        refine ih (nextLine ptr).length (nextLine_lt hempty) (mem_nextLine hptr) hholds₂ hlen₂ ?_ hcount ?_
          rfl
        · simp only [List.length_append, hsep]
          omega
        · omega
      · rw [appendMeasured, if_neg hcount, Option.bind_some, if_pos (not_lt.mp hcount)]
        exact ⟨text₁, rfl⟩

/-- The layer has been initialised as often as it was asked to: every call returned -1 or left the text of
the user in the buffer, and none has stored anything outside of it. -/
def Assembled (constraints : Bytes) (results : Option (List (ℤ × Bytes))) : Prop :=
  ∃ l, results = some l ∧ ∀ res ∈ l, res.1 = -1 ∨ (res.1 = 0 ∧ Holds 0 (userTextOf constraints) res.2)

section
variable {constraints : Bytes} (hfree : 0 ∉ constraints)
include hfree

/-- The first call. -/
lemma buildUserText_first :
    ((userTextOf constraints).length < maxTextLen → ∃ userText,
      buildUserText constraints (List.replicate maxTextLen 0) = some (0, userText) ∧
        userText.length = maxTextLen ∧ Holds 0 (userTextOf constraints) userText) ∧
    (maxTextLen ≤ (userTextOf constraints).length → ∃ userText,
      buildUserText constraints (List.replicate maxTextLen 0) = some (-1, userText)) := by
  have hlen : (List.replicate maxTextLen (0 : UInt8)).length = maxTextLen := List.length_replicate
  have hempty : Holds 0 [] (List.replicate maxTextLen (0 : UInt8)) :=
    ⟨List.not_mem_nil, List.replicate 1023 0, rfl⟩
  unfold buildUserText
  constructor
  · intro hshort
    exact (appendLines_short hfree hempty hlen (by omega)).1 (by rw [List.length_nil]; omega)
  · intro hlong
    exact appendLines_long hfree hempty hlen (le_refl _) (by decide) (by omega)

/-- A second call doubles the text, or stores something outside of the buffer. -/
lemma buildUserText_again (hshort : (userTextOf constraints).length < maxTextLen)
    (hlines : userTextOf constraints ≠ []) {userText : Bytes} (hlen : userText.length = maxTextLen)
    (hholds : Holds 0 (userTextOf constraints) userText) :
    buildUserText constraints userText = none ∨
      ∃ userText', buildUserText constraints userText = some (0, userText') ∧
        ¬Holds 0 (userTextOf constraints) userText' := by
  have hrun : _ ∧ _ := appendLines_short hfree hholds hlen
    (show 0 + (userTextOf constraints).length < _ by omega)
  by_cases hfit : (userTextOf constraints).length + (userTextOf constraints).length < maxTextLen
  · obtain ⟨userText', hcall, -, hdouble⟩ := hrun.1 hfit
    refine Or.inr ⟨userText', hcall, fun hsame => ?_⟩
    have heq := hdouble.unique hsame
    exact hlines (List.append_right_eq_self.mp heq)
  · exact Or.inl (hrun.2 (not_lt.mp hfit))

/-- Without lines no call changes the text. -/
lemma restarts_blank (hblank : userTextOf constraints = []) (n : ℕ) {userText : Bytes}
    (hlen : userText.length = maxTextLen) (hholds : Holds 0 [] userText) :
    ∃ l, restarts constraints n userText = some l ∧
      ∀ res ∈ l, res.1 = 0 ∧ Holds 0 (userTextOf constraints) res.2 := by
  induction n generalizing userText with
  | zero => exact ⟨[], rfl, by simp⟩
  | succ n ih =>
    have hpos : 0 < maxTextLen := by decide
    obtain ⟨hrun, -⟩ := appendLines_short hfree hholds hlen
      (show 0 + (userTextOf constraints).length < _ by rw [hblank]; exact hpos)
    obtain ⟨userText', hcall, hlen', hholds'⟩ := hrun (by rw [hblank]; exact hpos)
    rw [List.nil_append] at hholds'
    obtain ⟨l, hrest, hall⟩ := ih hlen' (hblank ▸ hholds')
    refine ⟨(0, userText') :: l, ?_, List.forall_mem_cons.mpr ⟨⟨rfl, hholds'⟩, hall⟩⟩
    rw [restarts, buildUserText, hcall]
    show (restarts constraints n userText').bind _ = _
    rw [hrest]
    rfl

omit hfree in
lemma userTextOf_ne_nil (hlines : userLines constraints ≠ []) : userTextOf constraints ≠ [] := by
  obtain ⟨line, lines, hcons⟩ := List.exists_cons_of_ne_nil hlines
  have hline : line ≠ [] := by
    have hmem : line ∈ userLines constraints := by rw [hcons]; exact List.mem_cons_self
    simpa using (List.mem_filter.mp hmem).2
  rw [userTextOf, hcons, joined, intersperse_cons, List.flatten_cons]
  exact fun h => hline (List.append_eq_nil_iff.mp h).1

/-- With lines that fit, one restart is enough to spoil the text. -/
lemma initialisations_again (hlines : userLines constraints ≠ [])
    (hshort : (userTextOf constraints).length < maxTextLen) (n : ℕ) :
    ¬Assembled constraints (initialisations constraints (n + 1)) := by
  obtain ⟨userText, hfirst, hlen, hholds⟩ := (buildUserText_first hfree).1 hshort
  have hruns : initialisations constraints (n + 1) =
      (restarts constraints (n + 1) userText).map fun l => (0, userText) :: l := by
    rw [initialisations, hfirst]
    show (restarts constraints (n + 1) userText).bind _ = _
    cases restarts constraints (n + 1) userText with
    | none => rfl
    | some l => rfl
  rintro ⟨l, hl, hall⟩
  rw [hruns] at hl
  obtain ⟨l', hrest, rfl⟩ := Option.map_eq_some_iff.mp hl
  rw [restarts] at hrest
  obtain ⟨res, hcall, hrest⟩ := Option.bind_eq_some_iff.mp hrest
  obtain ⟨l'', -, hcons⟩ := Option.bind_eq_some_iff.mp hrest
  obtain rfl := Option.some.inj hcons
  have hres := hall res (List.mem_cons_of_mem _ List.mem_cons_self)
  obtain hnone | ⟨userText', hcall', hwrong⟩ :=
    buildUserText_again hfree hshort (userTextOf_ne_nil hlines) hlen hholds
  · rw [hnone] at hcall
    cases hcall
  · rw [hcall'] at hcall
    obtain rfl := Option.some.inj hcall
    obtain hminus | ⟨-, hright⟩ := hres
    · exact absurd hminus (show ¬(0 : ℤ) = -1 by decide)
    · exact hwrong hright

/-- However often the layer is initialised, each call returns -1 or leaves the lines of the user in the
buffer, if and only if there is no restart, or no line, or the lines do not fit (then the session does not
start). -/
theorem initialisations_iff (n : ℕ) :
    Assembled constraints (initialisations constraints n) ↔
      n = 0 ∨ userLines constraints = [] ∨ maxTextLen ≤ (userTextOf constraints).length := by
  constructor
  · intro h
    by_contra hnot
    obtain ⟨hn, hlines, hshort⟩ := by simpa only [not_or, not_le] using hnot
    obtain ⟨m, rfl⟩ := Nat.exists_eq_succ_of_ne_zero hn
    exact initialisations_again hfree hlines hshort m h
  · intro h
    obtain hshort | hlong := lt_or_ge (userTextOf constraints).length maxTextLen
    · obtain ⟨userText, hfirst, hlen, hholds⟩ := (buildUserText_first hfree).1 hshort
      obtain ⟨l, hrest, hall⟩ : ∃ l, restarts constraints n userText = some l ∧
          ∀ res ∈ l, res.1 = 0 ∧ Holds 0 (userTextOf constraints) res.2 := by
        obtain rfl | hblank | hlong := h
        · exact ⟨[], rfl, by simp⟩
        · have hnil : userTextOf constraints = [] := by rw [userTextOf, hblank]; rfl
          exact restarts_blank hfree hnil n hlen (hnil ▸ hholds)
        · omega
      refine ⟨(0, userText) :: l, ?_, List.forall_mem_cons.mpr ⟨Or.inr ⟨rfl, hholds⟩, fun res hres =>
        Or.inr (hall res hres)⟩⟩
      rw [initialisations, hfirst]
      show (restarts constraints n userText).bind _ = _
      rw [hrest]
      rfl
    · obtain ⟨userText, hfirst⟩ := (buildUserText_first hfree).2 hlong
      refine ⟨[(-1, userText)], ?_, by simp⟩
      rw [initialisations, hfirst]
      rfl

end

/-- Two lines with a blank one between them. -/
theorem initialisations_iff_load :
    userTextOf (cstr "x < y\n \n  y < z\n") = cstr "x < y && y < z" ∧
      Assembled (cstr "x < y\n \n  y < z\n") (initialisations (cstr "x < y\n \n  y < z\n") 0) :=
  ⟨by decide, (initialisations_iff (by decide) 0).mpr (Or.inl rfl)⟩

/-- After a restart the line stands twice in the buffer, with nothing between. -/
theorem initialisations_restart : ¬Assembled (cstr "x < y") (initialisations (cstr "x < y") 1) :=
  initialisations_again (by decide) (by decide) (by decide) 0

end ActiveHarmony

import ActiveHarmony.Lib.BoundedBuffer
import ActiveHarmony.Wire.SerializeBuffer

/-!
# The arguments that `tuna` starts its target with

`prepare_client_argv` copies the templates of the arguments into one buffer, with the values of the tuned
variables in place of their names. What does not fit is counted but not stored, and then the buffer is
enlarged and all of it is done again. `prepareClientArgv_iff` says for which templates this works.
-/

namespace ActiveHarmony

open BoundedBuffer TextScan

variable {V : Type}

/-! ## The templates -/

/-- `bundle_info_t`; the variables have a type, and their strings end at the first null byte. -/
structure TunaBundle (V : Type) where
  name : Bytes
  data : HVal V
  known : data ≠ .unknown
  terminated : ∀ s, data = .str (some s) → 0 ∉ s

/-- The value of a variable as it is printed; `lf` is the conversion `%lf`. -/
def TunaBundle.text (lf : V → Bytes) (bun : TunaBundle V) : Bytes :=
  match bun.data with
  | .int i => decimalInt i
  | .real r => lf r
  | .str s => s.getD (cstr "(null)")
  | .unknown => []

/-- Where the name at `*name` starts, and whether it stands in braces. -/
def nameStart (mem : Bytes) (name : ℕ) : Option (ℕ × Bool) := do
  let c ← read mem name
  if c = 37 then
    let d ← read mem (name + 1)
    return if d = 123 then (name + 2, true) else (name + 1, false)
  else return (name, false)

/-- The characters of a name; only a brace ends a name in braces, and otherwise a blank does. -/
def isNameChar (braces : Bool) (c : UInt8) : Bool := c ≠ 0 && (if braces then c ≠ 125 else !isSpace c)

/-- `tuna_bundle_get`: the first variable with the name, and `*name` after the call. -/
def tunaBundleGet (bundles : List (TunaBundle V)) (mem : Bytes) (name : ℕ) :
    Option (Option (TunaBundle V) × ℕ) := do
  let (name, braces) ← nameStart mem name
  let last ← skipWhile (isNameChar braces) mem name
  let c ← read mem last
  return (bundles.find? fun bun => bun.name = (mem.drop name).take (last - name),
    if c ≠ 125 then last - 1 else last)

/-! ## The copy -/

/-- A character is stored where the buffer has room for it. -/
def putChar (buf : Bytes) (count : ℕ) (c : UInt8) : Bytes :=
  if count < buf.length then buf.set count c else buf

/-- `snprintf` of a value, into what remains of the buffer. -/
def snprintfAt (buf : Bytes) (count : ℕ) (text : Bytes) : Option Bytes :=
  PrintBuffer.storeCut 0 text buf count (buf.length - count)

lemma le_skipWhile {p : UInt8 → Bool} {mem : Bytes} {i j : ℕ} (h : skipWhile p mem i = some j) : i ≤ j := by
  fun_induction skipWhile p mem i with
  | case1 => cases h
  | case2 _ _ _ _ ih => exact (Nat.le_succ _).trans (ih h)
  | case3 =>
    cases h
    exact le_refl _

lemma lt_nameStart {mem : Bytes} {arg name : ℕ} {braces : Bool}
    (h : nameStart mem arg = some (name, braces)) (hpercent : read mem arg = some 37) : arg < name := by
  unfold nameStart at h
  rw [hpercent, Option.bind_eq_bind, Option.bind_some, if_pos rfl] at h
  obtain ⟨d, -, h⟩ := Option.bind_eq_some_iff.mp h
  split_ifs at h <;> cases h <;> omega

lemma tunaBundleGet_le {bundles : List (TunaBundle V)} {mem : Bytes} {arg arg' : ℕ}
    {bun : Option (TunaBundle V)} (h : tunaBundleGet bundles mem arg = some (bun, arg'))
    (hpercent : read mem arg = some 37) : arg ≤ arg' := by
  obtain ⟨⟨name, braces⟩, hstart, h⟩ := Option.bind_eq_some_iff.mp h
  obtain ⟨last, hlast, h⟩ := Option.bind_eq_some_iff.mp h
  obtain ⟨c, -, h⟩ := Option.bind_eq_some_iff.mp h
  have hlt := lt_nameStart hstart hpercent
  have hle := le_skipWhile hlast
  cases h
  split_ifs <;> omega

variable (lf : V → Bytes)

/-- The loop over the characters of a template: the buffer, and the count unless a name is not declared. There is
no result for a read behind the terminator. Counts are those that an `int` has. -/
def expandArg (bundles : List (TunaBundle V)) (mem : Bytes) (arg : ℕ) (buf : Bytes) (count : ℕ) :
    Option (Bytes × Option ℕ) :=
  match _hread : read mem arg with
  | none => none
  | some c =>
    if c = 0 then some (buf, some count)
    else if _hpercent : c = 37 then
      match _hget : tunaBundleGet bundles mem arg with
      | none => none
      | some (none, _) => some (buf, none)
      | some (some bun, arg') =>
        match snprintfAt buf count (bun.text lf) with
        | none => none
        | some buf => expandArg bundles mem (arg' + 1) buf (count + (bun.text lf).length)
    else
      match read mem (if c = 92 then arg + 1 else arg) with
      | none => none
      | some d =>
        expandArg bundles mem ((if c = 92 then arg + 1 else arg) + 1) (putChar buf count d) (count + 1)
termination_by mem.length - arg
decreasing_by
  · have hlt := lt_of_read _hread
    have hle := tunaBundleGet_le _hget (_hpercent ▸ _hread)
    omega
  · have hlt := lt_of_read _hread
    split <;> omega

/-- The loop over the templates; `client_argv` has the offsets in the buffer. -/
def expandArgs (bundles : List (TunaBundle V)) : List Bytes → Bytes → ℕ → Option (Bytes × List ℕ × Option ℕ)
  | [], buf, count => some (buf, [], some count)
  | template :: templates, buf, count =>
    match expandArg lf bundles (template ++ [0]) 0 buf count with
    | none => none
    | some (buf, none) => some (buf, [count], none)
    | some (buf, some next) =>
      (expandArgs bundles templates (putChar buf next 0) (next + 1)).map fun res =>
        (res.1, count :: res.2.1, res.2.2)

/-- How `prepare_client_argv` ends: the value returned, the buffer, `client_argv`, and how often the buffer was
reallocated. -/
structure ClientArgs where
  ret : ℤ
  buf : Bytes
  argv : List ℕ
  reallocs : ℕ
deriving DecidableEq, Repr

/-- `prepare_client_argv`; `memory` says which sizes can be allocated. There is no result for want of fuel. -/
def prepareClientArgv (bundles : List (TunaBundle V)) (templates : List Bytes) (memory : ℕ → Bool)
    (fresh : ℕ → UInt8) : ℕ → ℕ → Bytes → Option ClientArgs
  | 0, _, _ => none
  | fuel + 1, reallocs, buf =>
    match expandArgs lf bundles templates buf 0 with
    | none => none
    | some (buf, argv, none) => some ⟨-1, buf, argv, reallocs⟩
    | some (buf, argv, some count) =>
      if count > buf.length then
        if memory count then
          prepareClientArgv bundles templates memory fresh fuel (reallocs + 1) (realloc fresh buf count)
        else some ⟨-1, [], argv, reallocs⟩
      else some ⟨0, buf, argv, reallocs⟩

/-! ## What the templates mean -/

/-- What a template is made of. -/
inductive ArgPart where
  | char (c : UInt8)
  /-- A character behind a backslash. -/
  | escaped (c : UInt8)
  /-- `%name` or `%{name}`. -/
  | reference (name : Bytes)
  /-- A backslash with nothing behind it. -/
  | openEscape
deriving DecidableEq, Repr

/-- The name behind a percent sign: up to the closing brace, or else up to a blank. -/
def referenceName : Bytes → Bytes
  | [] => []
  | c :: text => if c = 123 then text.takeWhile (· ≠ 125) else (c :: text).takeWhile fun c => !isSpace c

/-- What stands behind the name. -/
def referenceRest : Bytes → Bytes
  | [] => []
  | c :: text =>
    if c = 123 then (text.dropWhile (· ≠ 125)).tail else (c :: text).dropWhile fun c => !isSpace c

lemma referenceRest_suffix (text : Bytes) : referenceRest text <:+ text := by
  cases text with
  | nil => exact List.suffix_refl _
  | cons c text =>
    rw [referenceRest]
    split_ifs
    · have htail := (List.tail_suffix _).trans (List.dropWhile_suffix (l := text) (· ≠ 125))
      exact htail.trans (List.suffix_cons c text)
    · exact List.dropWhile_suffix _

/-- The parts of a template. -/
def argParts : Bytes → List ArgPart
  | [] => []
  | c :: text =>
    if c = 37 then .reference (referenceName text) :: argParts (referenceRest text)
    else if c = 92 then
      match text with
      | [] => [.openEscape]
      | d :: text => .escaped d :: argParts text
    else .char c :: argParts text
termination_by text => text.length
decreasing_by
  · have hle := (referenceRest_suffix text).length_le
    rw [List.length_cons]
    omega
  · simp only [List.length_cons]
    omega
  · exact Nat.lt_succ_self _

/-- What stands for a part in the argument. -/
def partText (bundles : List (TunaBundle V)) : ArgPart → Bytes
  | .char c => [c]
  | .escaped c => [c]
  | .reference name => ((bundles.find? fun bun => bun.name = name).map (TunaBundle.text lf)).getD []
  | .openEscape => []

/-- The argument that a template stands for. -/
def substitute (bundles : List (TunaBundle V)) (template : Bytes) : Bytes :=
  (argParts template).flatMap (partText lf bundles)

/-- Every name in the template is that of a variable. -/
def Declared (bundles : List (TunaBundle V)) (template : Bytes) : Prop :=
  ∀ name, .reference name ∈ argParts template → ∃ bun ∈ bundles, bun.name = name

/-- The pieces stand in the buffer as C strings, one behind the other. -/
structure LaidOut (pieces : List Bytes) (argv : List ℕ) (buf : Bytes) : Prop where
  length : argv.length = pieces.length
  text : ∀ (i : ℕ) (piece : Bytes) (off : ℕ), pieces[i]? = some piece → argv[i]? = some off →
    (buf.drop off).take (piece.length + 1) = piece ++ [0] ∧ 0 ∉ piece
  disjoint : ∀ (i j : ℕ) (piece : Bytes) (off off' : ℕ), i < j → pieces[i]? = some piece →
    argv[i]? = some off → argv[j]? = some off' → off + piece.length + 1 ≤ off'

/-! ## One reference -/

lemma takeWhile_nonzero {p q : UInt8 → Bool} (hp : ∀ c, p c = (c ≠ 0 && q c : Bool)) {text : Bytes}
    (htext : 0 ∉ text) : text.takeWhile p = text.takeWhile q := by
  induction text with
  | nil => rfl
  | cons c text ih =>
    rw [List.mem_cons, not_or] at htext
    rw [List.takeWhile_cons, List.takeWhile_cons, ih htext.2, hp, decide_eq_true (Ne.symm htext.1),
      Bool.true_and]

/-- The end of a name, and what is read there. -/
lemma skipWhile_name {p q : UInt8 → Bool} (hp : ∀ c, p c = (c ≠ 0 && q c : Bool)) (pre : Bytes)
    {text : Bytes}
    (htext : 0 ∉ text) :
    skipWhile p (pre ++ (text ++ [0])) pre.length = some (pre.length + (text.takeWhile q).length) ∧
      read (pre ++ (text ++ [0])) (pre.length + (text.takeWhile q).length) =
        some ((text.dropWhile q).headD 0) := by
  have hzero : p 0 = false := by
    rw [hp]
    rfl
  constructor
  · rw [skipWhile_terminated hzero, takeWhile_nonzero hp htext]
  · have hsplit := List.takeWhile_append_dropWhile (p := q) (l := text)
    have hcells : pre ++ (text ++ [0]) =
        (pre ++ text.takeWhile q) ++ (text.dropWhile q ++ [0]) := by
      rw [List.append_assoc, ← List.append_assoc (text.takeWhile q), hsplit]
    rw [hcells, ← List.length_append]
    cases text.dropWhile q with
    | nil => exact read_append _ _ _
    | cons c rest => exact read_append _ _ _

section
variable (bundles : List (TunaBundle V)) (pre : Bytes) {text : Bytes} (htext : 0 ∉ text)
include htext

lemma tunaBundleGet_start {braces : Bool} {q : UInt8 → Bool}
    (hq : ∀ c, isNameChar braces c = (c ≠ 0 && q c : Bool)) {name : ℕ}
    (hstart : nameStart (pre ++ (text ++ [0])) name = some (pre.length, braces)) :
    tunaBundleGet bundles (pre ++ (text ++ [0])) name =
      some (bundles.find? fun bun => bun.name = text.takeWhile q,
        if (text.dropWhile q).headD 0 ≠ 125 then pre.length + (text.takeWhile q).length - 1
        else pre.length + (text.takeWhile q).length) := by
  obtain ⟨hskip, hread⟩ := skipWhile_name hq pre htext
  have hname : ((pre ++ (text ++ [0])).drop pre.length).take
        (pre.length + (text.takeWhile q).length - pre.length) =
      text.takeWhile q := by
    rw [List.drop_left, Nat.add_sub_cancel_left]
    obtain ⟨rest, hrest⟩ := List.takeWhile_prefix q (l := text)
    nth_rewrite 2 [← hrest]
    rw [List.append_assoc, List.take_left]
  unfold tunaBundleGet
  rw [hstart, Option.bind_eq_bind, Option.bind_some]
  show (skipWhile (isNameChar braces) _ pre.length).bind _ = _
  rw [hskip, Option.bind_some]
  show (read _ _).bind _ = _
  rw [hread, Option.bind_some, hname]
  rfl

/-- A name without braces. -/
lemma tunaBundleGet_blank (hname : ∀ rest, text ≠ 123 :: rest) :
    tunaBundleGet bundles (pre ++ 37 :: (text ++ [0])) pre.length =
      some (bundles.find? fun bun => bun.name = text.takeWhile fun c => !isSpace c,
        pre.length + (text.takeWhile fun c => !isSpace c).length) := by
  have hstart : nameStart (pre ++ [37] ++ (text ++ [0])) pre.length =
      some ((pre ++ [37]).length, false) := by
    have hnext : ∃ c rest, text ++ [0] = c :: rest ∧ c ≠ 123 := by
      cases text with
      | nil => exact ⟨0, [], rfl, by decide⟩
      | cons c rest => exact ⟨c, rest ++ [0], rfl, fun h => hname rest (by rw [h])⟩
    obtain ⟨c, rest, hcells, hc⟩ := hnext
    have hread := read_append (pre ++ [37]) rest c
    rw [List.append_assoc, List.length_append, List.length_singleton] at hread
    rw [hcells, List.append_assoc, List.length_append, List.length_singleton]
    unfold nameStart
    show (read (pre ++ 37 :: c :: rest) _).bind _ = _
    rw [read_append, Option.bind_some, if_pos rfl]
    show (read (pre ++ ([37] ++ c :: rest)) _).bind _ = _
    rw [hread, Option.bind_some, if_neg hc]
    rfl
  have hget := tunaBundleGet_start bundles (pre ++ [37]) htext (q := fun c => !isSpace c) (fun c => rfl)
    hstart
  -- A blank or the terminator ends the name, so the pointer goes back by one.
  have hend : (text.dropWhile fun c => !isSpace c).headD 0 ≠ 125 := by
    cases hrest : text.dropWhile fun c => !isSpace c with
    | nil => decide
    | cons c rest =>
      have hspace := List.head_dropWhile_not (fun c => !isSpace c) (l := text) (by rw [hrest]; simp)
      simp only [hrest, List.head_cons, Bool.not_eq_false'] at hspace
      intro h
      change c = 125 at h
      rw [h] at hspace
      exact absurd hspace (by decide)
  rw [if_pos hend, List.append_assoc, List.length_append, List.length_singleton] at hget
  rw [show pre ++ 37 :: (text ++ [0]) = pre ++ ([37] ++ (text ++ [0])) from rfl, hget]
  congr 2
  omega

/-- A name in braces, and what the closing brace changes. -/
lemma tunaBundleGet_braces :
    tunaBundleGet bundles (pre ++ 37 :: 123 :: (text ++ [0])) pre.length =
      some (bundles.find? fun bun => bun.name = text.takeWhile (· ≠ 125),
        pre.length + 1 + (text.takeWhile (· ≠ 125)).length +
          (if text.dropWhile (· ≠ 125) = [] then 0 else 1)) := by
  have hstart : nameStart (pre ++ [37, 123] ++ (text ++ [0])) pre.length =
      some ((pre ++ [37, 123]).length, true) := by
    have hread := read_append (pre ++ [37]) (text ++ [0]) 123
    rw [List.append_assoc, List.length_append, List.length_singleton] at hread
    unfold nameStart
    rw [List.append_assoc]
    show (read (pre ++ 37 :: 123 :: (text ++ [0])) _).bind _ = _
    rw [read_append, Option.bind_some, if_pos rfl]
    show (read (pre ++ ([37] ++ 123 :: (text ++ [0]))) _).bind _ = _
    rw [hread, Option.bind_some, if_pos rfl, List.length_append]
    rfl
  have hget := tunaBundleGet_start bundles (pre ++ [37, 123]) htext (q := (· ≠ 125)) (fun c => rfl) hstart
  rw [List.append_assoc, List.length_append] at hget
  rw [show pre ++ 37 :: 123 :: (text ++ [0]) = pre ++ ([37, 123] ++ (text ++ [0])) from rfl, hget]
  congr 2
  cases hrest : text.dropWhile (· ≠ 125) with
  | nil =>
    -- The brace is not closed, and the terminator ends the name.
    rw [if_pos rfl, if_pos (by decide)]
    show pre.length + 2 + _ - 1 = _
    omega
  | cons c rest =>
    have hbrace := List.head_dropWhile_not (· ≠ 125) (l := text) (by rw [hrest]; simp)
    simp only [hrest, List.head_cons] at hbrace
    have hc : c = 125 := by simpa using hbrace
    have hmore : c :: rest ≠ [] := List.cons_ne_nil _ _
    rw [if_neg hmore, List.headD_cons, if_neg (not_not.mpr hc)]
    show pre.length + 2 + _ = _
    omega

/-- The variable that a reference is about; behind it, `++arg` comes to what follows the reference. -/
lemma tunaBundleGet_reference :
    ∃ used arg, text = used ++ referenceRest text ∧ arg + 1 = (pre ++ 37 :: used).length ∧
      tunaBundleGet bundles (pre ++ 37 :: (text ++ [0])) pre.length =
        some (bundles.find? fun bun => bun.name = referenceName text, arg) := by
  by_cases hname : ∀ rest, text ≠ 123 :: rest
  · have hrest : referenceRest text = text.dropWhile (fun c => !isSpace c) ∧
        referenceName text = text.takeWhile fun c => !isSpace c := by
      cases text with
      | nil => exact ⟨rfl, rfl⟩
      | cons c rest =>
        have hc : c ≠ 123 := fun h => hname rest (by rw [h])
        exact ⟨if_neg hc, if_neg hc⟩
    rw [hrest.1, hrest.2]
    refine ⟨_, _, List.takeWhile_append_dropWhile.symm, ?_, tunaBundleGet_blank bundles pre htext hname⟩
    rw [List.length_append, List.length_cons]
    omega
  · obtain ⟨body, rfl⟩ := not_forall_not.mp hname
    have hbody : 0 ∉ body := fun h => htext (List.mem_cons_of_mem _ h)
    have hsplit := List.takeWhile_append_dropWhile (p := (· ≠ 125)) (l := body)
    refine ⟨123 :: (body.takeWhile (· ≠ 125) ++ (body.dropWhile (· ≠ 125)).take 1), _, ?_, ?_,
      tunaBundleGet_braces bundles pre hbody⟩
    · show 123 :: body = 123 :: (_ ++ _ ++ (body.dropWhile (· ≠ 125)).tail)
      rw [List.append_assoc, ← List.drop_one, List.take_append_drop, hsplit]
    · rw [List.length_append, List.length_cons, List.length_cons, List.length_append, List.length_take]
      cases body.dropWhile (· ≠ 125) with
      | nil =>
        rw [if_pos rfl, List.length_nil]
        omega
      | cons c rest =>
        rw [if_neg (by simp), List.length_cons]
        omega

end

/-! ## One part of a template -/

/-- What was printed stands in the buffer, if it is shorter than the buffer. -/
def Printed (text buf : Bytes) : Prop := text.length < buf.length → buf.take text.length = text

@[simp] lemma length_putChar (buf : Bytes) (count : ℕ) (c : UInt8) :
    (putChar buf count c).length = buf.length := by
  unfold putChar
  split_ifs
  · exact List.length_set
  · rfl

lemma putChar_take {text buf : Bytes} (h : Printed text buf) (c : UInt8)
    (hle : (text ++ [c]).length ≤ buf.length) :
    (putChar buf text.length c).take (text ++ [c]).length = text ++ [c] := by
  rw [List.length_append, List.length_singleton] at hle ⊢
  have htake := h (by omega)
  unfold putChar
  rw [if_pos (by omega), List.take_add_one, List.take_set_of_le (le_refl _), htake,
    List.getElem?_set_self (by omega)]
  rfl

lemma putChar_printed {text buf : Bytes} (h : Printed text buf) (c : UInt8) :
    Printed (text ++ [c]) (putChar buf text.length c) := by
  intro hlt
  rw [length_putChar] at hlt
  exact putChar_take h c (le_of_lt hlt)

/-- A value that ends before the buffer does stands behind what was in front of it. -/
lemma snprintfAt_spec (buf : Bytes) (count : ℕ) (value : Bytes) :
    ∃ buf', snprintfAt buf count value = some buf' ∧ buf'.length = buf.length ∧
      (count + value.length < buf.length → buf'.take (count + value.length) = buf.take count ++ value) := by
  have hfits : (PrintBuffer.Cursor.mk buf count (buf.length - count)).Fits := by
    intro hleft
    change buf.length - count ≠ 0 at hleft
    show count + (buf.length - count) ≤ buf.length
    omega
  obtain ⟨c, hput, hwrote⟩ := PrintBuffer.put_spec 0 value hfits
  obtain ⟨buf', hstore, rfl⟩ := Option.map_eq_some_iff.mp hput
  have hcells : ∀ n, (PrintBuffer.Cursor.advance ⟨buf', count, buf.length - count⟩ n).cells = buf' := by
    intro n
    unfold PrintBuffer.Cursor.advance
    split_ifs <;> rfl
  have hlen := hwrote.length
  rw [hcells] at hlen
  refine ⟨buf', hstore, hlen, ?_⟩
  intro hlt
  obtain ⟨hpos, htake⟩ := hwrote.printed (show value.length < buf.length - count by omega)
  rw [hpos, hcells] at htake
  exact htake

lemma snprintfAt_printed {text buf : Bytes} (h : Printed text buf) (value : Bytes) :
    ∃ buf', snprintfAt buf text.length value = some buf' ∧ buf'.length = buf.length ∧
      Printed (text ++ value) buf' := by
  obtain ⟨buf', hprint, hlen, htake⟩ := snprintfAt_spec buf text.length value
  refine ⟨buf', hprint, hlen, ?_⟩
  intro hlt
  rw [List.length_append, hlen] at hlt
  rw [List.length_append, htake hlt, h (by omega)]

section
variable {bundles : List (TunaBundle V)} (pre rest buf : Bytes) (count : ℕ)

lemma expandArg_end : expandArg lf bundles (pre ++ [0]) pre.length buf count = some (buf, some count) := by
  have hread := read_append pre [] 0
  rw [expandArg]
  split
  · next hnone => cases hread.symm.trans hnone
  · next c hsome =>
    cases hread.symm.trans hsome
    rfl

lemma expandArg_char {c : UInt8} (hzero : c ≠ 0) (hpercent : c ≠ 37) (hescape : c ≠ 92) :
    expandArg lf bundles (pre ++ c :: rest) pre.length buf count =
      expandArg lf bundles (pre ++ [c] ++ rest) (pre ++ [c]).length (putChar buf count c) (count + 1) := by
  have hread := read_append pre rest c
  rw [expandArg]
  split
  · next hnone => cases hread.symm.trans hnone
  · next d hsome =>
    cases hread.symm.trans hsome
    rw [if_neg hzero, dif_neg hpercent, if_neg hescape, hread, List.append_assoc, List.length_append]
    rfl

lemma expandArg_escaped (c : UInt8) :
    expandArg lf bundles (pre ++ 92 :: c :: rest) pre.length buf count =
      expandArg lf bundles (pre ++ [92, c] ++ rest) (pre ++ [92, c]).length (putChar buf count c)
        (count + 1) := by
  have hread := read_append pre (c :: rest) 92
  have hnext : read (pre ++ 92 :: c :: rest) (pre.length + 1) = some c := by
    have hcell := read_append (pre ++ [92]) rest c
    rw [List.append_assoc, List.length_append] at hcell
    exact hcell
  rw [expandArg]
  split
  · next hnone => cases hread.symm.trans hnone
  · next d hsome =>
    cases hread.symm.trans hsome
    rw [if_neg (by decide), dif_neg (by decide), if_pos rfl, hnext, List.append_assoc, List.length_append]
    rfl

/-- The character behind the last backslash is the terminator, and the loop goes on behind it. -/
lemma expandArg_open : expandArg lf bundles (pre ++ [92, 0]) pre.length buf count = none := by
  rw [expandArg_escaped, List.append_nil, expandArg]
  split
  · rfl
  · next c hsome => cases (read_end (pre ++ [92, 0])).symm.trans hsome

/-- A reference to a variable prints its value, and the loop goes on behind the reference. -/
lemma expandArg_reference {text : Bytes} (htext : 0 ∉ text) {bun : TunaBundle V}
    (hbun : (bundles.find? fun bun => bun.name = referenceName text) = some bun) {buf' : Bytes}
    (hprint : snprintfAt buf count (bun.text lf) = some buf') :
    ∃ used, text = used ++ referenceRest text ∧
      expandArg lf bundles (pre ++ 37 :: (text ++ [0])) pre.length buf count =
        expandArg lf bundles (pre ++ 37 :: used ++ (referenceRest text ++ [0]))
          (pre ++ 37 :: used).length buf' (count + (bun.text lf).length) := by
  obtain ⟨used, arg, hused, harg, hget⟩ := tunaBundleGet_reference bundles pre htext
  refine ⟨used, hused, ?_⟩
  have hread := read_append pre (text ++ [0]) 37
  have hcells : pre ++ 37 :: used ++ (referenceRest text ++ [0]) = pre ++ 37 :: (text ++ [0]) := by
    rw [List.append_assoc, List.cons_append, ← List.append_assoc used, ← hused]
  rw [hbun] at hget
  rw [hcells, ← harg, expandArg]
  split
  · next hnone => cases hread.symm.trans hnone
  · next d hsome =>
    cases hread.symm.trans hsome
    rw [if_neg (by decide), dif_pos rfl]
    split
    · next hnone => cases hget.symm.trans hnone
    · next hother => cases hget.symm.trans hother
    · next hfound =>
      cases hget.symm.trans hfound
      rw [hprint]

end

/-! ## A whole template -/

section
variable {bundles : List (TunaBundle V)}

lemma find_declared {name : Bytes} (h : ∃ bun ∈ bundles, bun.name = name) :
    ∃ bun, (bundles.find? fun bun => bun.name = name) = some bun := by
  obtain ⟨bun, hmem, hname⟩ := h
  apply Option.isSome_iff_exists.mp
  rw [List.find?_isSome]
  exact ⟨bun, hmem, decide_eq_true hname⟩

/-- What one part does to the buffer and the count. -/
def printPart (bundles : List (TunaBundle V)) (st : Bytes × ℕ) : ArgPart → Option (Bytes × ℕ)
  | .char c => some (putChar st.1 st.2 c, st.2 + 1)
  | .escaped c => some (putChar st.1 st.2 c, st.2 + 1)
  | .reference name =>
    (bundles.find? fun bun => bun.name = name).bind fun bun =>
      (snprintfAt st.1 st.2 (bun.text lf)).map fun buf => (buf, st.2 + (bun.text lf).length)
  | .openEscape => none

/-- The loop over the characters of a template is one over its parts. -/
lemma expandArg_parts (template : Bytes) (hnul : 0 ∉ template) (hdecl : Declared bundles template)
    (pre buf : Bytes) (count : ℕ) :
    expandArg lf bundles (pre ++ (template ++ [0])) pre.length buf count =
      ((argParts template).foldlM (printPart lf bundles) (buf, count)).map fun st => (st.1, some st.2) := by
  unfold Declared at hdecl
  -- `pre` is what was read of the template, and grows by the part in each round.
  fun_induction argParts template generalizing pre buf count with
  | case1 => exact expandArg_end lf pre buf count
  | case2 text ih =>
    rw [List.mem_cons, not_or] at hnul
    obtain ⟨bun, hbun⟩ := find_declared (hdecl _ List.mem_cons_self)
    obtain ⟨buf', hprint, -, -⟩ := snprintfAt_spec buf count (bun.text lf)
    obtain ⟨used, hused, hrun⟩ := expandArg_reference lf pre buf count hnul.2 hbun hprint
    have hrest : 0 ∉ referenceRest text := fun hmem => hnul.2 ((referenceRest_suffix text).mem hmem)
    rw [List.cons_append, hrun, ih hrest (fun name hname => hdecl name (List.mem_cons_of_mem _ hname)),
      List.foldlM_cons]
    show _ = ((((bundles.find? _).bind _).bind _ : Option (Bytes × ℕ))).map _
    rw [hbun, Option.bind_some, hprint]
    rfl
  | case3 => exact expandArg_open lf pre buf count
  | case4 c text _ ih =>
    have hrest : 0 ∉ text := fun hmem => hnul (List.mem_cons_of_mem _ (List.mem_cons_of_mem _ hmem))
    rw [List.cons_append, List.cons_append, expandArg_escaped,
      ih hrest (fun name hname => hdecl name (List.mem_cons_of_mem _ hname))]
    rfl
  | case5 c text hpercent hescape ih =>
    rw [List.mem_cons, not_or] at hnul
    rw [List.cons_append, expandArg_char lf pre _ buf count (Ne.symm hnul.1) hpercent hescape,
      ih hnul.2 (fun name hname => hdecl name (List.mem_cons_of_mem _ hname))]
    rfl

lemma foldlM_printPart_open {parts : List ArgPart} (hopen : .openEscape ∈ parts) (st : Bytes × ℕ) :
    parts.foldlM (printPart lf bundles) st = none := by
  induction parts generalizing st with
  | nil => cases hopen
  | cons part parts ih =>
    rw [List.foldlM_cons]
    cases hopen with
    | head => rfl
    | tail _ hmem =>
      cases printPart lf bundles st part with
      | none => rfl
      | some st' => exact ih hmem st'

/-- One part is printed behind what was printed before. -/
lemma printPart_printed {part : ArgPart} (hopen : part ≠ .openEscape)
    (hdecl : ∀ name, part = .reference name → ∃ bun ∈ bundles, bun.name = name) {text buf : Bytes}
    (hbuf : Printed text buf) :
    ∃ buf', printPart lf bundles (buf, text.length) part =
        some (buf', (text ++ partText lf bundles part).length) ∧
      buf'.length = buf.length ∧ Printed (text ++ partText lf bundles part) buf' := by
  cases part with
  | char c =>
    refine ⟨putChar buf text.length c, ?_, length_putChar _ _ _, putChar_printed hbuf c⟩
    rw [List.length_append]
    rfl
  | escaped c =>
    refine ⟨putChar buf text.length c, ?_, length_putChar _ _ _, putChar_printed hbuf c⟩
    rw [List.length_append]
    rfl
  | openEscape => exact absurd rfl hopen
  | reference name =>
    obtain ⟨bun, hbun⟩ := find_declared (hdecl name rfl)
    obtain ⟨buf', hprint, hlen, hbuf'⟩ := snprintfAt_printed hbuf (bun.text lf)
    have htext : partText lf bundles (.reference name) = bun.text lf := by
      rw [partText, hbun]
      rfl
    rw [htext]
    refine ⟨buf', ?_, hlen, hbuf'⟩
    rw [printPart, hbun, Option.bind_some, hprint, List.length_append]
    rfl

lemma foldlM_printPart {parts : List ArgPart} (hopen : .openEscape ∉ parts)
    (hdecl : ∀ name, .reference name ∈ parts → ∃ bun ∈ bundles, bun.name = name) {text buf : Bytes}
    (hbuf : Printed text buf) :
    ∃ buf', parts.foldlM (printPart lf bundles) (buf, text.length) =
        some (buf', (text ++ parts.flatMap (partText lf bundles)).length) ∧
      buf'.length = buf.length ∧ Printed (text ++ parts.flatMap (partText lf bundles)) buf' := by
  induction parts generalizing text buf with
  | nil =>
    rw [List.flatMap_nil, List.append_nil]
    exact ⟨buf, rfl, rfl, hbuf⟩
  | cons part parts ih =>
    rw [List.mem_cons, not_or] at hopen
    obtain ⟨buf₁, hstep, hlen₁, hbuf₁⟩ := printPart_printed lf (Ne.symm hopen.1)
      (fun name hname => hdecl name (hname ▸ List.mem_cons_self)) hbuf
    obtain ⟨buf₂, hrun, hlen₂, hbuf₂⟩ :=
      ih hopen.2 (fun name hname => hdecl name (List.mem_cons_of_mem _ hname)) hbuf₁
    rw [List.append_assoc] at hrun hbuf₂
    rw [List.flatMap_cons]
    refine ⟨buf₂, ?_, hlen₂.trans hlen₁, hbuf₂⟩
    rw [List.foldlM_cons, hstep]
    exact hrun

lemma expandArg_substitute {template : Bytes} (hnul : 0 ∉ template) (hdecl : Declared bundles template)
    (hopen : .openEscape ∉ argParts template) {text buf : Bytes} (hbuf : Printed text buf) :
    ∃ buf', expandArg lf bundles (template ++ [0]) 0 buf text.length =
        some (buf', some (text ++ substitute lf bundles template).length) ∧
      buf'.length = buf.length ∧ Printed (text ++ substitute lf bundles template) buf' := by
  obtain ⟨buf', hrun, hlen, hbuf'⟩ := foldlM_printPart lf hopen hdecl hbuf
  have hparts := expandArg_parts lf template hnul hdecl [] buf text.length
  rw [hrun] at hparts
  exact ⟨buf', hparts, hlen, hbuf'⟩

lemma expandArg_openEscape {template : Bytes} (hnul : 0 ∉ template) (hdecl : Declared bundles template)
    (hopen : .openEscape ∈ argParts template) (buf : Bytes) (count : ℕ) :
    expandArg lf bundles (template ++ [0]) 0 buf count = none := by
  have hparts := expandArg_parts lf template hnul hdecl [] buf count
  rw [foldlM_printPart_open lf hopen] at hparts
  exact hparts

end

/-! ## All templates -/

/-- Where the pieces start when they stand one behind the other. -/
def pieceOffsets : ℕ → List Bytes → List ℕ
  | _, [] => []
  | off, piece :: pieces => off :: pieceOffsets (off + piece.length + 1) pieces

/-- The pieces with their terminators, behind what is already there. -/
def joinPieces (text : Bytes) : List Bytes → Bytes
  | [] => text
  | piece :: pieces => joinPieces (text ++ piece ++ [0]) pieces

section
variable {bundles : List (TunaBundle V)}

lemma expandArgs_open {templates : List Bytes} (hnul : ∀ template ∈ templates, 0 ∉ template)
    (hdecl : ∀ template ∈ templates, Declared bundles template)
    (hopen : ¬ ∀ template ∈ templates, .openEscape ∉ argParts template) (buf : Bytes) (count : ℕ) :
    expandArgs lf bundles templates buf count = none := by
  induction templates generalizing buf count with
  | nil => exact absurd (List.forall_mem_nil _) hopen
  | cons template templates ih =>
    rw [List.forall_mem_cons] at hnul hdecl hopen
    by_cases hhere : .openEscape ∈ argParts template
    · rw [expandArgs, expandArg_openEscape lf hnul.1 hdecl.1 hhere]
    · have hrest : ¬ ∀ template ∈ templates, .openEscape ∉ argParts template := fun h => hopen ⟨hhere, h⟩
      have hparts : expandArg lf bundles (template ++ [0]) 0 buf count = _ :=
        expandArg_parts lf template hnul.1 hdecl.1 [] buf count
      rw [expandArgs, hparts]
      cases (argParts template).foldlM (printPart lf bundles) (buf, count) with
      | none => rfl
      | some st =>
        show (expandArgs lf bundles templates _ _).map _ = _
        rw [ih hnul.2 hdecl.2 hrest]
        rfl

lemma expandArgs_text {templates : List Bytes} (hnul : ∀ template ∈ templates, 0 ∉ template)
    (hdecl : ∀ template ∈ templates, Declared bundles template)
    (hopen : ∀ template ∈ templates, .openEscape ∉ argParts template) (text buf : Bytes) {whole : Bytes}
    (hwhole : joinPieces text (templates.map (substitute lf bundles)) = whole)
    (hbuf : text.length ≤ buf.length → buf.take text.length = text) :
    ∃ buf', expandArgs lf bundles templates buf text.length =
        some (buf', pieceOffsets text.length (templates.map (substitute lf bundles)), some whole.length) ∧
      buf'.length = buf.length ∧ (whole.length ≤ buf.length → buf'.take whole.length = whole) := by
  induction templates generalizing text buf with
  | nil =>
    cases hwhole
    exact ⟨buf, rfl, rfl, hbuf⟩
  | cons template templates ih =>
    rw [List.forall_mem_cons] at hnul hdecl hopen
    obtain ⟨buf₁, hrun₁, hlen₁, hbuf₁⟩ :=
      expandArg_substitute lf hnul.1 hdecl.1 hopen.1 (fun hlt => hbuf (le_of_lt hlt))
    -- Behind its terminator a text that fits stands whole, also when it fills the buffer.
    have hend := putChar_take hbuf₁ 0
    rw [← length_putChar buf₁ (text ++ substitute lf bundles template).length 0] at hend
    obtain ⟨buf₂, hrun₂, hlen₂, hbuf₂⟩ := ih hnul.2 hdecl.2 hopen.2 _ _ hwhole hend
    rw [length_putChar, hlen₁] at hlen₂ hbuf₂
    refine ⟨buf₂, ?_, hlen₂, hbuf₂⟩
    have hcount : (text ++ substitute lf bundles template ++ [0]).length =
        (text ++ substitute lf bundles template).length + 1 := List.length_append
    have hnext : (text ++ substitute lf bundles template).length + 1 =
        text.length + (substitute lf bundles template).length + 1 := by rw [List.length_append]
    rw [hcount] at hrun₂
    rw [expandArgs, hrun₁, List.map_cons, pieceOffsets, ← hnext]
    show (expandArgs lf bundles templates _ _).map _ = _
    rw [hrun₂]
    rfl

end

lemma joinPieces_append (text : Bytes) (pieces : List Bytes) :
    ∃ more, joinPieces text pieces = text ++ more := by
  induction pieces generalizing text with
  | nil => exact ⟨[], (List.append_nil text).symm⟩
  | cons piece pieces ih =>
    obtain ⟨more, hmore⟩ := ih (text ++ piece ++ [0])
    refine ⟨piece ++ [0] ++ more, ?_⟩
    rw [joinPieces, hmore, List.append_assoc, List.append_assoc, List.append_assoc]

lemma le_pieceOffsets {off off' i : ℕ} {pieces : List Bytes}
    (h : (pieceOffsets off pieces)[i]? = some off') : off ≤ off' := by
  induction pieces generalizing off i with
  | nil => cases h
  | cons piece pieces ih =>
    cases i with
    | zero =>
      cases h
      exact le_refl _
    | succ i =>
      have hle := ih h
      omega

/-- What was printed is laid out. -/
lemma laidOut_pieces {pieces : List Bytes} (hnul : ∀ piece ∈ pieces, 0 ∉ piece) (text behind : Bytes) :
    LaidOut pieces (pieceOffsets text.length pieces) (joinPieces text pieces ++ behind) := by
  induction pieces generalizing text with
  | nil =>
    refine ⟨rfl, ?_, ?_⟩
    · intro i piece off hpiece
      cases hpiece
    · intro i j piece off off' _ hpiece
      cases hpiece
  | cons piece pieces ih =>
    rw [List.forall_mem_cons] at hnul
    have hrest := ih hnul.2 (text ++ piece ++ [0])
    have hnext : (text ++ piece ++ [0]).length = text.length + piece.length + 1 := by
      rw [List.length_append, List.length_append, List.length_singleton]
    rw [hnext] at hrest
    refine ⟨congrArg (· + 1) hrest.length, ?_, ?_⟩
    · intro i piece' off hpiece hoff
      cases i with
      | zero =>
        cases hpiece
        cases hoff
        obtain ⟨more, hmore⟩ := joinPieces_append (text ++ piece ++ [0]) pieces
        refine ⟨?_, hnul.1⟩
        rw [joinPieces, hmore, List.append_assoc, List.append_assoc, List.append_assoc, List.drop_left,
          ← List.append_assoc]
        exact List.take_left' (List.length_append ..)
      | succ i => exact hrest.text i piece' off hpiece hoff
    · intro i j piece' off off' hij hpiece hoff hoff'
      cases j with
      | zero => cases hij
      | succ j =>
        cases i with
        | zero =>
          cases hpiece
          cases hoff
          exact le_pieceOffsets hoff'
        | succ i => exact hrest.disjoint i j piece' off off' (Nat.lt_of_succ_lt_succ hij) hpiece hoff hoff'

lemma text_terminated {lf : V → Bytes} (hlf : ∀ v, 0 ∉ lf v) (bun : TunaBundle V) : 0 ∉ bun.text lf := by
  unfold TunaBundle.text
  cases hdata : bun.data with
  | unknown => exact absurd hdata bun.known
  | int i => exact decimalInt_terminated i
  | real r => exact hlf r
  | str s =>
    cases s with
    | none =>
      show 0 ∉ cstr "(null)"
      decide
    | some s => exact bun.terminated s hdata

/-- Nothing in a template is a null byte. -/
lemma argParts_terminated {template : Bytes} (hnul : 0 ∉ template) :
    ∀ part ∈ argParts template, part ≠ .char 0 ∧ part ≠ .escaped 0 := by
  fun_induction argParts template with
  | case1 => exact List.forall_mem_nil _
  | case2 text ih =>
    rw [List.mem_cons, not_or] at hnul
    have hrest := ih fun hmem => hnul.2 ((referenceRest_suffix text).mem hmem)
    exact List.forall_mem_cons.mpr ⟨⟨by simp, by simp⟩, hrest⟩
  | case3 => exact List.forall_mem_singleton.mpr ⟨by simp, by simp⟩
  | case4 c text _ ih =>
    rw [List.mem_cons, not_or, List.mem_cons, not_or] at hnul
    refine List.forall_mem_cons.mpr ⟨⟨by simp, ?_⟩, ih hnul.2.2⟩
    intro h
    cases h
    exact hnul.2.1 rfl
  | case5 c text _ _ ih =>
    rw [List.mem_cons, not_or] at hnul
    refine List.forall_mem_cons.mpr ⟨⟨?_, by simp⟩, ih hnul.2⟩
    intro h
    cases h
    exact hnul.1 rfl

lemma substitute_terminated {lf : V → Bytes} (hlf : ∀ v, 0 ∉ lf v) (bundles : List (TunaBundle V))
    {template : Bytes} (hnul : 0 ∉ template) : 0 ∉ substitute lf bundles template := by
  intro hmem
  obtain ⟨part, hpart, hzero⟩ := List.mem_flatMap.mp hmem
  obtain ⟨hchar, hescaped⟩ := argParts_terminated hnul part hpart
  cases part with
  | char c => exact hchar (by rw [List.mem_singleton.mp hzero])
  | escaped c => exact hescaped (by rw [List.mem_singleton.mp hzero])
  | openEscape => cases hzero
  | reference name =>
    rw [partText] at hzero
    cases hfind : bundles.find? fun bun => bun.name = name with
    | none =>
      rw [hfind] at hzero
      cases hzero
    | some bun =>
      rw [hfind] at hzero
      exact text_terminated hlf bun hzero

/-! ## The two passes -/

section
variable {bundles : List (TunaBundle V)} {templates : List Bytes}
  (hnul : ∀ template ∈ templates, 0 ∉ template)
  (hdecl : ∀ template ∈ templates, Declared bundles template)
  (hopen : ∀ template ∈ templates, .openEscape ∉ argParts template)
include hnul hdecl hopen

/-- One pass over the templates; if the buffer has room, then the arguments are laid out in it. -/
lemma expandArgs_pass (hlf : ∀ v, 0 ∉ lf v) (buf : Bytes) :
    ∃ buf' count, expandArgs lf bundles templates buf 0 =
        some (buf', pieceOffsets 0 (templates.map (substitute lf bundles)), some count) ∧
      buf'.length = buf.length ∧
      count = (joinPieces [] (templates.map (substitute lf bundles))).length ∧
      (count ≤ buf.length → LaidOut (templates.map (substitute lf bundles))
        (pieceOffsets 0 (templates.map (substitute lf bundles))) buf') := by
  obtain ⟨buf', hrun, hlen, hbuf'⟩ := expandArgs_text lf hnul hdecl hopen [] buf rfl (fun _ => rfl)
  refine ⟨buf', _, hrun, hlen, rfl, ?_⟩
  intro hle
  have hterm : ∀ piece ∈ templates.map (substitute lf bundles), 0 ∉ piece := by
    intro piece hpiece
    obtain ⟨template, hmem, rfl⟩ := List.mem_map.mp hpiece
    exact substitute_terminated hlf bundles (hnul template hmem)
  have hlaid := laidOut_pieces hterm []
    (buf'.drop (joinPieces [] (templates.map (substitute lf bundles))).length)
  have hsplit := List.take_append_drop (joinPieces [] (templates.map (substitute lf bundles))).length buf'
  rw [hbuf' hle] at hsplit
  rw [hsplit] at hlaid
  exact hlaid

lemma prepareClientArgv_laidOut (hlf : ∀ v, 0 ∉ lf v) {memory : ℕ → Bool}
    (hmemory : ∀ size, memory size = true) (fresh : ℕ → UInt8) (fuel : ℕ) (buf : Bytes) :
    ∃ res, prepareClientArgv lf bundles templates memory fresh (fuel + 2) 0 buf = some res ∧ res.ret = 0 ∧
      res.reallocs ≤ 1 ∧ LaidOut (templates.map (substitute lf bundles)) res.argv res.buf := by
  obtain ⟨buf₁, count, hrun₁, hlen₁, hcount, hlaid₁⟩ := expandArgs_pass lf hnul hdecl hopen hlf buf
  rw [prepareClientArgv, hrun₁]
  by_cases hroom : count > buf₁.length
  · -- The second pass counts the same, and has as much room.
    obtain ⟨buf₂, count₂, hrun₂, hlen₂, hcount₂, hlaid₂⟩ :=
      expandArgs_pass lf hnul hdecl hopen hlf (realloc fresh buf₁ count)
    rw [length_realloc] at hlen₂ hlaid₂
    rw [← hcount] at hcount₂
    refine ⟨⟨0, buf₂, _, 1⟩, ?_, rfl, le_refl _, hlaid₂ (le_of_eq hcount₂)⟩
    show (if count > buf₁.length then _ else _) = _
    rw [if_pos hroom, if_pos (hmemory count), prepareClientArgv, hrun₂]
    show (if count₂ > buf₂.length then _ else _) = _
    rw [if_neg (by omega)]
  · refine ⟨⟨0, buf₁, _, 0⟩, ?_, rfl, Nat.zero_le _, hlaid₁ (by omega)⟩
    show (if count > buf₁.length then _ else _) = _
    rw [if_neg hroom]

end

/-- When every reference is to a variable and memory is available, the arguments are laid out after at most one
reallocation, if and only if no template has a backslash with nothing behind it. -/
theorem prepareClientArgv_iff (hlf : ∀ v, 0 ∉ lf v) (bundles : List (TunaBundle V)) (templates : List Bytes)
    (hnul : ∀ template ∈ templates, 0 ∉ template)
    (hdecl : ∀ template ∈ templates, Declared bundles template)
    (memory : ℕ → Bool) (hmemory : ∀ size, memory size = true) (fresh : ℕ → UInt8) (fuel : ℕ)
    (buf : Bytes) :
    (∃ res, prepareClientArgv lf bundles templates memory fresh (fuel + 2) 0 buf = some res ∧ res.ret = 0 ∧
      res.reallocs ≤ 1 ∧ LaidOut (templates.map (substitute lf bundles)) res.argv res.buf) ↔
    ∀ template ∈ templates, .openEscape ∉ argParts template := by
  constructor
  · rintro ⟨res, hrun, -⟩
    by_contra hopen
    rw [prepareClientArgv, expandArgs_open lf hnul hdecl hopen] at hrun
    cases hrun
  · intro hopen
    exact prepareClientArgv_laidOut lf hnul hdecl hopen hlf hmemory fresh fuel buf

/-- A variable `n` whose value is 42. -/
def tunaN : TunaBundle ℕ where
  name := cstr "n"
  data := .int 42
  known h := by cases h
  terminated _ h := by cases h

def tunaTemplates : List Bytes := [cstr "run", cstr "-n=%{n}k", cstr "\\%n %n"]

lemma tunaTemplates_parts : tunaTemplates.map argParts =
    [[.char 114, .char 117, .char 110],
      [.char 45, .char 110, .char 61, .reference [110], .char 107],
      [.escaped 37, .char 110, .char 32, .reference [110]]] := by
  simp [tunaTemplates, cstr, argParts, referenceName, referenceRest, isSpace]

/-- A reference with braces, an escaped percent sign, and a reference up to the end. -/
theorem prepareClientArgv_target :
    ∃ res, prepareClientArgv (fun _ : ℕ => cstr "1.000000") [tunaN] tunaTemplates (fun _ => true)
        (fun _ => 0) 2 0 [] = some res ∧ res.ret = 0 ∧ res.reallocs ≤ 1 ∧
      LaidOut [cstr "run", cstr "-n=42k", cstr "%n 42"] res.argv res.buf := by
  have hsub : tunaTemplates.map (substitute (fun _ : ℕ => cstr "1.000000") [tunaN]) =
      (tunaTemplates.map argParts).map
        (List.flatMap (partText (fun _ : ℕ => cstr "1.000000") [tunaN])) := by
    rw [List.map_map]
    rfl
  have hparts : ∀ parts ∈ tunaTemplates.map argParts, .openEscape ∉ parts ∧
      ∀ name, .reference name ∈ parts → ∃ bun ∈ [tunaN], bun.name = name := by
    rw [tunaTemplates_parts]
    have hname : tunaN.name = [110] := by decide
    simp [hname]
  have hiff := prepareClientArgv_iff (fun _ : ℕ => cstr "1.000000") (fun _ => by decide) [tunaN]
    tunaTemplates (by decide) (fun template h => (hparts _ (List.mem_map_of_mem h)).2) (fun _ => true)
    (fun _ => rfl) (fun _ => 0) 0 []
  rw [hsub, tunaTemplates_parts] at hiff
  exact hiff.mpr fun template h => (hparts _ (List.mem_map_of_mem h)).1

/-- A backslash at the end of an argument escapes the terminator, and what is behind it is read. -/
theorem prepareClientArgv_backslash :
    (∀ template ∈ [cstr "a\\"], 0 ∉ template ∧ Declared [tunaN] template) ∧
      prepareClientArgv (fun _ : ℕ => cstr "1.000000") [tunaN] [cstr "a\\"] (fun _ => true)
        (fun _ => 0) 2 0 [] = none := by
  have hparts : argParts (cstr "a\\") = [.char 97, .openEscape] := by simp [cstr, argParts]
  have hdecl : Declared [tunaN] (cstr "a\\") := by
    unfold Declared
    rw [hparts]
    simp
  constructor
  · rw [List.forall_mem_singleton]
    exact ⟨by decide, hdecl⟩
  · rw [prepareClientArgv, expandArgs, expandArg_openEscape _ (by decide) hdecl]
    rw [hparts]
    simp

end ActiveHarmony

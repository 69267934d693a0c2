import ActiveHarmony.Config.Parse
import Mathlib.Algebra.Order.BigOperators.Group.List
import Mathlib.Data.List.Count

/-!
# Saving and loading a configuration

`hcfg_write` writes the values as they are, while `hcfg_load` parses the lines with `hcfg_parse`,
which unquotes them. `saved_loads_iff` says which configurations load back.
-/

namespace ActiveHarmony

open TextScan (isSpace)

/-! ## The writer -/

/-- The line of an entry. -/
def KeyVal.line (entry : KeyVal) : Bytes := entry.key ++ 61 :: (entry.val ++ [10])

/-- `hcfg_write`: the contents of the file. -/
def hcfgWrite (cfg : Hcfg) : Bytes :=
  ((cfg.hash.take (1 <<< cfg.logsize)).reduceOption.map KeyVal.line).flatten

/-! ## The reader -/

/-- The loop of `line_count`, where `stop` has the characters it looks for and `start` says that the
test of the loop comes next. A backslash only stops it while `stop` starts with `=`, so that its test
for the escape of a newline fails. -/
def lineCountLoop (stop : Bytes) (start : Bool) : Bytes → ℕ
  | [] => 0
  | c :: buf =>
    if start ∧ c = 10 then 1
    else if c ∉ stop then lineCountLoop stop false buf
    else if c = 92 then lineCountLoop stop true buf
    else if c = 61 then lineCountLoop [35, 10] false buf
    else if c = 35 then lineCountLoop [10] false buf
    else 1

/-- `line_count` -/
def lineCount (buf : Bytes) : ℕ := lineCountLoop [61, 35, 92] true buf

/-- Where the loop that unquotes a value stops. -/
def unquoteRest : Bytes → Bytes
  | [] => []
  | c :: buf =>
    if c = 10 ∨ c = 35 then c :: buf
    else if c = 92 then
      match buf with
      | [] => []
      | _ :: buf => unquoteRest buf
    else unquoteRest buf

/-- The code at `endline`: what is behind the next newline. -/
def afterLine (buf : Bytes) : Bytes := (buf.dropWhile (· ≠ 10)).tail

/-- The return value of `hcfg_parse`: what is behind the directive. -/
def hcfgNext (buf : Bytes) : Option Bytes :=
  match buf.dropWhile isBlank with
  | [] => none
  | c :: buf =>
    if c = 10 ∨ c = 35 then some (afterLine (c :: buf))
    else if !isKeyChar c then none
    else
      match ((c :: buf).dropWhile isKeyChar).dropWhile isBlank with
      | 61 :: buf => some (afterLine (unquoteRest (buf.dropWhile isBlank)))
      | _ => none

/-- How the loop over the lines in the buffer ends. -/
inductive LoadStop where
  /-- The other lines are not there, or not whole. -/
  | more
  /-- `hcfg_parse` returned `NULL`. -/
  | invalid
  /-- The insertion failed. -/
  | failed
deriving DecidableEq, Repr

lemma afterLine_suffix (buf : Bytes) : afterLine buf <:+ buf :=
  (List.tail_suffix _).trans (List.dropWhile_suffix _)

lemma afterLine_length {buf : Bytes} (h : buf ≠ []) : (afterLine buf).length < buf.length := by
  unfold afterLine
  have hle := (List.dropWhile_suffix (l := buf) (· ≠ 10)).length_le
  have hpos := List.length_pos_iff.mpr h
  rw [List.length_tail]
  omega

lemma unquoteRest_suffix (buf : Bytes) : unquoteRest buf <:+ buf := by
  fun_induction unquoteRest buf with
  | case1 => exact List.suffix_refl _
  | case2 => exact List.suffix_refl _
  | case3 => exact List.nil_suffix
  | case4 d buf _ ih => exact ih.trans ((List.suffix_cons d buf).trans (List.suffix_cons _ _))
  | case5 c buf _ _ ih => exact ih.trans (List.suffix_cons c buf)

/-- `hcfg_parse` takes something off the front. -/
lemma hcfgNext_suffix {buf next : Bytes} (h : hcfgNext buf = some next) :
    next <:+ buf ∧ next.length < buf.length := by
  have hblank := List.dropWhile_suffix (l := buf) isBlank
  unfold hcfgNext at h
  split at h
  · cases h
  · next c rest hdrop =>
    rw [hdrop] at hblank
    split_ifs at h
    · cases h
      refine ⟨(afterLine_suffix _).trans hblank, ?_⟩
      exact lt_of_lt_of_le (afterLine_length (List.cons_ne_nil c rest)) hblank.length_le
    · split at h
      · next value hvalue =>
        cases h
        have hkey := List.dropWhile_suffix (l := c :: rest) isKeyChar
        have hsep := List.dropWhile_suffix (l := (c :: rest).dropWhile isKeyChar) isBlank
        rw [hvalue] at hsep
        have hall := hsep.trans (hkey.trans hblank)
        have hrest : afterLine (unquoteRest (value.dropWhile isBlank)) <:+ value :=
          (afterLine_suffix _).trans ((unquoteRest_suffix _).trans (List.dropWhile_suffix _))
        refine ⟨hrest.trans ((List.suffix_cons 61 value).trans hall), ?_⟩
        have hle := hall.length_le
        have hle' := hrest.length_le
        rw [List.length_cons] at hle
        omega
      · cases h

/-- The inner loop of `hcfg_load`, over the lines in the buffer. -/
def hcfgLoadLines (eof : Bool) (cfg : Hcfg) (text : Bytes) : Option (LoadStop × Hcfg × Bytes) :=
  if text = [] then some (.more, cfg, text)
  else if lineCount text = 0 ∧ eof = false then some (.more, cfg, text)
  else
    match _h : hcfgNext text with
    | none => some (.invalid, cfg, text)
    | some next =>
      match hcfgParse text with
      | none => none
      | some (some key, some val) =>
        match hashInsert cfg key val with
        | none => none
        | some (ret, cfg) =>
          if ret ≠ 0 then some (.failed, cfg, text) else hcfgLoadLines eof cfg next
      | some _ => hcfgLoadLines eof cfg next
termination_by text.length
decreasing_by
  · exact (hcfgNext_suffix _h).2
  · exact (hcfgNext_suffix _h).2

/-- The size of the buffer of `hcfg_load`. -/
def hcfgBufsize : ℕ := 4096

/-- The outer loop of `hcfg_load`, with the text that was moved to the front of the buffer and the part
of the file that is left: the return value and the configuration. -/
def hcfgLoadLoop (cfg : Hcfg) (text file : Bytes) : Option (ℤ × Hcfg) :=
  let space := hcfgBufsize - (text.length + 1)
  if _hspace : space = 0 then
    -- Full buffer with no newline.
    some (-1, cfg)
  else
    match hcfgLoadLines (decide (file.length < space)) cfg (text ++ file.take space) with
    | none => none
    | some (.more, cfg, text) =>
      if _heof : file.length < space then some (if text = [] then 0 else -1, cfg)
      else hcfgLoadLoop cfg text (file.drop space)
    | some (_, cfg, _) => some (-1, cfg)
termination_by file.length
decreasing_by
  rw [List.length_drop]
  omega

/-- `hcfg_load`, of a file with these contents. -/
def hcfgLoad (cfg : Hcfg) (file : Bytes) : Option (ℤ × Hcfg) := hcfgLoadLoop cfg [] file

/-! ## What the values cost

Every directive takes at least as much of the file as its key and value are written with, if a
backslash counts twice. -/

/-- The length of a text, where a backslash counts twice. -/
def bulk (text : Bytes) : ℕ := text.length + text.count 92

@[simp] lemma bulk_nil : bulk [] = 0 := rfl

lemma bulk_cons_of_ne {c : UInt8} (h : c ≠ 92) (text : Bytes) : bulk (c :: text) = bulk text + 1 := by
  unfold bulk
  rw [List.count_cons_of_ne h, List.length_cons]
  omega

lemma bulk_backslash (text : Bytes) : bulk (92 :: text) = bulk text + 2 := by
  unfold bulk
  rw [List.count_cons_self, List.length_cons]
  omega

lemma bulk_append (text more : Bytes) : bulk (text ++ more) = bulk text + bulk more := by
  unfold bulk
  rw [List.count_append, List.length_append]
  omega

lemma bulk_le_of_sublist {text more : Bytes} (h : List.Sublist text more) : bulk text ≤ bulk more :=
  Nat.add_le_add h.length_le (h.count_le 92)

lemma eq_of_sublist_of_bulk {text more : Bytes} (h : List.Sublist text more)
    (hbulk : bulk more ≤ bulk text) : text = more := by
  have hcount := h.count_le 92
  have hlen := h.length_le
  unfold bulk at hbulk
  exact h.eq_of_length (by omega)

lemma unquoteRest_of_stop {c : UInt8} (h : c = 10 ∨ c = 35) (buf : Bytes) :
    unquoteRest (c :: buf) = c :: buf := by
  rw [unquoteRest.eq_def]
  exact if_pos h

lemma unquoteRest_char {c : UInt8} (h : c ≠ 10 ∧ c ≠ 35 ∧ c ≠ 92) (buf : Bytes) :
    unquoteRest (c :: buf) = unquoteRest buf := by
  rw [unquoteRest.eq_def]
  dsimp only
  rw [if_neg (not_or.mpr ⟨h.1, h.2.1⟩), if_neg h.2.2]

/-- What the loop that unquotes a value takes off the text. -/
lemma unquote_bulk {buf out : Bytes} {comment : Bool} (h : unquote buf = some (out, comment)) :
    bulk out + bulk (unquoteRest buf) ≤ bulk buf ∧
      (bulk buf ≤ bulk out + bulk (unquoteRest buf) →
        buf = out ++ unquoteRest buf ∧ ∀ c ∈ out, c ≠ 10 ∧ c ≠ 35 ∧ c ≠ 92) ∧
      (10 ∈ buf → 10 ∉ unquoteRest buf → bulk out + bulk (unquoteRest buf) + 2 ≤ bulk buf) := by
  induction buf using unquote.induct generalizing out comment with
  | case1 =>
    cases h
    exact ⟨le_refl _, fun _ => ⟨rfl, fun c hc => absurd hc List.not_mem_nil⟩,
      fun hmem => absurd hmem List.not_mem_nil⟩
  | case2 buf =>
    rw [unquote_newline] at h
    cases h
    rw [unquoteRest_of_stop (Or.inl rfl)]
    exact ⟨by rw [bulk_nil]; omega, fun _ => ⟨rfl, fun c hc => absurd hc List.not_mem_nil⟩,
      fun hmem hnot => absurd hmem hnot⟩
  | case3 buf =>
    rw [unquote_hash] at h
    cases h
    rw [unquoteRest_of_stop (Or.inr rfl)]
    exact ⟨by rw [bulk_nil]; omega, fun _ => ⟨rfl, fun c hc => absurd hc List.not_mem_nil⟩,
      fun hmem hnot => absurd hmem hnot⟩
  | case4 => cases h
  | case5 d buf _ _ ih =>
    -- the backslash is dropped
    rw [unquote_backslash] at h
    obtain ⟨⟨out', comment'⟩, hrest, heq⟩ := Option.map_eq_some_iff.mp h
    dsimp only at heq
    cases heq
    have hle := (ih hrest).1
    have hnext : unquoteRest (92 :: d :: buf) = unquoteRest buf := by
      rw [unquoteRest, if_neg (by decide), if_pos rfl]
    rw [hnext]
    have hcost : bulk (d :: out') + bulk (unquoteRest buf) + 2 ≤ bulk (92 :: d :: buf) := by
      rw [bulk_backslash]
      by_cases hd : d = 92
      · rw [hd, bulk_backslash, bulk_backslash]
        omega
      · rw [bulk_cons_of_ne hd, bulk_cons_of_ne hd]
        omega
    exact ⟨by omega, fun hge => by omega, fun _ _ => hcost⟩
  | case6 c buf hnl hhash hback ih =>
    rw [unquote_char ⟨hnl, hhash, hback⟩] at h
    obtain ⟨⟨out', comment'⟩, hrest, heq⟩ := Option.map_eq_some_iff.mp h
    dsimp only at heq
    cases heq
    obtain ⟨hle, hsame, hskip⟩ := ih hrest
    rw [unquoteRest_char ⟨hnl, hhash, hback⟩, bulk_cons_of_ne hback, bulk_cons_of_ne hback]
    refine ⟨by omega, ?_, ?_⟩
    · intro hge
      obtain ⟨hsplit, hchars⟩ := hsame (by omega)
      refine ⟨congrArg (c :: ·) hsplit, ?_⟩
      intro d hd
      obtain rfl | hd := List.mem_cons.mp hd
      · exact ⟨hnl, hhash, hback⟩
      · exact hchars d hd
    · intro hmem hnot
      have hmem' : 10 ∈ buf := (List.mem_cons.mp hmem).resolve_left (Ne.symm hnl)
      have hlt := hskip hmem' hnot
      omega

/-- Where unquoting stops, if not at the end of the text. -/
lemma unquoteRest_stop (buf : Bytes) :
    unquoteRest buf = [] ∨ ∃ c rest, unquoteRest buf = c :: rest ∧ (c = 10 ∨ c = 35) := by
  fun_induction unquoteRest buf with
  | case1 => exact Or.inl rfl
  | case2 c buf hstop => exact Or.inr ⟨c, buf, rfl, hstop⟩
  | case3 => exact Or.inl rfl
  | case4 d buf _ ih => exact ih
  | case5 c buf _ _ ih => exact ih

lemma afterLine_newline (rest : Bytes) : afterLine (10 :: rest) = rest := rfl

lemma afterLine_of_ne {c : UInt8} (h : c ≠ 10) (rest : Bytes) :
    afterLine (c :: rest) = afterLine rest := by
  unfold afterLine
  rw [List.dropWhile_cons_of_pos (by simpa using h)]

/-- Behind the stop, the line has at least its newline, if that is there. -/
lemma bulk_afterLine {rest : Bytes} (h : 10 ∈ rest) : bulk (afterLine rest) + 1 ≤ bulk rest := by
  induction rest with
  | nil => exact absurd h List.not_mem_nil
  | cons c rest ih =>
    by_cases hc : c = 10
    · rw [hc, afterLine_newline, bulk_cons_of_ne (by decide)]
    · have hmem : 10 ∈ rest := (List.mem_cons.mp h).resolve_left (Ne.symm hc)
      rw [afterLine_of_ne hc]
      have hle := ih hmem
      have hcons := bulk_le_of_sublist (List.sublist_cons_self c rest)
      omega

lemma afterLine_of_not_mem {rest : Bytes} (h : 10 ∉ rest) : afterLine rest = [] := by
  unfold afterLine
  rw [List.dropWhile_eq_nil_iff.mpr]
  · rfl
  · intro c hc
    apply decide_eq_true
    intro hten
    rw [hten] at hc
    exact h hc

lemma dropQuote_sublist (val : Bytes) (comment : Bool) : List.Sublist (dropQuote val comment) val := by
  unfold dropQuote
  split_ifs
  · exact List.tail_sublist val
  · exact List.Sublist.refl val

lemma isBlank_ne {c : UInt8} (h : isBlank c = true) : c ≠ 10 := by
  rintro rfl
  exact absurd h (by decide)

lemma mem_dropWhile_isBlank {buf : Bytes} (h : 10 ∈ buf) : 10 ∈ buf.dropWhile isBlank := by
  rw [← List.takeWhile_append_dropWhile (p := isBlank) (l := buf)] at h
  obtain hmem | hmem := List.mem_append.mp h
  · exact absurd rfl (isBlank_ne (List.mem_takeWhile_imp hmem))
  · exact hmem

lemma isBlank_dropWhile {d : UInt8} {buf rest : Bytes} (h : buf.dropWhile isBlank = d :: rest) :
    isBlank d = false := by
  have hhead := List.head?_dropWhile_not isBlank buf
  rw [h] at hhead
  exact hhead

/-- A value, with the newline behind it, takes at least the bytes it is written with, and more than
these if it is not plain. -/
lemma valueOf_bulk {buf val : Bytes} (h : valueOf buf = some (some val)) (hline : 10 ∈ buf) :
    bulk val + 1 + bulk (afterLine (unquoteRest (buf.dropWhile isBlank))) ≤ bulk buf ∧
      (bulk buf ≤ bulk val + 1 + bulk (afterLine (unquoteRest (buf.dropWhile isBlank))) → Plain val) := by
  unfold valueOf at h
  have hblank := bulk_le_of_sublist (List.dropWhile_sublist (l := buf) isBlank)
  cases hdrop : buf.dropWhile isBlank with
  | nil =>
    rw [hdrop] at h
    cases h
  | cons d rest =>
    rw [hdrop] at h hblank
    dsimp only at h
    by_cases hnl : d = 10
    · rw [if_pos hnl] at h
      cases h
    · rw [if_neg hnl] at h
      obtain ⟨⟨out, comment⟩, hunquote, heq⟩ := Option.map_eq_some_iff.mp h
      obtain ⟨hle, hsame, hskip⟩ := unquote_bulk hunquote
      obtain rfl : (dropQuote out comment).rdropWhile isSpace = val := Option.some.inj heq
      have hsub : List.Sublist ((dropQuote out comment).rdropWhile isSpace) out :=
        (List.rdropWhile_prefix isSpace _).sublist.trans (dropQuote_sublist out comment)
      have hval := bulk_le_of_sublist hsub
      have hmem : 10 ∈ d :: rest := by
        rw [← hdrop]
        exact mem_dropWhile_isBlank hline
      by_cases hstop : 10 ∈ unquoteRest (d :: rest)
      · have hafter := bulk_afterLine hstop
        refine ⟨by omega, ?_⟩
        intro hge
        obtain ⟨hsplit, hchars⟩ := hsame (by omega)
        have hout := eq_of_sublist_of_bulk hsub (by omega)
        have hend : ((dropQuote out comment).rdropWhile isSpace).rdropWhile isSpace =
            (dropQuote out comment).rdropWhile isSpace := List.rdropWhile_idempotent ..
        rw [hout] at hend ⊢
        refine ⟨?_, hend, hchars⟩
        -- the value ends at its newline, not in a comment
        obtain hnil | ⟨c, more, hmore, hc⟩ := unquoteRest_stop (d :: rest)
        · rw [hnil] at hstop
          exact absurd hstop List.not_mem_nil
        · have hten : c = 10 := by
            apply hc.resolve_right
            intro hhash
            rw [hmore, hhash] at hstop hge hle
            have hmem' : 10 ∈ more := (List.mem_cons.mp hstop).resolve_left (by decide)
            have hline' := bulk_afterLine hmem'
            rw [bulk_cons_of_ne (by decide)] at hle
            rw [afterLine_of_ne (by decide)] at hge
            omega
          rw [hmore, hten] at hsplit
          cases out with
          | nil => exact absurd (List.cons.inj hsplit).1 hnl
          | cons o out =>
            obtain ⟨rfl, -⟩ := List.cons.inj hsplit
            refine ⟨d, out, rfl, ?_⟩
            have hblank' := isBlank_dropWhile hdrop
            unfold isBlank at hblank'
            have hne : (d != 10) = true := bne_iff_ne.mpr hnl
            rwa [hne, Bool.and_true] at hblank'
      · -- a newline was unquoted
        have hcost := hskip hmem hstop
        rw [afterLine_of_not_mem hstop, bulk_nil]
        exact ⟨by omega, fun hge => by omega⟩

/-! ## Directives -/

/-- What stands before the separator of a directive. -/
def IsHead (pre : Bytes) : Prop := ∀ c ∈ pre, c ≠ 61 ∧ c ≠ 35 ∧ c ≠ 92 ∧ c ≠ 10

lemma isHead_of_isBlank {pre : Bytes} (h : ∀ c ∈ pre, isBlank c = true) : IsHead pre := by
  intro c hc
  have hblank := h c hc
  refine ⟨?_, ?_, ?_, isBlank_ne hblank⟩ <;>
  · rintro rfl
    exact absurd hblank (by decide)

lemma isHead_of_isKeyChar {pre : Bytes} (h : ∀ c ∈ pre, isKeyChar c = true) : IsHead pre := by
  intro c hc
  have hkey := h c hc
  refine ⟨?_, ?_, ?_, ?_⟩ <;>
  · rintro rfl
    exact absurd hkey (by decide)

/-- A directive with a key and a value, and where the next one starts. -/
lemma hcfgParse_directive {text key val next : Bytes} (hparse : hcfgParse text = some (some key, some val))
    (hnext : hcfgNext text = some next) :
    ∃ pre rest, text = pre ++ 61 :: rest ∧ IsHead pre ∧ key ≠ [] ∧ key.length ≤ pre.length ∧
      valueOf rest = some (some val) ∧ next = afterLine (unquoteRest (rest.dropWhile isBlank)) := by
  have hblank := List.takeWhile_append_dropWhile (p := isBlank) (l := text)
  unfold hcfgParse at hparse
  unfold hcfgNext at hnext
  cases hdrop : text.dropWhile isBlank with
  | nil =>
    rw [hdrop] at hnext
    cases hnext
  | cons c buf =>
    rw [hdrop] at hparse hnext hblank
    dsimp only at hparse hnext
    by_cases hstart : c = 10 ∨ c = 35 ∨ (!isKeyChar c) = true
    · rw [if_pos hstart] at hparse
      cases hparse
    · obtain ⟨hnl, hhash, hkeyChar⟩ : c ≠ 10 ∧ c ≠ 35 ∧ isKeyChar c = true := by
        simpa only [not_or, Bool.not_eq_true', Bool.not_eq_false] using hstart
      rw [if_neg hstart] at hparse
      rw [if_neg (not_or.mpr ⟨hnl, hhash⟩), hkeyChar, if_neg (by decide)] at hnext
      have hkey := List.takeWhile_append_dropWhile (p := isKeyChar) (l := c :: buf)
      have hsep := List.takeWhile_append_dropWhile (p := isBlank) (l := (c :: buf).dropWhile isKeyChar)
      split at hnext
      · next rest hrest =>
        rw [hrest] at hparse hsep
        cases hnext
        obtain ⟨hname, hvalue⟩ : ((c :: buf).takeWhile isKeyChar).map toupper = key ∧
            valueOf rest = some (some val) := by
          unfold valueOf
          cases hvalue : rest.dropWhile isBlank with
          | nil =>
            simp only [hvalue] at hparse
            cases hparse
          | cons d more =>
            simp only [hvalue] at hparse
            dsimp only
            by_cases hempty : d = 10
            · rw [if_pos hempty] at hparse
              cases hparse
            · rw [if_neg hempty] at hparse ⊢
              obtain ⟨res, hres, heq⟩ := Option.map_eq_some_iff.mp hparse
              rw [hres, Option.map_some]
              exact ⟨Option.some.inj (Prod.mk.inj heq).1, congrArg some (Prod.mk.inj heq).2⟩
        have htake : (c :: buf).takeWhile isKeyChar = c :: buf.takeWhile isKeyChar :=
          List.takeWhile_cons_of_pos hkeyChar
        refine ⟨text.takeWhile isBlank ++ ((c :: buf).takeWhile isKeyChar ++
          ((c :: buf).dropWhile isKeyChar).takeWhile isBlank), rest, ?_, ?_, ?_, ?_, ?_, rfl⟩
        · rw [List.append_assoc, List.append_assoc, hsep, hkey, hblank]
        · intro d hd
          obtain hd | hd := List.mem_append.mp hd
          · exact isHead_of_isBlank (fun _ h => List.mem_takeWhile_imp h) d hd
          · obtain hd | hd := List.mem_append.mp hd
            · exact isHead_of_isKeyChar (fun _ h => List.mem_takeWhile_imp h) d hd
            · exact isHead_of_isBlank (fun _ h => List.mem_takeWhile_imp h) d hd
        · rw [← hname, htake, List.map_cons]
          exact List.cons_ne_nil _ _
        · rw [← hname, List.length_map, List.length_append, List.length_append]
          omega
        · exact hvalue
      · cases hnext

lemma lineCountLoop_newline {stop : Bytes} (hstop : ∀ c ∈ stop, c ∈ [61, 35, 92, 10]) {start : Bool}
    {buf : Bytes} (h : lineCountLoop stop start buf ≠ 0) : 10 ∈ buf := by
  fun_induction lineCountLoop stop start buf with
  | case1 => exact absurd rfl h
  | case2 stop start c buf hstart => exact List.mem_cons.mpr (Or.inl hstart.2.symm)
  | case3 stop start c buf _ _ ih => exact List.mem_cons_of_mem c (ih hstop h)
  | case4 stop start buf _ _ ih => exact List.mem_cons_of_mem _ (ih hstop h)
  | case5 stop start buf _ _ _ ih => exact List.mem_cons_of_mem _ (ih (by simp) h)
  | case6 stop start buf _ _ _ _ ih => exact List.mem_cons_of_mem _ (ih (by simp) h)
  | case7 stop start c buf _ hmem hback heq hhash =>
    have hfour := hstop c (not_not.mp hmem)
    simp only [List.mem_cons, hback, heq, hhash, false_or, List.not_mem_nil, or_false] at hfour
    exact List.mem_cons.mpr (Or.inl hfour.symm)

lemma lineCount_newline {buf : Bytes} (h : lineCount buf ≠ 0) : 10 ∈ buf :=
  lineCountLoop_newline (by simp) h

/-- The newline of a directive is searched behind its separator. -/
lemma lineCountLoop_head {pre : Bytes} (hpre : IsHead pre) (start : Bool) (rest : Bytes) :
    lineCountLoop [61, 35, 92] start (pre ++ 61 :: rest) = lineCountLoop [35, 10] false rest := by
  induction pre generalizing start with
  | nil =>
    show lineCountLoop _ _ (61 :: rest) = _
    rw [lineCountLoop, if_neg fun h => absurd h.2 (by decide), if_neg (by decide), if_neg (by decide),
      if_pos rfl]
  | cons c pre ih =>
    obtain ⟨heq, hhash, hback, hnl⟩ := hpre c List.mem_cons_self
    have hnot : c ∉ ([61, 35, 92] : Bytes) := by
      simp only [List.mem_cons, heq, hhash, hback, List.not_mem_nil, or_self, not_false_eq_true]
    show lineCountLoop _ _ (c :: (pre ++ 61 :: rest)) = _
    rw [lineCountLoop, if_neg fun h => hnl h.2, if_pos hnot]
    exact ih (fun d hd => hpre d (List.mem_cons_of_mem c hd)) false

/-- The text ends with a newline, if it is not empty. -/
def EndsLine (text : Bytes) : Prop := ∀ t c, text = t ++ [c] → c = 10

lemma EndsLine.suffix {text more : Bytes} (h : EndsLine more) (hsuffix : text <:+ more) :
    EndsLine text := by
  obtain ⟨pre, hpre⟩ := hsuffix
  intro t c htext
  apply h (pre ++ t) c
  rw [List.append_assoc, ← htext, hpre]

/-- A directive takes at least the bytes that its key and value are written with, and more than these if
the value is not plain. -/
lemma hcfgParse_bulk {text key val next : Bytes} (hparse : hcfgParse text = some (some key, some val))
    (hnext : hcfgNext text = some next) (hline : lineCount text ≠ 0 ∨ EndsLine text) :
    key ≠ [] ∧ key.length + bulk val + 2 + bulk next ≤ bulk text ∧
      (bulk text ≤ key.length + bulk val + 2 + bulk next → Plain val) := by
  obtain ⟨pre, rest, rfl, hpre, hkey, hlen, hvalue, rfl⟩ := hcfgParse_directive hparse hnext
  have hmem : 10 ∈ rest := by
    obtain hcount | hends := hline
    · have hloop := lineCountLoop_head hpre true rest
      unfold lineCount at hcount
      rw [hloop] at hcount
      exact lineCountLoop_newline (by simp) hcount
    · obtain hnil | ⟨t, c, hrest⟩ := List.eq_nil_or_concat' rest
      · have hsep := hends pre 61 (by rw [hnil])
        exact absurd hsep (by decide)
      · have hten := hends (pre ++ 61 :: t) c (by rw [hrest, List.append_assoc, List.cons_append])
        rw [hrest, hten]
        exact List.mem_append_right _ (List.mem_singleton.mpr rfl)
  obtain ⟨hle, hplain⟩ := valueOf_bulk hvalue hmem
  have hprefix : pre.length ≤ bulk pre := Nat.le_add_right _ _
  rw [bulk_append, bulk_cons_of_ne (by decide)]
  exact ⟨hkey, by omega, fun hge => hplain (by omega)⟩

/-! ## What a load that succeeds has taken -/

/-- What the line of an entry costs. -/
def KeyVal.cost (entry : KeyVal) : ℕ := entry.key.length + bulk entry.val + 2

/-- Loading leaves a valid store whose values were there before or come from directives. -/
structure Loads (cfg cfg' : Hcfg) (ds : List KeyVal) : Prop where
  valid : cfg'.Valid
  keys : ∀ d ∈ ds, d.key ≠ []
  get : ∀ k v, hcfgGet cfg' k = some v →
    hcfgGet cfg k = some v ∨ ∃ d ∈ ds, d.fold = foldCase k ∧ d.val = v

lemma Loads.refl {cfg : Hcfg} (hv : cfg.Valid) : Loads cfg cfg [] where
  valid := hv
  keys := fun _ hd => absurd hd List.not_mem_nil
  get := fun _ _ h => Or.inl h

lemma Loads.trans {cfg cfg' cfg'' : Hcfg} {ds ds' : List KeyVal} (h : Loads cfg cfg' ds)
    (h' : Loads cfg' cfg'' ds') : Loads cfg cfg'' (ds ++ ds') where
  valid := h'.valid
  keys := by
    intro d hd
    obtain hd | hd := List.mem_append.mp hd
    · exact h.keys d hd
    · exact h'.keys d hd
  get := by
    intro k v hget
    obtain hget | ⟨d, hd, hvalue⟩ := h'.get k v hget
    · obtain hget | ⟨d, hd, hvalue⟩ := h.get k v hget
      · exact Or.inl hget
      · exact Or.inr ⟨d, List.mem_append_left _ hd, hvalue⟩
    · exact Or.inr ⟨d, List.mem_append_right _ hd, hvalue⟩

lemma Loads.insert {cfg cfg' : Hcfg} {key val : Bytes} (hv : cfg.Valid) (hkey : key ≠ [])
    (h : hashInsert cfg key val = some (0, cfg')) : Loads cfg cfg' [⟨key, val⟩] := by
  have hsafe : SafeInsert cfg key := by
    by_contra hfull
    rw [hashInsert_full hv hfull] at h
    cases h
  obtain ⟨cfg₁, hins, hv₁, hget⟩ := hashInsert_spec hv hsafe val
  rw [hins] at h
  cases h
  refine ⟨hv₁, ?_, ?_⟩
  · intro d hd
    rw [List.mem_singleton.mp hd]
    exact hkey
  · intro k v hvalue
    rw [hget] at hvalue
    by_cases hfold : foldCase k = foldCase key
    · rw [if_pos hfold] at hvalue
      exact Or.inr ⟨_, List.mem_singleton.mpr rfl, hfold.symm, Option.some.inj hvalue⟩
    · rw [if_neg hfold] at hvalue
      exact Or.inl hvalue

/-- The directives take at least what their keys and values cost, and more if a value is not plain. -/
def Pays (ds : List KeyVal) (text : Bytes) (left : Bytes) : Prop :=
  (ds.map KeyVal.cost).sum + bulk left ≤ bulk text ∧
    (bulk text ≤ (ds.map KeyVal.cost).sum + bulk left → ∀ d ∈ ds, Plain d.val)

lemma Pays.trans {ds ds' : List KeyVal} {text left left' more : Bytes} (h : Pays ds text left)
    (h' : Pays ds' (left ++ more) left') : Pays (ds ++ ds') (text ++ more) left' := by
  obtain ⟨hle, hplain⟩ := h
  obtain ⟨hle', hplain'⟩ := h'
  unfold Pays
  rw [bulk_append] at hle' hplain' ⊢
  rw [List.map_append, List.sum_append]
  refine ⟨by omega, ?_⟩
  intro hge d hd
  obtain hd | hd := List.mem_append.mp hd
  · exact hplain (by omega) d hd
  · exact hplain' (by omega) d hd

lemma hcfgLoadLines_pays {eof : Bool} {cfg cfg' : Hcfg} {text left : Bytes} (hv : cfg.Valid)
    (hends : eof = true → EndsLine text)
    (h : hcfgLoadLines eof cfg text = some (.more, cfg', left)) :
    left <:+ text ∧ ∃ ds, Loads cfg cfg' ds ∧ Pays ds text left := by
  fun_induction hcfgLoadLines eof cfg text with
  | case1 cfg =>
    cases h
    exact ⟨List.suffix_refl _, [], Loads.refl hv, le_of_eq (Nat.zero_add _), fun _ d hd =>
      absurd hd List.not_mem_nil⟩
  | case2 cfg text =>
    cases h
    exact ⟨List.suffix_refl _, [], Loads.refl hv, le_of_eq (Nat.zero_add _), fun _ d hd =>
      absurd hd List.not_mem_nil⟩
  | case3 => cases h
  | case4 => cases h
  | case5 => cases h
  | case6 => cases h
  | case7 cfg text htext hcount next hnext key val hparse ret cfg₁ hins hret ih =>
    obtain rfl : ret = 0 := not_not.mp hret
    obtain ⟨hsuffix, -⟩ := hcfgNext_suffix hnext
    have hline : lineCount text ≠ 0 ∨ EndsLine text := by
      cases eof with
      | true => exact Or.inr (hends rfl)
      | false => exact Or.inl fun hzero => hcount ⟨hzero, rfl⟩
    obtain ⟨hkey, hle, hplain⟩ := hcfgParse_bulk hparse hnext hline
    have hload := Loads.insert hv hkey hins
    obtain ⟨hleft, ds, hloads, hle', hplain'⟩ :=
      ih hload.valid (fun heof => (hends heof).suffix hsuffix) h
    refine ⟨hleft.trans hsuffix, ⟨key, val⟩ :: ds, hload.trans hloads, ?_, ?_⟩
    · rw [List.map_cons, List.sum_cons]
      unfold KeyVal.cost at hle' ⊢
      dsimp only
      omega
    · rw [List.map_cons, List.sum_cons]
      intro hge d hd
      unfold KeyVal.cost at hle' hplain' hge
      dsimp only at hge
      obtain rfl | hd := List.mem_cons.mp hd
      · exact hplain (by omega)
      · exact hplain' (by omega) d hd
  | case8 cfg text htext hcount next hnext res hparse hne ih =>
    obtain ⟨hsuffix, -⟩ := hcfgNext_suffix hnext
    obtain ⟨hleft, ds, hloads, hle, hplain⟩ := ih hv (fun heof => (hends heof).suffix hsuffix) h
    have hshort := bulk_le_of_sublist hsuffix.sublist
    exact ⟨hleft.trans hsuffix, ds, hloads, by omega, fun hge => hplain (by omega)⟩

/-- The whole load, likewise. -/
lemma hcfgLoadLoop_pays {cfg cfg' : Hcfg} {text file : Bytes} (hv : cfg.Valid)
    (hends : EndsLine (text ++ file)) (h : hcfgLoadLoop cfg text file = some (0, cfg')) :
    ∃ ds, Loads cfg cfg' ds ∧ Pays ds (text ++ file) [] := by
  fun_induction hcfgLoadLoop cfg text file with
  | case1 => cases h
  | case2 => cases h
  | case3 cfg text file space hspace cfg₁ left hlines hshort =>
    -- the end of the file has been read
    have htake : file.take space = file := List.take_of_length_le hshort.le
    rw [htake] at hlines
    obtain ⟨-, ds, hloads, hpays⟩ := hcfgLoadLines_pays hv (fun _ => hends) hlines
    have hleft : left = [] := by
      by_contra hne
      rw [if_neg hne] at h
      cases h
    rw [hleft] at hpays h
    cases h
    exact ⟨ds, hloads, hpays⟩
  | case4 cfg text file space hspace cfg₁ left hlines hlong ih =>
    rw [decide_eq_false hlong] at hlines
    obtain ⟨hsuffix, ds, hloads, hpays⟩ := hcfgLoadLines_pays hv (fun heof => by cases heof) hlines
    have hsplit : text ++ file = (text ++ file.take space) ++ file.drop space := by
      rw [List.append_assoc, List.take_append_drop]
    have hends' : EndsLine (left ++ file.drop space) := by
      apply hends.suffix
      obtain ⟨pre, hpre⟩ := hsuffix
      rw [hsplit, ← hpre, List.append_assoc]
      exact List.suffix_append _ _
    obtain ⟨ds', hloads', hpays'⟩ := ih hloads.valid hends' h
    rw [hsplit]
    exact ⟨ds ++ ds', hloads.trans hloads', hpays.trans hpays'⟩
  | case5 => cases h

/-! ## Lines of plain values -/

lemma unquote_line {buf : Bytes} (h : ∀ c ∈ buf, c ≠ 10 ∧ c ≠ 35 ∧ c ≠ 92) (rest : Bytes) :
    unquote (buf ++ 10 :: rest) = some (buf, false) ∧ unquoteRest (buf ++ 10 :: rest) = 10 :: rest := by
  induction buf with
  | nil => exact ⟨unquote_newline rest, unquoteRest_of_stop (Or.inl rfl) rest⟩
  | cons c buf ih =>
    have hc := h c List.mem_cons_self
    obtain ⟨hvalue, hrest⟩ := ih fun d hd => h d (List.mem_cons_of_mem c hd)
    rw [List.cons_append, unquote_char hc, unquoteRest_char hc, hvalue]
    exact ⟨rfl, hrest⟩

/-- A plain value is read up to its newline. -/
lemma valueOf_line {val : Bytes} (h : Plain val) (rest : Bytes) :
    valueOf (val ++ 10 :: rest) = some (some val) ∧
      afterLine (unquoteRest ((val ++ 10 :: rest).dropWhile isBlank)) = rest := by
  obtain ⟨⟨c, more, rfl, hc⟩, hend, hchars⟩ := h
  have hblank : isBlank c = false := by
    unfold isBlank
    rw [hc, Bool.false_and]
  have hne := hchars c List.mem_cons_self
  have hdrop : (c :: more ++ 10 :: rest).dropWhile isBlank = c :: (more ++ 10 :: rest) :=
    List.dropWhile_cons_of_neg (by rw [hblank]; decide)
  have hquote : dropQuote (c :: more) false = c :: more := by
    unfold dropQuote
    exact if_neg fun hback => hne.2.2 (Option.some.inj hback.2)
  obtain ⟨hvalue, hrest⟩ := unquote_line hchars rest
  rw [List.cons_append] at hvalue hrest
  unfold valueOf
  rw [hdrop]
  dsimp only
  rw [if_neg hne.1, hvalue, hrest, Option.map_some, hquote, hend]
  exact ⟨rfl, afterLine_newline rest⟩

lemma lineCountLoop_value {val : Bytes} (h : ∀ c ∈ val, c ≠ 10 ∧ c ≠ 35 ∧ c ≠ 92) (rest : Bytes) :
    lineCountLoop [35, 10] false (val ++ 10 :: rest) ≠ 0 := by
  induction val with
  | nil =>
    show lineCountLoop _ _ (10 :: rest) ≠ 0
    rw [lineCountLoop, if_neg (by decide), if_neg (by decide), if_neg (by decide), if_neg (by decide),
      if_neg (by decide)]
    exact one_ne_zero
  | cons c val ih =>
    have hc := h c List.mem_cons_self
    have hnot : c ∉ ([35, 10] : Bytes) := by
      simp only [List.mem_cons, hc.1, hc.2.1, List.not_mem_nil, or_self, not_false_eq_true]
    show lineCountLoop _ _ (c :: (val ++ 10 :: rest)) ≠ 0
    rw [lineCountLoop, if_neg fun hnl => hc.1 hnl.2, if_pos hnot]
    exact ih fun d hd => h d (List.mem_cons_of_mem c hd)

/-- Behind a directive, whatever its value. -/
lemma hcfgNext_request {key : Bytes} (hkey : IsKey key) (buf : Bytes) :
    hcfgNext (key ++ 61 :: buf) = some (afterLine (unquoteRest (buf.dropWhile isBlank))) := by
  obtain ⟨hne, hchars⟩ := hkey
  obtain ⟨c, more, hcons⟩ := List.exists_cons_of_ne_nil hne
  rw [hcons] at hchars ⊢
  have hc := isKeyChar_facts (hchars c List.mem_cons_self)
  have hdrop : (c :: more ++ 61 :: buf).dropWhile isKeyChar = 61 :: buf := by
    rw [List.dropWhile_append_of_pos hchars, List.dropWhile_cons_of_neg (by decide)]
  have hsep : (61 :: buf).dropWhile isBlank = 61 :: buf := List.dropWhile_cons_of_neg (by decide)
  have hstart : (c :: more ++ 61 :: buf).dropWhile isBlank = c :: (more ++ 61 :: buf) :=
    List.dropWhile_cons_of_neg (by rw [hc.1]; decide)
  unfold hcfgNext
  rw [hstart]
  dsimp only
  rw [if_neg (not_or.mpr hc.2), hchars c List.mem_cons_self, if_neg (by decide), ← List.cons_append, hdrop,
    hsep]
  rfl

/-- The line of a plain value is one directive. -/
lemma hcfgParse_line {e : KeyVal} (hkey : IsKey e.key) (hplain : Plain e.val) (rest : Bytes) :
    hcfgParse (e.line ++ rest) = some (some (e.key.map toupper), some e.val) ∧
      hcfgNext (e.line ++ rest) = some rest ∧ lineCount (e.line ++ rest) ≠ 0 := by
  obtain ⟨hvalue, hnext⟩ := valueOf_line hplain rest
  have hline : e.line ++ rest = e.key ++ 61 :: (e.val ++ 10 :: rest) := by
    unfold KeyVal.line
    rw [List.append_assoc, List.cons_append, List.append_assoc]
    rfl
  rw [hline]
  refine ⟨?_, ?_, ?_⟩
  · have hparse := hcfgParse_request hkey (some (e.val ++ 10 :: rest))
    rw [Option.getD_some, hvalue] at hparse
    exact hparse
  · rw [hcfgNext_request hkey, hnext]
  · have hhead := lineCountLoop_head (isHead_of_isKeyChar hkey.2) true (e.val ++ 10 :: rest)
    unfold lineCount
    rw [hhead]
    exact lineCountLoop_value hplain.2.2 rest

/-- The file of some entries. -/
def linesOf (es : List KeyVal) : Bytes := (es.map KeyVal.line).flatten

@[simp] lemma linesOf_cons (e : KeyVal) (es : List KeyVal) : linesOf (e :: es) = e.line ++ linesOf es := rfl

/-- The whole lines in the buffer are loaded. -/
lemma hcfgLoadLines_lines {eof : Bool} {es : List KeyVal}
    (hes : ∀ e ∈ es, IsKey e.key ∧ Plain e.val) {part : Bytes} (hpart : 10 ∉ part)
    (heof : eof = true → part = []) {cfg : Hcfg} (hv : cfg.Valid)
    (hroom : cfg.count + es.length ≤ 2 ^ configMaxLogsize) :
    ∃ cfg', hcfgLoadLines eof cfg (linesOf es ++ part) = some (.more, cfg', part) ∧ cfg'.Valid ∧
      cfg'.count ≤ cfg.count + es.length ∧ ∀ key, hcfgGet cfg' key = es.foldl
        (fun cur e => if e.fold = foldCase key then some e.val else cur) (hcfgGet cfg key) := by
  induction es generalizing cfg with
  | nil =>
    refine ⟨cfg, ?_, hv, le_refl _, fun _ => rfl⟩
    show hcfgLoadLines eof cfg part = _
    rw [hcfgLoadLines]
    by_cases hnil : part = []
    · rw [if_pos hnil]
    · have hzero : lineCount part = 0 := by
        by_contra hcount
        exact hpart (lineCount_newline hcount)
      have hmore : eof = false := by
        rw [← Bool.not_eq_true]
        exact fun htrue => hnil (heof htrue)
      rw [if_neg hnil, if_pos ⟨hzero, hmore⟩]
  | cons e es ih =>
    obtain ⟨hkey, hplain⟩ := hes e List.mem_cons_self
    rw [List.length_cons] at hroom
    obtain ⟨hparse, hnext, hcount⟩ := hcfgParse_line hkey hplain (linesOf es ++ part)
    have hsafe : SafeInsert cfg (e.key.map toupper) := Or.inr (by omega)
    obtain ⟨cfg₁, hins, hv₁, hget₁⟩ := hashInsert_spec hv hsafe e.val
    have hcnt := (hashInsert_fields hins).2
    obtain ⟨cfg', hrest, hv', hcnt', hget'⟩ :=
      ih (fun e he => hes e (List.mem_cons_of_mem _ he)) hv₁ (by omega)
    refine ⟨cfg', ?_, hv', by rw [List.length_cons]; omega, ?_⟩
    · rw [linesOf_cons, List.append_assoc, hcfgLoadLines]
      have hne : e.line ++ (linesOf es ++ part) ≠ [] := by
        intro hnil
        rw [hnil] at hcount
        exact hcount rfl
      rw [if_neg hne, if_neg fun h => hcount h.1]
      split
      · next hnone =>
        rw [hnext] at hnone
        cases hnone
      · next next hsome =>
        rw [hnext] at hsome
        cases hsome
        rw [hparse]
        dsimp only
        rw [hins]
        dsimp only
        rw [if_neg (not_not_intro rfl)]
        exact hrest
    · intro key
      rw [hget', hget₁, List.foldl_cons, foldCase_toupper]
      unfold KeyVal.fold
      simp only [eq_comm]

/-- A front part of the file has some whole lines, and a part of one. -/
lemma linesOf_split {es : List KeyVal} (hes : ∀ e ∈ es, IsKey e.key ∧ Plain e.val) {text file : Bytes}
    (h : text ++ file = linesOf es) :
    ∃ es₁ es₂ part, es = es₁ ++ es₂ ∧ text = linesOf es₁ ++ part ∧ 10 ∉ part ∧
      part ++ file = linesOf es₂ := by
  induction es generalizing text with
  | nil =>
    obtain ⟨rfl, rfl⟩ := List.append_eq_nil_iff.mp h
    exact ⟨[], [], [], rfl, rfl, List.not_mem_nil, rfl⟩
  | cons e es ih =>
    by_cases hlen : e.line.length ≤ text.length
    · obtain ⟨more, rfl⟩ : e.line <+: text :=
        List.prefix_of_prefix_length_le ⟨linesOf es, h.symm⟩ (List.prefix_append _ _) hlen
      rw [linesOf_cons, List.append_assoc] at h
      obtain ⟨es₁, es₂, part, rfl, rfl, hpart, hrest⟩ :=
        ih (fun e he => hes e (List.mem_cons_of_mem _ he)) (List.append_cancel_left h)
      refine ⟨e :: es₁, es₂, part, rfl, ?_, hpart, hrest⟩
      rw [linesOf_cons, List.append_assoc]
    · refine ⟨[], e :: es, text, rfl, rfl, ?_, h⟩
      -- the newline of the line is not there
      have hprefix : text <+: e.line :=
        List.prefix_of_prefix_length_le (List.prefix_append _ _) ⟨linesOf es, h.symm⟩ (by omega)
      have hinit : text <+: e.key ++ 61 :: e.val := by
        apply List.prefix_of_prefix_length_le hprefix
        · refine ⟨[10], ?_⟩
          unfold KeyVal.line
          rw [List.append_assoc, List.cons_append]
        · unfold KeyVal.line at hlen
          simp only [List.length_append, List.length_cons, List.length_nil] at hlen ⊢
          omega
      intro hmem
      obtain ⟨hkey, hplain⟩ := hes e List.mem_cons_self
      obtain hmem | hmem := List.mem_append.mp (hinit.subset hmem)
      · exact (isKeyChar_facts (hkey.2 10 hmem)).2.1 rfl
      · obtain hmem | hmem := List.mem_cons.mp hmem
        · exact absurd hmem (by decide)
        · exact (hplain.2.2 10 hmem).1 rfl

/-- A part of a line leaves room in the buffer. -/
lemma length_part {es : List KeyVal} (hfits : ∀ e ∈ es, e.line.length ≤ hcfgBufsize - 1)
    {text file : Bytes} (h : text ++ file = linesOf es) (htext : 10 ∉ text) :
    text.length < hcfgBufsize - 1 := by
  cases es with
  | nil =>
    obtain ⟨rfl, -⟩ := List.append_eq_nil_iff.mp h
    decide
  | cons e es =>
    apply lt_of_lt_of_le _ (hfits e List.mem_cons_self)
    by_contra hlen
    have hprefix : e.line <+: text :=
      List.prefix_of_prefix_length_le ⟨linesOf es, h.symm⟩ (List.prefix_append _ _) (not_lt.mp hlen)
    apply htext
    apply hprefix.subset
    unfold KeyVal.line
    exact List.mem_append_right _
      (List.mem_cons_of_mem _ (List.mem_append_right _ (List.mem_singleton.mpr rfl)))

lemma hcfgLoadLoop_lines {cfg : Hcfg} {text file : Bytes} {es : List KeyVal}
    (hes : ∀ e ∈ es, IsKey e.key ∧ Plain e.val) (hfits : ∀ e ∈ es, e.line.length ≤ hcfgBufsize - 1)
    (h : text ++ file = linesOf es) (htext : 10 ∉ text) (hv : cfg.Valid)
    (hroom : cfg.count + es.length ≤ 2 ^ configMaxLogsize) :
    ∃ cfg', hcfgLoadLoop cfg text file = some (0, cfg') ∧ ∀ key, hcfgGet cfg' key = es.foldl
      (fun cur e => if e.fold = foldCase key then some e.val else cur) (hcfgGet cfg key) := by
  induction hn : file.length using Nat.strong_induction_on generalizing cfg text file es with
  | _ n ih =>
    have hshort := length_part hfits h htext
    have hbufsize : hcfgBufsize = 4096 := rfl
    rw [hcfgLoadLoop]
    generalize hspace : hcfgBufsize - (text.length + 1) = space
    rw [dif_neg (by omega)]
    have hfile : (text ++ file.take space) ++ file.drop space = linesOf es := by
      rw [List.append_assoc, List.take_append_drop, h]
    obtain ⟨es₁, es₂, part, rfl, hread, hpart, hrest⟩ := linesOf_split hes hfile
    have heof : decide (file.length < space) = true → part = [] := by
      intro hlt
      have hdrop : file.drop space = [] := List.drop_eq_nil_of_le (of_decide_eq_true hlt).le
      rw [hdrop, List.append_nil] at hrest
      cases es₂ with
      | nil => exact hrest
      | cons e es₂ =>
        apply absurd hpart
        rw [hrest, linesOf_cons]
        unfold KeyVal.line
        exact not_not_intro (List.mem_append_left _ (List.mem_append_right _ (List.mem_cons_of_mem _
          (List.mem_append_right _ (List.mem_singleton.mpr rfl)))))
    rw [List.length_append] at hroom
    obtain ⟨cfg₁, hlines, hv₁, hcnt₁, hget₁⟩ := hcfgLoadLines_lines
      (fun e he => hes e (List.mem_append_left _ he)) hpart heof hv (by omega)
    rw [hread, hlines]
    dsimp only
    by_cases hlast : file.length < space
    · -- the file ends here
      have hnil := heof (decide_eq_true hlast)
      have hdrop : file.drop space = [] := List.drop_eq_nil_of_le hlast.le
      rw [hnil, hdrop] at hrest
      have hes₂ : es₂ = [] := by
        cases es₂ with
        | nil => rfl
        | cons e es₂ =>
          have hlen := congrArg List.length hrest
          rw [linesOf_cons] at hlen
          unfold KeyVal.line at hlen
          simp only [List.length_append, List.length_cons, List.length_nil] at hlen
          omega
      rw [dif_pos hlast, if_pos hnil, hes₂, List.append_nil]
      exact ⟨cfg₁, rfl, hget₁⟩
    · rw [dif_neg hlast]
      obtain ⟨cfg', hloop, hget'⟩ := ih (file.drop space).length (by rw [List.length_drop]; omega)
        (fun e he => hes e (List.mem_append_right _ he))
        (fun e he => hfits e (List.mem_append_right _ he)) hrest hpart hv₁ (by omega) rfl
      refine ⟨cfg', hloop, ?_⟩
      intro key
      rw [hget', hget₁, List.foldl_append]

/-! ## Saving and loading -/

lemma linesOf_entries {cfg : Hcfg} (hv : cfg.Valid) : hcfgWrite cfg = linesOf cfg.entries := by
  unfold hcfgWrite
  rw [Nat.one_shiftLeft, List.take_of_length_le hv.length_eq.le]
  rfl

lemma endsLine_linesOf (es : List KeyVal) : EndsLine (linesOf es) := by
  intro t c h
  induction es using List.reverseRecOn with
  | nil => exact absurd h.symm (List.append_ne_nil_of_right_ne_nil t (List.cons_ne_nil c []))
  | append_singleton es e _ =>
    have hline : linesOf (es ++ [e]) = linesOf es ++ (e.key ++ 61 :: e.val) ++ [10] := by
      unfold linesOf
      rw [List.map_append, List.flatten_append, List.append_assoc, List.append_assoc]
      simp only [KeyVal.line, List.map_cons, List.map_nil, List.flatten_cons, List.flatten_nil,
        List.append_nil, List.cons_append]
    rw [hline] at h
    exact (List.cons.inj (List.append_inj_right' h rfl)).1.symm

/-- The file costs what its entries cost. -/
lemma bulk_linesOf {es : List KeyVal} (hkeys : ∀ e ∈ es, ∀ c ∈ e.key, isKeyChar c = true) :
    bulk (linesOf es) = (es.map KeyVal.cost).sum := by
  induction es with
  | nil => rfl
  | cons e es ih =>
    have hkey : bulk e.key = e.key.length := by
      unfold bulk
      rw [List.count_eq_zero.mpr, Nat.add_zero]
      intro hmem
      exact absurd (hkeys e List.mem_cons_self 92 hmem) (by decide)
    rw [linesOf_cons, bulk_append, ih fun e he => hkeys e (List.mem_cons_of_mem _ he), List.map_cons,
      List.sum_cons]
    unfold KeyVal.line KeyVal.cost
    rw [bulk_append, bulk_cons_of_ne (by decide), bulk_append, hkey, bulk_cons_of_ne (by decide), bulk_nil]
    omega

/-- A key, ignoring case, and its value. -/
def KeyVal.pair (entry : KeyVal) : Bytes × Bytes := (entry.fold, entry.val)

lemma cost_eq_pair (es : List KeyVal) : es.map KeyVal.cost =
    (es.map KeyVal.pair).map fun p => p.1.length + bulk p.2 + 2 := by
  rw [List.map_map]
  apply List.map_congr_left
  intro e _
  show e.key.length + bulk e.val + 2 = (foldCase e.key).length + bulk e.val + 2
  unfold foldCase
  rw [List.length_map]

/-- A saved configuration loads back exactly if its keys are not empty and its values are plain: not
empty, without white space at their ends, and without newlines, comment signs and backslashes. -/
theorem saved_loads_iff {cfg : Hcfg} (hcfg : InsertOnly cfg)
    (hkeys : ∀ e ∈ cfg.entries, ∀ c ∈ e.key, isKeyChar c = true)
    (hfits : ∀ e ∈ cfg.entries, e.line.length ≤ hcfgBufsize - 1) :
    (∃ cfg', hcfgLoad hcfgAlloc (hcfgWrite cfg) = some (0, cfg') ∧
      ∀ key, hcfgGet cfg' key = hcfgGet cfg key) ↔ ∀ e ∈ cfg.entries, e.key ≠ [] ∧ Plain e.val := by
  obtain ⟨hv, -⟩ := hcfg.valid
  rw [linesOf_entries hv]
  constructor
  · intro ⟨cfg', hload, hsame⟩
    obtain ⟨ds, hloads, hpays⟩ :=
      @hcfgLoadLoop_pays _ _ [] _ hcfgAlloc_valid (endsLine_linesOf cfg.entries) hload
    obtain ⟨hle, hplain⟩ : Pays ds (linesOf cfg.entries) [] := hpays
    rw [bulk_nil, Nat.add_zero, bulk_linesOf hkeys] at hle hplain
    -- every entry was loaded by a directive
    have hsubset : cfg.entries.map KeyVal.pair ⊆ ds.map KeyVal.pair := by
      intro p hp
      obtain ⟨e, he, rfl⟩ := List.mem_map.mp hp
      have hget : hcfgGet cfg e.key = some e.val :=
        hv.get_eq_some_iff.mpr ⟨e, (stored_iff_mem_entries hv.length_eq).mpr ⟨he, rfl⟩, rfl⟩
      obtain hnone | ⟨d, hd, hfold, hval⟩ := hloads.get e.key e.val ((hsame e.key).trans hget)
      · rw [hcfgGet_alloc] at hnone
        cases hnone
      · exact List.mem_map.mpr ⟨d, hd, Prod.ext hfold hval⟩
    have hnodup : (cfg.entries.map KeyVal.pair).Nodup := by
      apply List.Nodup.of_map Prod.fst
      rw [List.map_map]
      exact nodup_entries hv.length_eq hv.sound
    obtain ⟨ps, hperm, hsub⟩ := List.subperm_of_subset hnodup hsubset
    have hsum : (cfg.entries.map KeyVal.cost).sum ≤ (ds.map KeyVal.cost).sum := by
      rw [cost_eq_pair, cost_eq_pair, ← (hperm.map _).sum_eq]
      exact (hsub.map _).sum_le_sum fun _ _ => Nat.zero_le _
    intro e he
    obtain ⟨d, hd, hpair⟩ := List.mem_map.mp (hsubset (List.mem_map_of_mem he))
    obtain ⟨hfold, hval⟩ := Prod.mk.inj hpair
    refine ⟨?_, ?_⟩
    · intro hnil
      apply hloads.keys d hd
      have hlen := congrArg List.length hfold
      unfold KeyVal.fold foldCase at hlen
      rw [List.length_map, List.length_map, hnil] at hlen
      exact List.eq_nil_of_length_eq_zero hlen
    · rw [← hval]
      exact hplain hsum d hd
  · intro hes
    have hcount : cfg.entries.length ≤ 2 ^ configMaxLogsize := by
      rw [hv.length_entries, hv.count_eq]
      exact le_trans (LinearProbe.load_le _ _) (Nat.pow_le_pow_right (by omega) hv.logsize_le)
    have hzero : hcfgAlloc.count = 0 := rfl
    obtain ⟨cfg', hload, hget⟩ := @hcfgLoadLoop_lines hcfgAlloc [] (linesOf cfg.entries) cfg.entries
      (fun e he => ⟨⟨(hes e he).1, hkeys e he⟩, (hes e he).2⟩) hfits rfl List.not_mem_nil
      hcfgAlloc_valid (by omega)
    refine ⟨cfg', hload, ?_⟩
    intro key
    rw [hget, hcfgGet_alloc, hv.get_eq_foldl]

/-- The store with a title. -/
def titleCfg (val : Bytes) : Hcfg :=
  ((hcfgSet hcfgAlloc (cstr "TITLE") (some val)).map Prod.snd).getD hcfgAlloc

lemma titleCfg_set (val : Bytes) :
    hcfgSet hcfgAlloc (cstr "TITLE") (some val) = some (0, titleCfg val) := by
  obtain ⟨cfg', hins, -⟩ :=
    hashInsert_spec hcfgAlloc_valid (show SafeInsert hcfgAlloc (cstr "TITLE") from Or.inr (by decide)) val
  have hset : hcfgSet hcfgAlloc (cstr "TITLE") (some val) = some (0, cfg') := hins
  unfold titleCfg
  rw [hset]
  rfl

lemma titleCfg_insertOnly (val : Bytes) : InsertOnly (titleCfg val) :=
  .set .alloc (titleCfg_set val)

/-- Two words load back. -/
theorem two_words_load_back :
    ∃ cfg', hcfgLoad hcfgAlloc (hcfgWrite (titleCfg (cstr "two words"))) = some (0, cfg') ∧
      ∀ key, hcfgGet cfg' key = hcfgGet (titleCfg (cstr "two words")) key := by
  have hentries : (titleCfg (cstr "two words")).entries = [⟨cstr "TITLE", cstr "two words"⟩] := by
    decide +kernel
  apply (saved_loads_iff (titleCfg_insertOnly _) _ _).mpr
  · rw [hentries]
    intro e he
    rw [List.mem_singleton.mp he]
    have hplain : (cstr "two words").all (fun c => c ≠ 10 ∧ c ≠ 35 ∧ c ≠ 92) = true := by decide
    exact ⟨by decide, ⟨116, cstr "wo words", rfl, by decide⟩, by decide,
      fun c hc => of_decide_eq_true (List.all_eq_true.mp hplain c hc)⟩
  · rw [hentries]
    intro e he
    rw [List.mem_singleton.mp he]
    exact List.all_eq_true.mp (by decide)
  · rw [hentries]
    decide

/-- A title with a comment sign loads back without what follows the sign. -/
theorem hash_sign_not_saved : ¬ ∀ cfg : Hcfg, InsertOnly cfg →
    (∀ e ∈ cfg.entries, (∀ c ∈ e.key, isKeyChar c = true) ∧ 0 ∉ e.val) →
    (∀ e ∈ cfg.entries, e.line.length ≤ hcfgBufsize - 1) →
    ∃ cfg', hcfgLoad hcfgAlloc (hcfgWrite cfg) = some (0, cfg') ∧
      ∀ key, hcfgGet cfg' key = hcfgGet cfg key := by
  intro hall
  have hentries : (titleCfg (cstr "run#2")).entries = [⟨cstr "TITLE", cstr "run#2"⟩] := by decide +kernel
  have hcut : (hcfgLoad hcfgAlloc (hcfgWrite (titleCfg (cstr "run#2")))).map
      (fun res => hcfgGet res.2 (cstr "TITLE")) = some (some (cstr "run")) := by decide +kernel
  have hkept : hcfgGet (titleCfg (cstr "run#2")) (cstr "TITLE") = some (cstr "run#2") := by decide +kernel
  obtain ⟨cfg', hload, hsame⟩ := hall _ (titleCfg_insertOnly (cstr "run#2")) (by
    rw [hentries]
    intro e he
    rw [List.mem_singleton.mp he]
    exact ⟨List.all_eq_true.mp (by decide), by decide⟩) (by rw [hentries]; decide)
  rw [hload, Option.map_some, hsame, hkept] at hcut
  exact absurd hcut (by decide)

end ActiveHarmony

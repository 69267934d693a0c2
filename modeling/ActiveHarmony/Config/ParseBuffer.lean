import ActiveHarmony.Config.SaveFile
import ActiveHarmony.Lib.BoundedBuffer

/-!
# `hcfg_parse` on its buffer

The parser works in place: it writes the key in upper case, ends key and value with NULs, and moves the
characters of the value over the backslashes. Here it runs on the cells of the buffer, with every access
checked, and `hcfgParse` is shown to be what it leaves at the pointers that it returns.
`hcfg_parse_in_bounds_iff` says for which strings all accesses are inside of the buffer.
-/

namespace ActiveHarmony

open BoundedBuffer
open TextScan (isSpace)

/-! ## The parser -/

/-- What `hcfg_parse` leaves: the buffer, `*key`, `*val`, and the pointer it returns. -/
structure ParseRun where
  mem : Bytes
  key : Option ℕ := none
  val : Option ℕ := none
  ret : Option ℕ := none
deriving DecidableEq, Repr

/-- The loop that unquotes the value: the buffer, `ptr` and `buf` behind it, and whether a comment
ends it. -/
def unquoteLoop (mem : Bytes) (ptr buf : ℕ) : Option (Bytes × ℕ × ℕ × Bool) :=
  match _hread : read mem buf with
  | none => none
  | some c =>
    if c = 0 ∨ c = 10 then some (mem, ptr, buf, false)
    else if c = 35 then some (mem, ptr, buf, true)
    else
      -- if (*buf == '\\') ++buf;
      let src := if c = 92 then buf + 1 else buf
      match read mem src with
      | none => none
      | some d =>
        match _hwrite : write mem ptr d with
        | none => none
        | some mem => unquoteLoop mem (ptr + 1) (src + 1)
termination_by mem.length - buf
decreasing_by
  have hlt := lt_of_read _hread
  have hlen := length_write _hwrite
  rw [hlen]
  split <;> omega

/-- `buf += strcspn(buf, "\n"); if (*buf == '\n') ++buf;` -/
def endline (mem : Bytes) (buf : ℕ) : Option ℕ :=
  (skipWhile (fun c => c != 10 && c != 0) mem buf).bind fun buf =>
    (read mem buf).map fun c => if c = 10 then buf + 1 else buf

/-- `hcfg_parse` from the comment "Unquote the value string" on. -/
def parseValue (mem : Bytes) (key val : ℕ) : Option ParseRun := do
  let (mem, ptr, buf, comment) ← unquoteLoop mem val val
  let c ← read mem val
  let next ← endline mem buf
  -- Kill trailing value whitespace.
  let mem ← fillBack 0 isSpace mem ptr
  -- A comment skips `if (**val == '\\') ++(*val);`.
  return { mem, key := some key, val := some (if !comment ∧ c = 92 then val + 1 else val), ret := some next }

/-- `hcfg_parse` from the comment "Check that key string was valid" on. -/
def parseSeparator (mem : Bytes) (key ptr : ℕ) : Option ParseRun := do
  let sep ← skipWhile isBlank mem ptr
  let c ← read mem sep
  if c ≠ 61 then
    return { mem, key := some key }
  let buf ← skipWhile isBlank mem (sep + 1)
  -- Kill whitespace and separator between key and value.
  let mem ← fill 0 mem ptr (buf - ptr)
  let c ← read mem buf
  -- Check for empty value, used for deleting a key/value pair.
  if c = 10 ∨ c = 0 then
    let next ← endline mem buf
    let mem ← fillBack 0 isSpace mem buf
    return { mem, key := some key, ret := some next }
  parseValue mem key buf

/-- `hcfg_parse` on the cells of its buffer. -/
def hcfgParseBuf (mem : Bytes) : Option ParseRun := do
  -- Skip leading key whitespace.
  let buf ← skipWhile isBlank mem 0
  let c ← read mem buf
  -- Skip empty lines and comments.
  if c = 10 ∨ c = 35 then
    let next ← endline mem buf
    return { mem, ret := some next }
  if !isKeyChar c then
    return { mem }
  -- Force key strings to be uppercase.
  let (mem, ptr) ← mapWhile isKeyChar toupper mem buf
  parseSeparator mem buf ptr

/-- The string at a pointer. -/
def cString (mem : Bytes) (i : ℕ) : Bytes := (mem.drop i).takeWhile (· != 0)

/-- The parser leaves the strings `out` at the pointers of the key and of the value, and returns a pointer
to the text `next`. -/
structure ParseRun.Leaves (r : ParseRun) (out : Option Bytes × Option Bytes) (next : Option Bytes) :
    Prop where
  key : r.key.map (cString r.mem) = out.1
  val : r.val.map (cString r.mem) = out.2
  ret : r.ret.map r.mem.drop = next.map (· ++ [0])

/-! ## The loops of the parser -/

lemma cString_append {s : Bytes} (hs : 0 ∉ s) (pre post : Bytes) :
    cString (pre ++ (s ++ 0 :: post)) pre.length = s := by
  unfold cString
  rw [List.drop_left, List.takeWhile_append_of_pos]
  · show s ++ [] = s
    exact List.append_nil s
  · intro c hc
    apply bne_iff_ne.mpr
    rintro rfl
    exact hs hc

lemma endline_terminated {l : Bytes} (hl : 0 ∉ l) (pre : Bytes) :
    ∃ i, endline (pre ++ (l ++ [0])) pre.length = some i ∧ pre.length ≤ i ∧
      (pre ++ (l ++ [0])).drop i = afterLine l ++ [0] := by
  have hsame : l.takeWhile (fun c => c != 10 && c != 0) = l.takeWhile (· ≠ 10) := by
    clear pre
    induction l with
    | nil => rfl
    | cons c l ih =>
      have hc : c ≠ 0 := fun h => hl (h ▸ List.mem_cons_self)
      have hrest := ih fun h => hl (List.mem_cons_of_mem c h)
      by_cases hten : c = 10
      · rw [hten]
        rfl
      · rw [List.takeWhile_cons_of_pos (by simp [hten, hc]), List.takeWhile_cons_of_pos (by simp [hten]),
          hrest]
  have hskip := skipWhile_terminated (p := fun c : UInt8 => c != 10 && c != 0) (z := 0) rfl pre l []
  have hsplit := List.takeWhile_append_dropWhile (p := fun c : UInt8 => decide (c ≠ 10)) (l := l)
  rw [hsame] at hskip
  unfold endline
  rw [hskip, Option.bind_some]
  cases hdrop : l.dropWhile (· ≠ 10) with
  | nil =>
    rw [hdrop, List.append_nil] at hsplit
    rw [hsplit, ← List.length_append, ← List.append_assoc, read_append]
    refine ⟨(pre ++ l).length, rfl, by rw [List.length_append]; omega, ?_⟩
    rw [List.drop_left]
    unfold afterLine
    rw [hdrop]
    rfl
  | cons c rest =>
    have hc : c = 10 := by
      have hhead := List.head?_dropWhile_not (fun c : UInt8 => decide (c ≠ 10)) l
      rw [hdrop] at hhead
      simpa using hhead
    rw [hdrop, hc] at hsplit
    have hcells : pre ++ (l ++ [0]) = (pre ++ l.takeWhile (· ≠ 10)) ++ 10 :: (rest ++ [0]) := by
      conv_lhs => rw [← hsplit]
      simp
    rw [hcells, ← List.length_append, read_append]
    refine ⟨(pre ++ l.takeWhile (· ≠ 10)).length + 1, rfl, by rw [List.length_append]; omega, ?_⟩
    rw [List.append_cons, List.drop_left' (by simp only [List.length_append, List.length_singleton])]
    unfold afterLine
    rw [hdrop]
    rfl

/-- Writing over the cell in front of a gap moves the gap. -/
lemma write_gap (head gap rest : Bytes) {w : Bytes} (hw : w ≠ []) (d : UInt8) :
    write (head ++ (gap ++ (w ++ rest))) head.length d =
      some ((head ++ [d]) ++ ((gap ++ w).tail ++ rest)) := by
  obtain ⟨x, more, hmore⟩ := List.exists_cons_of_ne_nil (List.append_ne_nil_of_right_ne_nil gap hw)
  rw [← List.append_assoc gap, hmore, List.cons_append, write_append, List.tail_cons, List.append_assoc]
  rfl

lemma unquoteLoop_read {mem : Bytes} {buf : ℕ} {c : UInt8} (hread : read mem buf = some c) (ptr : ℕ) :
    unquoteLoop mem ptr buf =
      if c = 0 ∨ c = 10 then some (mem, ptr, buf, false)
      else if c = 35 then some (mem, ptr, buf, true)
      else (read mem (if c = 92 then buf + 1 else buf)).bind fun d =>
        (write mem ptr d).bind fun mem =>
          unquoteLoop mem (ptr + 1) ((if c = 92 then buf + 1 else buf) + 1) := by
  rw [unquoteLoop]
  split
  · next hnone =>
    rw [hread] at hnone
    cases hnone
  · next c' hsome =>
    rw [hread] at hsome
    cases hsome
    congr 2
    dsimp only
    cases read mem (if c = 92 then buf + 1 else buf) with
    | none => rfl
    | some d =>
      rw [Option.bind_some]
      dsimp only
      split
      · next hwrite =>
        rw [hwrite]
        rfl
      · next mem' hwrite =>
        rw [hwrite]
        rfl

/-- A step of the loop takes `w` off the text and moves its last character `d`. -/
lemma unquoteLoop_step {c d : UInt8} {w : Bytes} (hw : w = [d] ∧ c = d ∧ d ≠ 92 ∨ w = [92, d] ∧ c = 92)
    (hc : c ≠ 0 ∧ c ≠ 10 ∧ c ≠ 35) (head gap rest : Bytes) :
    unquoteLoop (head ++ (gap ++ (w ++ rest))) head.length (head ++ gap).length =
      unquoteLoop ((head ++ [d]) ++ ((gap ++ w).tail ++ rest)) (head ++ [d]).length
        ((head ++ [d]) ++ (gap ++ w).tail).length := by
  have hne : w ≠ [] := by
    obtain ⟨rfl, -⟩ | ⟨rfl, -⟩ := hw <;> exact List.cons_ne_nil _ _
  have hend : ((head ++ [d]) ++ (gap ++ w).tail).length = (head ++ gap).length + w.length := by
    have hpos := List.length_pos_iff.mpr hne
    simp only [List.length_append, List.length_tail, List.length_singleton]
    omega
  have hptr : (head ++ [d]).length = head.length + 1 := by
    rw [List.length_append, List.length_singleton]
  have hwrite := write_gap head gap rest hne d
  have hcells : head ++ (gap ++ (w ++ rest)) = (head ++ gap) ++ (w ++ rest) := by
    rw [List.append_assoc]
  obtain ⟨rfl, rfl, hback⟩ | ⟨rfl, rfl⟩ := hw
  · have hread := read_append (head ++ gap) rest c
    have hfirst : (head ++ gap) ++ ([c] ++ rest) = (head ++ gap) ++ c :: rest := rfl
    rw [← hfirst, ← hcells] at hread
    rw [unquoteLoop_read hread, if_neg (by simp [hc.1, hc.2.1]), if_neg hc.2.2, if_neg hback, hread,
      Option.bind_some, hwrite, Option.bind_some, hend, hptr]
    rfl
  · have hread := read_append (head ++ gap) (d :: rest) 92
    have hsrc := read_append ((head ++ gap) ++ [92]) rest d
    have hfirst : (head ++ gap) ++ ([92, d] ++ rest) = (head ++ gap) ++ 92 :: d :: rest := rfl
    have hsecond : (head ++ gap) ++ ([92, d] ++ rest) = ((head ++ gap) ++ [92]) ++ d :: rest := by simp
    rw [← hfirst, ← hcells] at hread
    rw [← hsecond, ← hcells, List.length_append, List.length_singleton] at hsrc
    rw [unquoteLoop_read hread, if_neg (by decide), if_neg (by decide), if_pos rfl, hsrc,
      Option.bind_some, hwrite, Option.bind_some, hend, hptr]
    rfl

/-- The loop has moved `out` to the front of the value, with a gap of used cells behind it. -/
lemma unquoteLoop_eq {l : Bytes} (hl : 0 ∉ l) (head gap : Bytes) :
    (unquote l = none →
      unquoteLoop (head ++ (gap ++ (l ++ [0]))) head.length (head ++ gap).length = none) ∧
    ∀ out comment, unquote l = some (out, comment) →
      ∃ gap', unquoteLoop (head ++ (gap ++ (l ++ [0]))) head.length (head ++ gap).length =
        some (head ++ (out ++ (gap' ++ (unquoteRest l ++ [0]))), (head ++ out).length,
          (head ++ (out ++ gap')).length, comment) := by
  have hat : ∀ (head gap rest : Bytes) (c : UInt8),
      read (head ++ (gap ++ c :: rest)) (head ++ gap).length = some c := by
    intro head gap rest c
    rw [← List.append_assoc]
    exact read_append (head ++ gap) rest c
  induction l using unquote.induct generalizing head gap with
  | case1 =>
    refine ⟨fun h => absurd h (by simp [unquote]), ?_⟩
    intro out comment h
    cases h
    refine ⟨gap, ?_⟩
    rw [List.nil_append, unquoteLoop_read (hat head gap [] 0), if_pos (Or.inl rfl)]
    simp [unquoteRest]
  | case2 buf =>
    rw [unquote_newline, unquoteRest_of_stop (Or.inl rfl)]
    refine ⟨fun h => absurd h (by simp), ?_⟩
    intro out comment h
    cases h
    refine ⟨gap, ?_⟩
    rw [List.cons_append, unquoteLoop_read (hat head gap _ 10), if_pos (Or.inr rfl)]
    simp
  | case3 buf =>
    rw [unquote_hash, unquoteRest_of_stop (Or.inr rfl)]
    refine ⟨fun h => absurd h (by simp), ?_⟩
    intro out comment h
    cases h
    refine ⟨gap, ?_⟩
    rw [List.cons_append, unquoteLoop_read (hat head gap _ 35), if_neg (by decide), if_pos rfl]
    simp
  | case4 =>
    -- the backslash makes the loop move the terminator, and read behind it
    refine ⟨fun _ => ?_, fun out comment h => absurd h (by simp [unquote])⟩
    have hstep := unquoteLoop_step (w := [92, 0]) (Or.inr ⟨rfl, rfl⟩) (by decide) head gap []
    rw [List.append_nil, List.append_nil] at hstep
    show unquoteLoop (head ++ (gap ++ [92, 0])) _ _ = none
    rw [hstep, unquoteLoop]
    split
    · rfl
    · next c hread =>
      rw [read_end] at hread
      cases hread
  | case5 d buf _ _ ih =>
    have hnul : 0 ∉ buf := fun h => hl (List.mem_cons_of_mem 92 (List.mem_cons_of_mem d h))
    have hstep := unquoteLoop_step (w := [92, d]) (Or.inr ⟨rfl, rfl⟩) (by decide) head gap (buf ++ [0])
    obtain ⟨hnone, hsome⟩ := ih hnul (head ++ [d]) (gap ++ [92, d]).tail
    have hnext : unquoteRest (92 :: d :: buf) = unquoteRest buf := by
      rw [unquoteRest, if_neg (by decide), if_pos rfl]
    show (_ → unquoteLoop (head ++ (gap ++ ([92, d] ++ (buf ++ [0])))) _ _ = none) ∧ ∀ out comment, _ →
      ∃ gap', unquoteLoop (head ++ (gap ++ ([92, d] ++ (buf ++ [0])))) _ _ = _
    rw [hstep, unquote_backslash, hnext]
    refine ⟨fun h => hnone (Option.map_eq_none_iff.mp h), ?_⟩
    intro out comment h
    obtain ⟨⟨out', comment'⟩, hrest, heq⟩ := Option.map_eq_some_iff.mp h
    cases heq
    obtain ⟨gap', hloop⟩ := hsome out' comment' hrest
    refine ⟨gap', ?_⟩
    rw [hloop]
    simp
  | case6 c buf hnl hhash hback ih =>
    have hnul : 0 ∉ buf := fun h => hl (List.mem_cons_of_mem c h)
    have hc : c ≠ 0 := fun h => hl (h ▸ List.mem_cons_self)
    have hstep := unquoteLoop_step (w := [c]) (Or.inl ⟨rfl, rfl, hback⟩) ⟨hc, hnl, hhash⟩ head gap
      (buf ++ [0])
    obtain ⟨hnone, hsome⟩ := ih hnul (head ++ [c]) (gap ++ [c]).tail
    show (_ → unquoteLoop (head ++ (gap ++ ([c] ++ (buf ++ [0])))) _ _ = none) ∧ ∀ out comment, _ →
      ∃ gap', unquoteLoop (head ++ (gap ++ ([c] ++ (buf ++ [0])))) _ _ = _
    rw [hstep, unquote_char ⟨hnl, hhash, hback⟩, unquoteRest_char ⟨hnl, hhash, hback⟩]
    refine ⟨fun h => hnone (Option.map_eq_none_iff.mp h), ?_⟩
    intro out comment h
    obtain ⟨⟨out', comment'⟩, hrest, heq⟩ := Option.map_eq_some_iff.mp h
    cases heq
    obtain ⟨gap', hloop⟩ := hsome out' comment' hrest
    refine ⟨gap', ?_⟩
    rw [hloop]
    simp

lemma unquote_nil {d : UInt8} {l : Bytes} {comment : Bool} (hd : d ≠ 10)
    (h : unquote (d :: l) = some ([], comment)) : comment = true := by
  by_cases hhash : d = 35
  · rw [hhash, unquote_hash] at h
    cases h
    rfl
  · by_cases hback : d = 92
    · rw [hback] at h
      cases l with
      | nil => cases h
      | cons c l =>
        rw [unquote_backslash] at h
        obtain ⟨res, -, heq⟩ := Option.map_eq_some_iff.mp h
        cases heq
    · rw [unquote_char ⟨hd, hhash, hback⟩] at h
      obtain ⟨res, -, heq⟩ := Option.map_eq_some_iff.mp h
      cases heq

lemma unquote_subset {l out : Bytes} {comment : Bool} (h : unquote l = some (out, comment)) :
    out ⊆ l := by
  induction l using unquote.induct generalizing out comment with
  | case1 =>
    cases h
    exact List.Subset.refl _
  | case2 buf =>
    rw [unquote_newline] at h
    cases h
    exact List.nil_subset _
  | case3 buf =>
    rw [unquote_hash] at h
    cases h
    exact List.nil_subset _
  | case4 => cases h
  | case5 d buf _ _ ih =>
    rw [unquote_backslash] at h
    obtain ⟨⟨out', comment'⟩, hrest, heq⟩ := Option.map_eq_some_iff.mp h
    cases heq
    exact List.subset_cons_of_subset 92 (List.cons_subset_cons d (ih hrest))
  | case6 c buf hnl hhash hback ih =>
    rw [unquote_char ⟨hnl, hhash, hback⟩] at h
    obtain ⟨⟨out', comment'⟩, hrest, heq⟩ := Option.map_eq_some_iff.mp h
    cases heq
    exact List.cons_subset_cons c (ih hrest)

lemma rdropWhile_cons {c : UInt8} (hc : isSpace c = false) (l : Bytes) :
    (c :: l).rdropWhile isSpace = c :: l.rdropWhile isSpace := by
  induction l using List.reverseRecOn with
  | nil => exact List.rdropWhile_concat_neg isSpace [] c (by rw [hc]; decide)
  | append_singleton l d ih =>
    rw [← List.cons_append]
    by_cases hd : isSpace d = true
    · rw [List.rdropWhile_concat_pos _ _ _ hd, List.rdropWhile_concat_pos _ _ _ hd, ih]
    · rw [List.rdropWhile_concat_neg _ _ _ hd, List.rdropWhile_concat_neg _ _ _ hd]
      rfl

/-- The cells behind the end of the value are those of the text, also after the end is written. -/
lemma drop_behind {b b' more : Bytes} {x y : UInt8} {i : ℕ} (hlen : b'.length = b.length)
    (hi : b.length ≤ i) (hx : i = b.length → x = y) :
    (b' ++ y :: more).drop i = (b ++ x :: more).drop i := by
  by_cases heq : i = b.length
  · rw [← hx heq, heq, ← hlen, List.drop_left, hlen, List.drop_left]
  · obtain ⟨k, rfl⟩ : ∃ k, i = b.length + 1 + k := ⟨i - (b.length + 1), by omega⟩
    have hmore : ∀ (a : Bytes) (z : UInt8), a.length = b.length →
        (a ++ z :: more).drop (b.length + 1 + k) = more.drop k := by
      intro a z ha
      have hpos : b.length + 1 + k = (a ++ [z]).length + k := by
        rw [List.length_append, List.length_singleton, ha]
      rw [List.append_cons, hpos, List.drop_length_add_append]
    rw [hmore b' y hlen, hmore b x rfl]

lemma replicate_append_cons (n : ℕ) (c : UInt8) (l : Bytes) :
    List.replicate n c ++ c :: l = c :: (List.replicate n c ++ l) := by
  rw [List.append_cons, ← List.replicate_succ', List.replicate_succ]
  rfl

/-- The value behind a separator that ends with a NUL. -/
lemma parseValue_eq {d : UInt8} {l : Bytes} (hd : d ≠ 10) (hl : 0 ∉ d :: l) (pre : Bytes) (key : ℕ) :
    (unquote (d :: l) = none →
      parseValue (pre ++ 0 :: (d :: l ++ [0])) key (pre.length + 1) = none) ∧
    ∀ out comment, unquote (d :: l) = some (out, comment) →
      ∃ cells val next,
        parseValue (pre ++ 0 :: (d :: l ++ [0])) key (pre.length + 1) =
          some { mem := pre ++ 0 :: cells, key := some key, val := some val, ret := some next } ∧
        cString (pre ++ 0 :: cells) val = (dropQuote out comment).rdropWhile isSpace ∧
        (pre ++ 0 :: cells).drop next = afterLine (unquoteRest (d :: l)) ++ [0] := by
  obtain ⟨hnone, hsome⟩ := unquoteLoop_eq hl (pre ++ [0]) []
  have hstart : (pre ++ [0] ++ []).length = pre.length + 1 := by simp
  have hcells : pre ++ [0] ++ ([] ++ (d :: l ++ [0])) = pre ++ 0 :: (d :: l ++ [0]) := by simp
  rw [hstart, hcells, List.length_append, List.length_singleton] at hnone hsome
  constructor
  · intro h
    unfold parseValue
    rw [hnone h]
    rfl
  · intro out comment h
    obtain ⟨gap, hloop⟩ := hsome out comment h
    have hrest : 0 ∉ unquoteRest (d :: l) := fun hmem => hl ((unquoteRest_suffix _).subset hmem)
    have hout : 0 ∉ out := fun hmem => hl (unquote_subset h hmem)
    obtain ⟨x, more, hmore⟩ : ∃ x more, gap ++ (unquoteRest (d :: l) ++ [0]) = x :: more :=
      List.exists_cons_of_ne_nil (by simp)
    obtain ⟨next, hnext, hle, hdrop⟩ := endline_terminated hrest (pre ++ 0 :: (out ++ gap))
    obtain ⟨n, hcount, hback⟩ := fillBack_append (p := isSpace) (y := 0) rfl 0 x pre out more
    have hmem : pre ++ [0] ++ (out ++ (gap ++ (unquoteRest (d :: l) ++ [0])))
        = pre ++ 0 :: (out ++ x :: more) := by
      rw [hmore]
      simp
    have hmem' : pre ++ 0 :: (out ++ gap) ++ (unquoteRest (d :: l) ++ [0])
        = pre ++ 0 :: (out ++ x :: more) := by
      rw [← hmore]
      simp
    have hptr : (pre ++ [0] ++ out).length = pre.length + 1 + out.length := by simp; omega
    have hbuf : (pre ++ [0] ++ (out ++ gap)).length = (pre ++ 0 :: (out ++ gap)).length := by simp
    rw [hmem, hptr, hbuf] at hloop
    rw [hmem'] at hnext hdrop
    obtain ⟨c, hread, hquote⟩ : ∃ c, read (pre ++ 0 :: (out ++ x :: more)) (pre.length + 1) = some c ∧
        (comment = false → (c = 92 ↔ out.head? = some 92)) := by
      cases out with
      | nil =>
        have hread := read_append (pre ++ [0]) more x
        rw [List.append_assoc, List.length_append, List.length_singleton] at hread
        refine ⟨x, hread, fun hcomment => ?_⟩
        rw [unquote_nil hd h] at hcomment
        cases hcomment
      | cons o out =>
        have hread := read_append (pre ++ [0]) (out ++ x :: more) o
        rw [List.append_assoc, List.length_append, List.length_singleton] at hread
        exact ⟨o, hread, fun _ => by simp⟩
    refine ⟨out.rdropWhile isSpace ++ (List.replicate n 0 ++ 0 :: more),
      if !comment ∧ c = 92 then pre.length + 1 + 1 else pre.length + 1, next, ?_, ?_, ?_⟩
    · unfold parseValue
      rw [hloop]
      show (read _ _).bind _ = _
      rw [hread]
      show (endline _ _).bind _ = _
      rw [hnext]
      show (fillBack _ _ _ _).bind _ = _
      rw [hback]
      rfl
    · have htext : ∀ (b v : Bytes), 0 ∉ v →
          cString (b ++ (v ++ (List.replicate n 0 ++ 0 :: more))) b.length = v := by
        intro b v hv
        rw [replicate_append_cons]
        exact cString_append hv b _
      by_cases hback : comment = false ∧ c = 92
      · obtain ⟨rfl, rfl⟩ := hback
        obtain ⟨out', rfl⟩ : ∃ out', out = 92 :: out' := by
          have hhead := (hquote rfl).mp rfl
          cases out with
          | nil => cases hhead
          | cons o out' =>
            cases hhead
            exact ⟨out', rfl⟩
        have hpos : (pre ++ [0, 92]).length = pre.length + 1 + 1 := by simp
        have hval := htext (pre ++ [0, 92]) (out'.rdropWhile isSpace) fun hmem =>
          hout (List.mem_cons_of_mem 92 ((List.rdropWhile_prefix isSpace _).subset hmem))
        have hdrop : dropQuote (92 :: out') false = out' := rfl
        rw [hpos, List.append_assoc] at hval
        rw [if_pos ⟨rfl, rfl⟩, hdrop, rdropWhile_cons (by decide)]
        exact hval
      · have hval := htext (pre ++ [0]) (out.rdropWhile isSpace) fun hmem =>
          hout ((List.rdropWhile_prefix isSpace _).subset hmem)
        have hpos : (pre ++ [0]).length = pre.length + 1 := by simp
        have hdrop : dropQuote out comment = out := by
          unfold dropQuote
          apply if_neg
          rintro ⟨hcomment, hhead⟩
          have hfalse : comment = false := by simpa using hcomment
          exact hback ⟨hfalse, (hquote hfalse).mpr hhead⟩
        rw [hpos, List.append_assoc] at hval
        rw [if_neg (by simpa using hback), hdrop]
        exact hval
    · have hlen : (pre ++ 0 :: (out.rdropWhile isSpace ++ List.replicate n 0)).length
          = (pre ++ 0 :: out).length := by
        simp only [List.length_append, List.length_cons, List.length_replicate]
        omega
      have hends : (pre ++ 0 :: out).length ≤ next := by
        simp only [List.length_append, List.length_cons] at hle ⊢
        omega
      have hcell : next = (pre ++ 0 :: out).length → x = 0 := by
        -- then nothing is behind the value
        intro heq
        have hgap : gap = [] := by
          rw [← List.length_eq_zero_iff]
          simp only [List.length_append, List.length_cons] at hle heq
          omega
        have hsplit : pre ++ 0 :: (out ++ x :: more) = (pre ++ 0 :: out) ++ x :: more := by simp
        rw [heq, hsplit, List.drop_left] at hdrop
        rw [hgap, List.nil_append, hdrop] at hmore
        have hend : unquoteRest (d :: l) = [] := by
          by_contra hne
          have hshort := afterLine_length hne
          have hsame := congrArg List.length hmore
          simp only [List.length_append, List.length_singleton] at hsame
          omega
        rw [hend] at hdrop
        exact (List.cons.inj hdrop).1
      have hbehind := @drop_behind _ _ more _ _ _ hlen hends hcell
      have hcells : pre ++ 0 :: (out.rdropWhile isSpace ++ (List.replicate n 0 ++ 0 :: more))
          = pre ++ 0 :: (out.rdropWhile isSpace ++ List.replicate n 0) ++ 0 :: more := by simp
      have hcells' : pre ++ 0 :: (out ++ x :: more) = pre ++ 0 :: out ++ x :: more := by simp
      rw [hcells, hbehind, ← hcells', hdrop]

/-- The run of the parser has no result where `parse` has none, and otherwise leaves it. -/
def Refines (run : Option ParseRun) (parse : Option (Option Bytes × Option Bytes)) (next : Option Bytes) :
    Prop :=
  (parse = none → run = none) ∧ ∀ out, parse = some out → ∃ r, run = some r ∧ r.Leaves out next

lemma Refines.intro {r : ParseRun} {out : Option Bytes × Option Bytes} {next : Option Bytes}
    (h : r.Leaves out next) : Refines (some r) (some out) next := by
  refine ⟨fun hnone => absurd hnone (by simp), ?_⟩
  intro out' hout
  cases hout
  exact ⟨r, rfl, h⟩

lemma toupper_ne {c : UInt8} (hc : c ≠ 0) : toupper c ≠ 0 := by
  unfold toupper
  by_cases hlower : (97 ≤ c && c ≤ 122) = true
  · rw [if_pos hlower]
    intro hzero
    have hnat := congrArg UInt8.toNat hzero
    simp only [Bool.and_eq_true, decide_eq_true_eq, UInt8.le_iff_toNat_le, UInt8.reduceToNat] at hlower
    rw [UInt8.toNat_sub] at hnat
    simp only [UInt8.reduceToNat] at hnat
    omega
  · rw [if_neg hlower]
    exact hc

lemma map_toupper_ne {l : Bytes} (hl : 0 ∉ l) : 0 ∉ l.map toupper := by
  intro hmem
  obtain ⟨c, hc, heq⟩ := List.mem_map.mp hmem
  exact toupper_ne (fun hzero => hl (hzero ▸ hc)) heq

lemma unquote_valueOf {d : UInt8} {buf : Bytes} (hd : d ≠ 10) (hblank : isBlank d = false) :
    valueOf (d :: buf) =
      (unquote (d :: buf)).map fun res => some ((dropQuote res.1 res.2).rdropWhile isSpace) := by
  unfold valueOf
  rw [List.dropWhile_cons_of_neg (by rw [hblank]; decide)]
  exact if_neg hd

/-- A separator with an empty value: the parser only writes NULs. -/
lemma parse_empty_value {zeros v : Bytes} (hv : 0 ∉ v) {c : UInt8} {rest : Bytes}
    (hcons : v ++ [0] = c :: rest) (hsame : afterLine v = afterLine (unquoteRest v)) :
    ∃ next cells, endline (zeros ++ 0 :: (v ++ [0])) (zeros.length + 1) = some next ∧
      fillBack 0 isSpace (zeros ++ 0 :: (v ++ [0])) (zeros.length + 1) = some (zeros ++ 0 :: cells) ∧
      (zeros ++ 0 :: cells).drop next = afterLine (unquoteRest v) ++ [0] := by
  obtain ⟨next, hnext, hle, hdrop⟩ := endline_terminated hv (zeros ++ [0])
  obtain ⟨m, hcount, hback⟩ := fillBack_append (p := isSpace) (y := 0) rfl 0 c zeros [] rest
  obtain rfl : m = 0 := by simpa using hcount
  have hcells : zeros ++ [0] ++ (v ++ [0]) = zeros ++ 0 :: (v ++ [0]) := by simp
  have hlen : (zeros ++ [0]).length = zeros.length + 1 := by simp
  have hwhole : zeros ++ 0 :: ([] ++ c :: rest) = zeros ++ 0 :: (v ++ [0]) := by
    rw [hcons]
    rfl
  have hend : zeros.length + 1 + ([] : Bytes).length = zeros.length + 1 := rfl
  have hcell : next = (zeros ++ [0]).length → c = 0 := by
    intro heq
    rw [heq, List.drop_left] at hdrop
    have hvnil : v = [] := by
      by_contra hne
      have hshort := afterLine_length hne
      have hlens := congrArg List.length hdrop
      simp only [List.length_append, List.length_singleton] at hlens
      omega
    rw [hvnil] at hcons
    exact (List.cons.inj hcons).1.symm
  have hbehind := @drop_behind (zeros ++ [0]) (zeros ++ [0]) rest _ _ _ rfl hle hcell
  have hold : zeros ++ [0] ++ c :: rest = zeros ++ [0] ++ (v ++ [0]) := by rw [hcons]
  rw [hold, hdrop, hsame, List.append_assoc] at hbehind
  rw [hcells, hlen] at hnext
  rw [hwhole, hend] at hback
  exact ⟨next, 0 :: rest, hnext, hback, hbehind⟩

/-- The gap between key and value is ended where the value starts. -/
lemma parseSeparator_eq {key rest u : Bytes} (hkey : 0 ∉ key) (hrest : 0 ∉ rest)
    (hsep : rest.dropWhile isBlank = 61 :: u) (pre : Bytes) :
    Refines (parseSeparator (pre ++ key ++ (rest ++ [0])) pre.length (pre ++ key).length)
      ((valueOf u).map fun val => (some key, val))
      (some (afterLine (unquoteRest (u.dropWhile isBlank)))) := by
  set gap := rest.takeWhile isBlank with hgapDef
  set blanks := u.takeWhile isBlank with hblanksDef
  set v := u.dropWhile isBlank with hvDef
  have hrestSplit : gap ++ 61 :: u = rest := by
    rw [← hsep]
    exact List.takeWhile_append_dropWhile
  have huSplit : blanks ++ v = u := List.takeWhile_append_dropWhile
  have hv : 0 ∉ v := by
    intro hmem
    apply hrest
    rw [← hrestSplit, ← huSplit]
    simp [hmem]
  -- the separator is found, and the value behind it
  have hskip := skipWhile_terminated (p := isBlank) (z := 0) rfl (pre ++ key) rest []
  have hread := read_append (pre ++ key ++ gap) (u ++ [0]) 61
  have hskip' := skipWhile_terminated (p := isBlank) (z := 0) rfl (pre ++ key ++ gap ++ [61]) u []
  have hmem : pre ++ key ++ gap ++ 61 :: (u ++ [0]) = pre ++ key ++ (rest ++ [0]) := by
    rw [← hrestSplit]
    simp
  have hmem' : pre ++ key ++ gap ++ [61] ++ (u ++ [0]) = pre ++ key ++ (rest ++ [0]) := by
    rw [← hrestSplit]
    simp
  -- which is ended there, and the key behind it
  set zeros := pre ++ key ++ List.replicate (gap.length + blanks.length) 0 with hzeros
  have hfill := fill_append 0 (pre ++ key) (gap ++ 61 :: blanks) (v ++ [0])
  have hcount : (gap ++ 61 :: blanks).length = gap.length + blanks.length + 1 := by
    simp only [List.length_append, List.length_cons]
    omega
  have hmem'' : pre ++ key ++ (gap ++ 61 :: blanks ++ (v ++ [0])) = pre ++ key ++ (rest ++ [0]) := by
    rw [← hrestSplit, ← huSplit]
    simp
  have hfilled : pre ++ key ++ (List.replicate (gap.length + blanks.length + 1) 0 ++ (v ++ [0])) =
      zeros ++ 0 :: (v ++ [0]) := by
    rw [List.replicate_succ', hzeros]
    simp
  have hstart : (pre ++ key).length + gap.length + 1 + blanks.length = zeros.length + 1 := by
    rw [hzeros]
    simp only [List.length_append, List.length_replicate]
    omega
  have hgapLen : zeros.length + 1 - (pre ++ key).length = gap.length + blanks.length + 1 := by
    omega
  have hpos : (pre ++ key ++ gap ++ [61]).length = (pre ++ key).length + gap.length + 1 := by
    simp only [List.length_append, List.length_singleton]
  have hkeyString : ∀ cells, cString (zeros ++ 0 :: cells) pre.length = key := by
    intro cells
    have htext := cString_append hkey pre (List.replicate (gap.length + blanks.length) 0 ++ cells)
    rw [← replicate_append_cons] at htext
    rw [hzeros, List.append_assoc, List.append_assoc]
    exact htext
  rw [hmem, List.length_append] at hread
  rw [hmem', hpos, ← hblanksDef, hstart] at hskip'
  rw [hmem'', hcount, hfilled] at hfill
  unfold parseSeparator
  rw [hskip]
  simp only [Option.bind_eq_bind, Option.bind_some, hread, ← hgapDef, ne_eq, not_true_eq_false, if_false,
    hskip', hgapLen, hfill]
  have hat : ∀ c more, v ++ [0] = c :: more →
      read (zeros ++ 0 :: (v ++ [0])) (zeros.length + 1) = some c := by
    intro c more hcons
    have hread := read_append (zeros ++ [0]) more c
    rw [List.append_assoc, List.length_append, List.length_singleton] at hread
    rw [hcons]
    exact hread
  have hvalue : valueOf u = valueOf v := by
    unfold valueOf
    rw [hvDef, List.dropWhile_idempotent]
  rw [hvalue]
  have hempty : ∀ c more, v ++ [0] = c :: more → c = 10 ∨ c = 0 → afterLine v = afterLine (unquoteRest v) →
      valueOf v = some none →
      Refines
        ((endline (zeros ++ 0 :: (v ++ [0])) (zeros.length + 1)).bind fun next =>
          (fillBack 0 isSpace (zeros ++ 0 :: (v ++ [0])) (zeros.length + 1)).bind fun mem =>
            pure { mem := mem, key := some pre.length, ret := some next })
        ((valueOf v).map fun val => (some key, val)) (some (afterLine (unquoteRest v))) := by
    intro c more hcons hc hsame hnone
    obtain ⟨next, cells, hnext, hback, hdrop⟩ := @parse_empty_value zeros v hv _ _ hcons hsame
    rw [hnext, Option.bind_some, hback, hnone]
    exact Refines.intro ⟨congrArg some (hkeyString cells), rfl, congrArg some hdrop⟩
  have hblank : ∀ d buf, v = d :: buf → isBlank d = false := fun d buf hcase => isBlank_dropWhile hcase
  cases hcase : v with
  | nil =>
    rw [hcase] at hat hempty
    rw [hat 0 [] rfl, Option.bind_some, if_pos (Or.inr rfl)]
    exact hempty 0 [] rfl (Or.inr rfl) rfl rfl
  | cons d buf =>
    have hd : d ≠ 0 := fun h => hv (by rw [hcase, h]; exact List.mem_cons_self)
    rw [hcase] at hat hempty hv
    rw [hat d (buf ++ [0]) rfl, Option.bind_some]
    by_cases hten : d = 10
    · subst hten
      rw [if_pos (Or.inl rfl)]
      exact hempty 10 (buf ++ [0]) rfl (Or.inl rfl) (by rw [unquoteRest_of_stop (Or.inl rfl)]) rfl
    · obtain ⟨hnone, hsome⟩ := parseValue_eq hten hv zeros pre.length
      rw [if_neg (by tauto), unquote_valueOf hten (hblank d buf hcase), Option.map_map]
      refine ⟨fun h => hnone (Option.map_eq_none_iff.mp h), ?_⟩
      intro out hout
      obtain ⟨res, hres, rfl⟩ := Option.map_eq_some_iff.mp hout
      obtain ⟨cells, val, next, hrun, hval, hnext⟩ := hsome res.1 res.2 hres
      exact ⟨_, hrun, ⟨congrArg some (hkeyString cells), congrArg some hval, congrArg some hnext⟩⟩

/-- Without a separator the key is not ended. -/
lemma parseSeparator_missing {key rest : Bytes} (hkey : 0 ∉ key) (hrest : 0 ∉ rest)
    (hsep : ∀ u, rest.dropWhile isBlank ≠ 61 :: u) (pre : Bytes) :
    Refines (parseSeparator (pre ++ key ++ (rest ++ [0])) pre.length (pre ++ key).length)
      (some (some (key ++ rest), none)) none := by
  have hskip := skipWhile_terminated (p := isBlank) (z := 0) rfl (pre ++ key) rest []
  have hsplit := List.takeWhile_append_dropWhile (p := isBlank) (l := rest)
  have hstring : cString (pre ++ key ++ (rest ++ [0])) pre.length = key ++ rest := by
    have htext := cString_append (s := key ++ rest)
      (fun hmem => (List.mem_append.mp hmem).elim hkey hrest) pre []
    rw [← htext]
    simp
  obtain ⟨e, more, hcell, he⟩ : ∃ e more, rest.dropWhile isBlank ++ [0] = e :: more ∧ e ≠ 61 := by
    cases hbehind : rest.dropWhile isBlank with
    | nil => exact ⟨0, [], rfl, by decide⟩
    | cons e u =>
      refine ⟨e, u ++ [0], rfl, ?_⟩
      rintro rfl
      exact hsep u hbehind
  have hread := read_append (pre ++ key ++ rest.takeWhile isBlank) more e
  rw [← hcell, ← List.append_assoc _ _ [0], List.append_assoc _ _ (rest.dropWhile isBlank), hsplit,
    List.append_assoc _ rest, List.length_append] at hread
  unfold parseSeparator
  rw [hskip]
  simp only [Option.bind_eq_bind, Option.bind_some, hread, if_pos he]
  exact Refines.intro ⟨congrArg some hstring, rfl, rfl⟩

/-- `hcfgParse` and `hcfgNext` are what the parser leaves in the buffer. -/
theorem hcfgParseBuf_refines {buf : Bytes} (hbuf : 0 ∉ buf) :
    Refines (hcfgParseBuf (buf ++ [0])) (hcfgParse buf) (hcfgNext buf) := by
  have hlead := List.takeWhile_append_dropWhile (p := isBlank) (l := buf)
  have hskip := skipWhile_terminated (p := isBlank) (z := 0) rfl [] buf []
  rw [List.nil_append, List.length_nil, Nat.zero_add] at hskip
  unfold hcfgParse hcfgNext hcfgParseBuf
  rw [hskip]
  set lead := buf.takeWhile isBlank with hleadDef
  cases hrest : buf.dropWhile isBlank with
  | nil =>
    rw [hrest, List.append_nil] at hlead
    have hread := read_append buf [] (0 : UInt8)
    rw [hlead]
    simp only [Option.bind_eq_bind, Option.bind_some, hread]
    exact Refines.intro ⟨rfl, rfl, rfl⟩
  | cons c t =>
    rw [hrest] at hlead
    have hread := read_append lead (t ++ [0]) c
    have hcells : lead ++ c :: (t ++ [0]) = buf ++ [0] := by
      rw [← hlead]
      simp
    rw [hcells] at hread
    have hnul : 0 ∉ c :: t := fun hmem => hbuf (hlead ▸ List.mem_append_right lead hmem)
    simp only [Option.bind_eq_bind, Option.bind_some, hread]
    have hcells' : lead ++ (c :: t ++ [0]) = buf ++ [0] := hcells
    by_cases hempty : c = 10 ∨ c = 35
    · obtain ⟨next, hnext, -, hdrop⟩ := endline_terminated hnul lead
      rw [hcells'] at hnext hdrop
      rw [if_pos hempty, if_pos hempty, if_pos (by tauto), hnext]
      exact Refines.intro ⟨rfl, rfl, congrArg some hdrop⟩
    · by_cases hkeyChar : isKeyChar c = true
      · set key := (c :: t).takeWhile isKeyChar with hkeyDef
        set rest := (c :: t).dropWhile isKeyChar with hrestDef
        have hsplit : key ++ rest = c :: t := List.takeWhile_append_dropWhile
        have hmap := mapWhile_terminated (p := isKeyChar) (z := 0) rfl lead (c :: t) [] toupper
        have hlen : lead.length + key.length = (lead ++ key.map toupper).length := by simp
        have hkeyNul : 0 ∉ key.map toupper := map_toupper_ne fun hmem =>
          hnul (hsplit ▸ List.mem_append_left rest hmem)
        have hrestNul : 0 ∉ rest := fun hmem => hnul (hsplit ▸ List.mem_append_right key hmem)
        rw [hcells', ← hkeyDef, ← hrestDef, hlen, ← List.append_assoc] at hmap
        rw [if_neg hempty, if_neg (by simp [hkeyChar]), if_neg (by simp [hkeyChar, hempty]), hmap,
          Option.bind_some, if_neg hempty, if_neg (by simp [hkeyChar])]
        by_cases hsep : ∃ u, rest.dropWhile isBlank = 61 :: u
        · obtain ⟨u, hu⟩ := hsep
          have hvalue := parseSeparator_eq hkeyNul hrestNul hu lead
          unfold valueOf at hvalue
          rw [hu]
          cases hdrop : u.dropWhile isBlank with
          | nil =>
            rw [hdrop] at hvalue
            simp only [hdrop]
            exact hvalue
          | cons d buf =>
            rw [hdrop] at hvalue
            simp only [hdrop]
            dsimp only at hvalue
            by_cases hd : d = 10
            · rw [if_pos hd] at hvalue ⊢
              exact hvalue
            · rw [if_neg hd, Option.map_map] at hvalue
              rw [if_neg hd]
              exact hvalue
        · have hmissing := parseSeparator_missing hkeyNul hrestNul (fun u hu => hsep ⟨u, hu⟩) lead
          -- The parser and `hcfgNext` look at the same character.
          repeat' split
          all_goals first
            | exact hmissing
            | exact absurd ⟨_, by assumption⟩ hsep
      · rw [if_neg hempty, if_neg hempty, if_pos (by simp [hkeyChar]), if_pos (by simp [hkeyChar]),
          if_pos (by simp [hkeyChar])]
        exact Refines.intro ⟨rfl, rfl, rfl⟩

/-! ## Where the parser stays -/

lemma length_unquoteLoop {mem mem' : Bytes} {ptr buf ptr' buf' : ℕ} {comment : Bool}
    (h : unquoteLoop mem ptr buf = some (mem', ptr', buf', comment)) : mem'.length = mem.length := by
  fun_induction unquoteLoop mem ptr buf with
  | case1 => cases h
  | case2 =>
    cases h
    rfl
  | case3 =>
    cases h
    rfl
  | case4 => cases h
  | case5 => cases h
  | case6 mem ptr buf c _ _ _ _ _ _ mem₁ hwrite ih => rw [ih h, length_write hwrite]

lemma length_parseValue {mem : Bytes} {key val : ℕ} {r : ParseRun} (h : parseValue mem key val = some r) :
    r.mem.length = mem.length := by
  obtain ⟨⟨mem₁, ptr, buf, comment⟩, hloop, hrest⟩ := Option.bind_eq_some_iff.mp h
  obtain ⟨c, -, hrest⟩ := Option.bind_eq_some_iff.mp hrest
  obtain ⟨next, -, hrest⟩ := Option.bind_eq_some_iff.mp hrest
  obtain ⟨mem₂, hback, hret⟩ := Option.bind_eq_some_iff.mp hrest
  cases hret
  rw [length_fillBack hback, length_unquoteLoop hloop]

lemma length_parseSeparator {mem : Bytes} {key ptr : ℕ} {r : ParseRun}
    (h : parseSeparator mem key ptr = some r) : r.mem.length = mem.length := by
  obtain ⟨sep, -, hrest⟩ := Option.bind_eq_some_iff.mp h
  obtain ⟨c, -, hrest⟩ := Option.bind_eq_some_iff.mp hrest
  by_cases hc : c ≠ 61
  · rw [if_pos hc] at hrest
    cases hrest
    rfl
  · rw [if_neg hc] at hrest
    obtain ⟨buf, -, hrest⟩ := Option.bind_eq_some_iff.mp hrest
    obtain ⟨mem₁, hfill, hrest⟩ := Option.bind_eq_some_iff.mp hrest
    obtain ⟨d, -, hrest⟩ := Option.bind_eq_some_iff.mp hrest
    by_cases hd : d = 10 ∨ d = 0
    · rw [if_pos hd] at hrest
      obtain ⟨next, -, hrest⟩ := Option.bind_eq_some_iff.mp hrest
      obtain ⟨mem₂, hback, hret⟩ := Option.bind_eq_some_iff.mp hrest
      cases hret
      rw [length_fillBack hback, length_fill hfill]
    · rw [if_neg hd] at hrest
      rw [length_parseValue hrest, length_fill hfill]

lemma length_hcfgParseBuf {mem : Bytes} {r : ParseRun} (h : hcfgParseBuf mem = some r) :
    r.mem.length = mem.length := by
  obtain ⟨buf, -, hrest⟩ := Option.bind_eq_some_iff.mp h
  obtain ⟨c, -, hrest⟩ := Option.bind_eq_some_iff.mp hrest
  by_cases hempty : c = 10 ∨ c = 35
  · rw [if_pos hempty] at hrest
    obtain ⟨next, -, hret⟩ := Option.bind_eq_some_iff.mp hrest
    cases hret
    rfl
  · rw [if_neg hempty] at hrest
    by_cases hkeyChar : (!isKeyChar c) = true
    · rw [if_pos hkeyChar] at hrest
      cases hrest
      rfl
    · rw [if_neg hkeyChar] at hrest
      obtain ⟨⟨mem₁, ptr⟩, hmap, hrest⟩ := Option.bind_eq_some_iff.mp hrest
      rw [length_parseSeparator hrest, length_mapWhile hmap]

/-- A character of a value, or a backslash with the character that it quotes. -/
def IsItem (w : Bytes) : Prop := (∃ c, w = [c] ∧ c ≠ 10 ∧ c ≠ 35 ∧ c ≠ 92) ∨ ∃ d, w = [92, d]

/-- The value of a directive, without a comment or a newline in it, ends with a backslash that quotes
nothing. -/
def EndsInEscape (buf : Bytes) : Prop :=
  ∃ lead key gap gap' : Bytes, ∃ items : List Bytes,
    buf = lead ++ (key ++ (gap ++ 61 :: (gap' ++ (items.flatten ++ [92])))) ∧ IsKey key ∧
      (∀ c ∈ lead ++ gap ++ gap', isBlank c = true) ∧ ∀ w ∈ items, IsItem w

lemma unquote_items {w l : Bytes} (hw : IsItem w) : unquote (w ++ l) = none ↔ unquote l = none := by
  obtain ⟨c, rfl, hc⟩ | ⟨d, rfl⟩ := hw
  · rw [List.singleton_append, unquote_char hc, Option.map_eq_none_iff]
  · show unquote (92 :: d :: l) = none ↔ _
    rw [unquote_backslash, Option.map_eq_none_iff]

lemma unquote_eq_none_iff (l : Bytes) :
    unquote l = none ↔ ∃ items : List Bytes, l = items.flatten ++ [92] ∧ ∀ w ∈ items, IsItem w := by
  constructor
  · intro h
    induction l using unquote.induct with
    | case1 => cases h
    | case2 buf =>
      rw [unquote_newline] at h
      cases h
    | case3 buf =>
      rw [unquote_hash] at h
      cases h
    | case4 => exact ⟨[], rfl, fun w hw => absurd hw List.not_mem_nil⟩
    | case5 d buf _ _ ih =>
      rw [unquote_backslash, Option.map_eq_none_iff] at h
      obtain ⟨items, rfl, hitems⟩ := ih h
      refine ⟨[92, d] :: items, rfl, ?_⟩
      intro w hw
      obtain rfl | hw := List.mem_cons.mp hw
      · exact Or.inr ⟨d, rfl⟩
      · exact hitems w hw
    | case6 c buf hnl hhash hback ih =>
      rw [unquote_char ⟨hnl, hhash, hback⟩, Option.map_eq_none_iff] at h
      obtain ⟨items, rfl, hitems⟩ := ih h
      refine ⟨[c] :: items, rfl, ?_⟩
      intro w hw
      obtain rfl | hw := List.mem_cons.mp hw
      · exact Or.inl ⟨c, rfl, hnl, hhash, hback⟩
      · exact hitems w hw
  · intro h
    obtain ⟨items, rfl, hitems⟩ := h
    induction items with
    | nil => rfl
    | cons w items ih =>
      rw [List.flatten_cons, List.append_assoc, unquote_items (hitems w List.mem_cons_self)]
      exact ih fun w' hw' => hitems w' (List.mem_cons_of_mem w hw')

/-- White space at the front of the value does not change whether it ends in an escape. -/
lemma valueOf_eq_none_iff (u : Bytes) : valueOf u = none ↔ unquote u = none := by
  induction u with
  | nil => simp [valueOf, unquote]
  | cons c u ih =>
    by_cases hblank : isBlank c = true
    · have hvalue : valueOf (c :: u) = valueOf u := by
        unfold valueOf
        rw [List.dropWhile_cons_of_pos hblank]
      have hc : c ≠ 10 ∧ c ≠ 35 ∧ c ≠ 92 := by
        refine ⟨isBlank_ne hblank, ?_, ?_⟩ <;>
        · rintro rfl
          exact absurd hblank (by decide)
      rw [hvalue, ih, unquote_char hc, Option.map_eq_none_iff]
    · rw [Bool.not_eq_true] at hblank
      by_cases hten : c = 10
      · rw [hten, unquote_newline]
        simp [valueOf, isBlank]
      · rw [unquote_valueOf hten hblank, Option.map_eq_none_iff]

lemma hcfgParse_eq_none_iff (buf : Bytes) : hcfgParse buf = none ↔ EndsInEscape buf := by
  constructor
  · intro h
    have hlead := List.takeWhile_append_dropWhile (p := isBlank) (l := buf)
    cases hrest : buf.dropWhile isBlank with
    | nil =>
      unfold hcfgParse at h
      rw [hrest] at h
      cases h
    | cons c t =>
      have hsplit := List.takeWhile_append_dropWhile (p := isKeyChar) (l := c :: t)
      have hgap := List.takeWhile_append_dropWhile (p := isBlank) (l := (c :: t).dropWhile isKeyChar)
      rw [hrest] at hlead
      unfold hcfgParse at h
      rw [hrest] at h
      dsimp only at h
      split_ifs at h with hstart
      split at h
      · next u hu =>
        obtain ⟨-, -, hkeyChar⟩ : c ≠ 10 ∧ c ≠ 35 ∧ isKeyChar c = true := by
          simpa only [not_or, Bool.not_eq_true', Bool.not_eq_false] using hstart
        have hkey : IsKey ((c :: t).takeWhile isKeyChar) := by
          refine ⟨?_, fun d hd => List.mem_takeWhile_imp hd⟩
          rw [List.takeWhile_cons_of_pos hkeyChar]
          exact List.cons_ne_nil _ _
        have hvalue : valueOf u = none := by
          unfold valueOf
          split at h
          · cases h
          · next d v hv =>
            split_ifs at h ⊢ with hten
            exact Option.map_eq_none_iff.mpr (Option.map_eq_none_iff.mp h)
        obtain ⟨items, rfl, hitems⟩ := (unquote_eq_none_iff u).mp ((valueOf_eq_none_iff u).mp hvalue)
        refine ⟨buf.takeWhile isBlank, (c :: t).takeWhile isKeyChar,
          ((c :: t).dropWhile isKeyChar).takeWhile isBlank, [], items, ?_, hkey, ?_, hitems⟩
        · rw [hu] at hgap
          rw [List.nil_append, hgap, hsplit, hlead]
        · intro d hd
          rw [List.append_nil] at hd
          exact (List.mem_append.mp hd).elim List.mem_takeWhile_imp List.mem_takeWhile_imp
      · cases h
  · intro h
    obtain ⟨lead, key, gap, gap', items, rfl, hkey, hblank, hitems⟩ := h
    have hgap' : ∀ c ∈ gap', isBlank c = true := fun c hc => hblank c (List.mem_append_right _ hc)
    rw [hcfgParse_directive_text hkey
      (fun c hc => hblank c (List.mem_append_left _ (List.mem_append_left _ hc)))
      (fun c hc => hblank c (List.mem_append_left _ (List.mem_append_right _ hc)))]
    have hvalue : valueOf (gap' ++ (items.flatten ++ [92])) = valueOf (items.flatten ++ [92]) := by
      unfold valueOf
      rw [List.dropWhile_append_of_pos hgap']
    rw [hvalue, (valueOf_eq_none_iff _).mpr ((unquote_eq_none_iff _).mpr ⟨items, rfl, hitems⟩)]
    rfl

/-- The parser stays inside of its buffer, and returns a pointer into it, unless the value of the
directive ends in an escape. -/
theorem hcfg_parse_in_bounds_iff {buf : Bytes} (hbuf : 0 ∉ buf) :
    (∃ r, hcfgParseBuf (buf ++ [0]) = some r ∧ ∀ next, r.ret = some next → next ≤ buf.length) ↔
      ¬ EndsInEscape buf := by
  obtain ⟨hnone, hsome⟩ := hcfgParseBuf_refines hbuf
  rw [← hcfgParse_eq_none_iff]
  constructor
  · intro h hparse
    obtain ⟨r, hrun, -⟩ := h
    rw [hnone hparse] at hrun
    cases hrun
  · intro h
    obtain ⟨out, hout⟩ := Option.ne_none_iff_exists'.mp h
    obtain ⟨r, hrun, hleaves⟩ := hsome out hout
    refine ⟨r, hrun, ?_⟩
    intro next hret
    have hlen := length_hcfgParseBuf hrun
    have hdrop := hleaves.ret
    rw [hret] at hdrop
    obtain ⟨text, -, htext⟩ := Option.map_eq_some_iff.mp hdrop.symm
    have hpos := congrArg List.length htext
    simp only [List.length_append, List.length_singleton, List.length_drop] at hpos hlen
    omega

/-- A quoted character in the value is no problem. -/
theorem hcfg_parse_in_bounds_quoted :
    0 ∉ cstr "A=\\n" ∧
      ∃ r, hcfgParseBuf (cstr "A=\\n" ++ [0]) = some r ∧
        ∀ next, r.ret = some next → next ≤ (cstr "A=\\n").length :=
  ⟨by decide, (hcfg_parse_in_bounds_iff (by decide)).mpr ((hcfgParse_eq_none_iff _).not.mp (by decide))⟩

/-- The directive `A=\` makes the parser read behind its terminator. -/
theorem escape_reads_behind_terminator :
    ¬ ∀ buf : Bytes, 0 ∉ buf →
      ∃ r, hcfgParseBuf (buf ++ [0]) = some r ∧ ∀ next, r.ret = some next → next ≤ buf.length := by
  intro h
  obtain ⟨r, hrun, -⟩ := h (cstr "A=\\") (by decide)
  have hnone := (@hcfgParseBuf_refines (cstr "A=\\") (by decide)).1 (by decide)
  rw [hnone] at hrun
  cases hrun

end ActiveHarmony

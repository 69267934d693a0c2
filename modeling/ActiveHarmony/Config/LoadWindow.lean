import ActiveHarmony.Config.ParseBuffer

/-!
# Loading through a buffer

`hcfg_load` reads the file in pieces. `line_count` decides whether the buffer has a whole line, which
`hcfg_parse` then reads. The two do not agree on where a line ends: `line_count` stops at an escaped
newline of a value, and runs over the newline of a line with white space only. `hcfg_load_whole` says
when the load does what it would do with the whole file in one buffer.
-/

namespace ActiveHarmony

open TextScan (isSpace)

/-! ## The file as a whole -/

/-- The key/value pairs that `hcfg_parse` finds in the text, if it finds no error. -/
def directives (text : Bytes) : Option (List KeyVal) :=
  if text = [] then some []
  else
    match _h : hcfgNext text with
    | none => none
    | some next =>
      match hcfgParse text with
      | none => none
      | some (some key, some val) => (directives next).map (⟨key, val⟩ :: ·)
      | some _ => directives next
termination_by text.length
decreasing_by
  · exact (hcfgNext_suffix _h).2
  · exact (hcfgNext_suffix _h).2

/-- Set some pairs in order. -/
def setAll (cfg : Hcfg) : List KeyVal → Option Hcfg
  | [] => some cfg
  | d :: ds => (hcfgSet cfg d.key (some d.val)).bind fun res => if res.1 ≠ 0 then none else setAll res.2 ds

/-- The configuration after setting the pairs of the text. -/
def LoadsWhole (cfg : Hcfg) (text : Bytes) (cfg' : Hcfg) : Prop :=
  ∃ ds, directives text = some ds ∧ setAll cfg ds = some cfg'

/-- Every line, extended over newlines with a backslash in front, is shorter than `n`. The line that
starts the text has `len` characters before it. -/
def linesBelow (n : ℕ) : ℕ → Bytes → Bool
  | len, [] => len < n
  | len, [_] => len + 1 < n
  | len, c :: d :: text =>
    if c = 10 then len + 1 < n && linesBelow n 0 (d :: text)
    else if c = 92 then linesBelow n (len + 2) text
    else linesBelow n (len + 1) (d :: text)

/-! ## When a line does not depend on what follows it -/

/-- The buffer has the first `n` characters of the text, which is what is left of the file. Wherever
`line_count` finds a line there, the buffer has it to its end, and no refill finds the buffer full. -/
inductive Buffered : ℕ → Bytes → Prop
  | invalid {n : ℕ} {text : Bytes} (hcount : lineCount (text.take n) ≠ 0) (hnext : hcfgNext text = none) :
      Buffered n text
  | line {n : ℕ} {line rest : Bytes} (hcount : lineCount ((line ++ rest).take n) ≠ 0)
      (hnext : hcfgNext (line ++ rest) = some rest) (hwhole : line.length ≤ n)
      (hrest : Buffered (n - line.length) rest) : Buffered n (line ++ rest)
  | refill {n : ℕ} {text : Bytes} (hcount : lineCount (text.take n) = 0) (hn : n < hcfgBufsize - 1)
      (hlong : hcfgBufsize - 1 ≤ text.length) (hrest : Buffered (hcfgBufsize - 1) text) : Buffered n text
  | last {n : ℕ} {text : Bytes} (hcount : lineCount (text.take n) = 0) (hn : n < hcfgBufsize - 1)
      (hshort : text.length < hcfgBufsize - 1) : Buffered n text

/-- Where unquoting stops, it only looks at the character there. -/
lemma unquote_local {l s : Bytes} {c : UInt8} (h : unquoteRest l = c :: s) :
    ∃ pre, l = pre ++ c :: s ∧
      ∀ s', unquote (pre ++ c :: s') = unquote l ∧ unquoteRest (pre ++ c :: s') = c :: s' := by
  fun_induction unquoteRest l with
  | case1 => cases h
  | case2 d buf hstop =>
    cases h
    refine ⟨[], rfl, ?_⟩
    intro s'
    obtain rfl | rfl := hstop
    · exact ⟨by rw [List.nil_append, unquote_newline, unquote_newline], unquoteRest_of_stop (Or.inl rfl) s'⟩
    · exact ⟨by rw [List.nil_append, unquote_hash, unquote_hash], unquoteRest_of_stop (Or.inr rfl) s'⟩
  | case3 => cases h
  | case4 d buf _ ih =>
    obtain ⟨pre, rfl, hlocal⟩ := ih h
    refine ⟨92 :: d :: pre, rfl, ?_⟩
    intro s'
    obtain ⟨hout, hrest⟩ := hlocal s'
    have hcells : 92 :: d :: pre ++ c :: s' = 92 :: d :: (pre ++ c :: s') := rfl
    rw [hcells, unquote_backslash, unquote_backslash, hout]
    refine ⟨rfl, ?_⟩
    rw [unquoteRest, if_neg (by decide), if_pos rfl]
    exact hrest
  | case5 d buf hstop hback ih =>
    obtain ⟨pre, rfl, hlocal⟩ := ih h
    refine ⟨d :: pre, rfl, ?_⟩
    intro s'
    obtain ⟨hout, hrest⟩ := hlocal s'
    have hd : d ≠ 10 ∧ d ≠ 35 ∧ d ≠ 92 := ⟨fun h => hstop (Or.inl h), fun h => hstop (Or.inr h), hback⟩
    have hcells : d :: pre ++ c :: s' = d :: (pre ++ c :: s') := rfl
    rw [hcells, unquote_char hd, unquote_char hd, hout, unquoteRest_char hd]
    exact ⟨rfl, hrest⟩

/-- A text behind which there is more has a newline where it ends. -/
lemma afterLine_local {l rest : Bytes} (h : afterLine l = rest) (hrest : rest ≠ []) :
    ∃ pre, l = pre ++ 10 :: rest ∧ ∀ rest', afterLine (pre ++ 10 :: rest') = rest' := by
  induction l with
  | nil => exact absurd h.symm hrest
  | cons c l ih =>
    by_cases hc : c = 10
    · subst hc
      rw [afterLine_newline] at h
      exact ⟨[], by rw [h]; rfl, fun rest' => afterLine_newline rest'⟩
    · rw [afterLine_of_ne hc] at h
      obtain ⟨pre, hpre, hlocal⟩ := ih h
      refine ⟨c :: pre, by rw [hpre]; rfl, ?_⟩
      intro rest'
      rw [List.cons_append, afterLine_of_ne hc]
      exact hlocal rest'

lemma hcfgParse_skipped {lead : Bytes} (hlead : ∀ c ∈ lead, isBlank c = true) {c : UInt8}
    (hc : c = 10 ∨ c = 35) (t : Bytes) :
    hcfgParse (lead ++ c :: t) = some (none, none) ∧
      hcfgNext (lead ++ c :: t) = some (afterLine (c :: t)) := by
  have hdrop : (lead ++ c :: t).dropWhile isBlank = c :: t := by
    rw [List.dropWhile_append_of_pos hlead, List.dropWhile_cons_of_neg]
    obtain rfl | rfl := hc <;> decide
  unfold hcfgParse hcfgNext
  rw [hdrop]
  dsimp only
  rw [if_pos (by tauto), if_pos hc]
  exact ⟨rfl, rfl⟩

lemma dropWhile_key {key : Bytes} (hkey : IsKey key) {gap : Bytes} (hgap : ∀ c ∈ gap, isBlank c = true)
    (u : Bytes) :
    ∃ c t, key ++ (gap ++ 61 :: u) = c :: t ∧ isKeyChar c = true ∧
      ((c :: t).dropWhile isKeyChar).dropWhile isBlank = 61 :: u := by
  obtain ⟨hne, hchars⟩ := hkey
  obtain ⟨c, rest, rfl⟩ := List.exists_cons_of_ne_nil hne
  refine ⟨c, rest ++ (gap ++ 61 :: u), rfl, hchars c List.mem_cons_self, ?_⟩
  have hsep : (gap ++ 61 :: u).dropWhile isBlank = 61 :: u := by
    rw [List.dropWhile_append_of_pos hgap, List.dropWhile_cons_of_neg (by decide)]
  have hbehind : (gap ++ 61 :: u).dropWhile isKeyChar = gap ++ 61 :: u := by
    cases gap with
    | nil => rfl
    | cons d gap =>
      have hd := isBlank_not_isKeyChar (hgap d List.mem_cons_self)
      rw [List.cons_append, List.dropWhile_cons_of_neg (by rw [hd]; decide)]
  rw [← List.cons_append, List.dropWhile_append_of_pos hchars, hbehind, hsep]

lemma hcfgNext_directive_text {lead key gap : Bytes} (hkey : IsKey key)
    (hlead : ∀ c ∈ lead, isBlank c = true) (hgap : ∀ c ∈ gap, isBlank c = true) (u : Bytes) :
    hcfgNext (lead ++ (key ++ (gap ++ 61 :: u))) =
      some (afterLine (unquoteRest (u.dropWhile isBlank))) := by
  obtain ⟨c, t, hcells, hc, hdrop⟩ := dropWhile_key hkey hgap u
  have hfacts := isKeyChar_facts hc
  unfold hcfgNext
  rw [hcells, List.dropWhile_append_of_pos hlead, List.dropWhile_cons_of_neg (by rw [hfacts.1]; decide)]
  dsimp only
  rw [if_neg (not_or.mpr hfacts.2), if_neg (by rw [hc]; decide), hdrop]
  rfl

/-- What a line is on which the parser does not fail. -/
lemma hcfgNext_cases {text next : Bytes} (h : hcfgNext text = some next) :
    (∃ lead c t, text = lead ++ c :: t ∧ (∀ c ∈ lead, isBlank c = true) ∧ (c = 10 ∨ c = 35) ∧
      next = afterLine (c :: t)) ∨
    ∃ lead key gap u, text = lead ++ (key ++ (gap ++ 61 :: u)) ∧ IsKey key ∧
      (∀ c ∈ lead, isBlank c = true) ∧ (∀ c ∈ gap, isBlank c = true) ∧
      next = afterLine (unquoteRest (u.dropWhile isBlank)) := by
  have hlead := List.takeWhile_append_dropWhile (p := isBlank) (l := text)
  unfold hcfgNext at h
  split at h
  · cases h
  · next c t hrest =>
    rw [hrest] at hlead
    split_ifs at h with hskip hkeyChar
    · cases h
      exact Or.inl ⟨_, c, t, hlead.symm, fun d hd => List.mem_takeWhile_imp hd, hskip, rfl⟩
    · split at h
      · next u hu =>
        cases h
        have hkey := List.takeWhile_append_dropWhile (p := isKeyChar) (l := c :: t)
        have hgap := List.takeWhile_append_dropWhile (p := isBlank) (l := (c :: t).dropWhile isKeyChar)
        rw [hu] at hgap
        refine Or.inr ⟨text.takeWhile isBlank, (c :: t).takeWhile isKeyChar,
          ((c :: t).dropWhile isKeyChar).takeWhile isBlank, u, ?_, ⟨?_, ?_⟩, ?_, ?_, rfl⟩
        · rw [hgap, hkey, hlead]
        · rw [List.takeWhile_cons_of_pos (by simpa using hkeyChar)]
          exact List.cons_ne_nil _ _
        · exact fun d hd => List.mem_takeWhile_imp hd
        · exact fun d hd => List.mem_takeWhile_imp hd
        · exact fun d hd => List.mem_takeWhile_imp hd
      · cases h

lemma valueOf_blanks {blanks : Bytes} (h : ∀ c ∈ blanks, isBlank c = true) (v : Bytes) :
    valueOf (blanks ++ v) = valueOf v := by
  unfold valueOf
  rw [List.dropWhile_append_of_pos h]

/-- The value depends on its first character and on what unquoting it gives. -/
lemma valueOf_congr {d : UInt8} {v v' : Bytes} (hd : isBlank d = false)
    (h : unquote (d :: v') = unquote (d :: v)) : valueOf (d :: v') = valueOf (d :: v) := by
  by_cases hten : d = 10
  · rw [hten]
    rfl
  · rw [unquote_valueOf hten hd, unquote_valueOf hten hd, h]

/-- A line that another one follows is read in the same way whatever follows it. -/
lemma hcfgNext_local {text rest : Bytes} (h : hcfgNext text = some rest) (hrest : rest ≠ []) :
    ∃ line, text = line ++ rest ∧
      ∀ rest', hcfgParse (line ++ rest') = hcfgParse text ∧ hcfgNext (line ++ rest') = some rest' := by
  obtain ⟨lead, c, t, rfl, hlead, hc, hnext⟩ | ⟨lead, key, gap, u, rfl, hkey, hlead, hgap, hnext⟩ :=
    hcfgNext_cases h
  · obtain ⟨pre, hpre, hlocal⟩ := afterLine_local hnext.symm hrest
    refine ⟨lead ++ (pre ++ [10]), by rw [hpre]; simp, ?_⟩
    intro rest'
    -- the line is not read further than to its first character
    obtain ⟨t', ht'⟩ : ∃ t', pre ++ 10 :: rest' = c :: t' := by
      cases pre with
      | nil =>
        obtain ⟨rfl, -⟩ := List.cons.inj hpre
        exact ⟨rest', rfl⟩
      | cons d pre =>
        obtain ⟨rfl, -⟩ := List.cons.inj hpre
        exact ⟨pre ++ 10 :: rest', rfl⟩
    have hcells : lead ++ (pre ++ [10]) ++ rest' = lead ++ c :: t' := by
      rw [← ht']
      simp
    have hsame := hcfgParse_skipped hlead hc t'
    rw [hcells, hsame.1, hsame.2, (hcfgParse_skipped hlead hc t).1, ← ht', hlocal]
    exact ⟨rfl, rfl⟩
  · obtain ⟨pre, hpre, hlocal⟩ := afterLine_local hnext.symm hrest
    have hblanks : ∀ c ∈ u.takeWhile isBlank, isBlank c = true := fun c hc => List.mem_takeWhile_imp hc
    have hu := List.takeWhile_append_dropWhile (p := isBlank) (l := u)
    -- the character at which unquoting stops, which is also there with another rest
    obtain ⟨c, hhead⟩ : ∃ c, ∀ rest', ∃ s', pre ++ 10 :: rest' = c :: s' := by
      cases pre with
      | nil => exact ⟨10, fun rest' => ⟨rest', rfl⟩⟩
      | cons c pre => exact ⟨c, fun rest' => ⟨pre ++ 10 :: rest', rfl⟩⟩
    obtain ⟨s, hs⟩ := hhead rest
    rw [hs] at hpre
    obtain ⟨m, hm, hquote⟩ := unquote_local hpre
    refine ⟨lead ++ (key ++ (gap ++ 61 :: (u.takeWhile isBlank ++ (m ++ (pre ++ [10]))))), ?_, ?_⟩
    · conv_lhs => rw [← hu, hm, ← hs]
      simp
    · intro rest'
      obtain ⟨s', hs'⟩ := hhead rest'
      obtain ⟨hout, hstop⟩ := hquote s'
      obtain ⟨d, w, w', hw, hw'⟩ : ∃ d w w', m ++ c :: s = d :: w ∧ m ++ c :: s' = d :: w' := by
        cases m with
        | nil => exact ⟨c, s, s', rfl, rfl⟩
        | cons d m => exact ⟨d, m ++ c :: s, m ++ c :: s', rfl, rfl⟩
      have hd : isBlank d = false := by
        rw [hw] at hm
        exact isBlank_dropWhile hm
      have hcells : lead ++ (key ++ (gap ++ 61 :: (u.takeWhile isBlank ++ (m ++ (pre ++ [10]))))) ++ rest'
          = lead ++ (key ++ (gap ++ 61 :: (u.takeWhile isBlank ++ (d :: w')))) := by
        rw [← hw', ← hs']
        simp
      have hvalue : valueOf (u.takeWhile isBlank ++ d :: w') = valueOf u := by
        conv_rhs => rw [← hu, hm, hw]
        rw [valueOf_blanks hblanks, valueOf_blanks hblanks]
        apply valueOf_congr hd
        rw [← hw', ← hw, hout, hm]
      have hdrop : (u.takeWhile isBlank ++ d :: w').dropWhile isBlank = d :: w' := by
        rw [List.dropWhile_append_of_pos hblanks, List.dropWhile_cons_of_neg (by rw [hd]; decide)]
      rw [hcells, hcfgParse_directive_text hkey hlead hgap, hcfgParse_directive_text hkey hlead hgap,
        hcfgNext_directive_text hkey hlead hgap, hvalue, hdrop, ← hw', hstop, ← hs', hlocal]
      exact ⟨rfl, rfl⟩

/-- Where the parser fails, it fails before the end of the first line, and so in the buffer. -/
lemma hcfgNext_append_of_some {text next : Bytes} (h : hcfgNext text = some next) (more : Bytes) :
    ∃ next', hcfgNext (text ++ more) = some next' := by
  obtain ⟨lead, c, t, rfl, hlead, hc, -⟩ | ⟨lead, key, gap, u, rfl, hkey, hlead, hgap, -⟩ :=
    hcfgNext_cases h
  · rw [List.append_assoc, List.cons_append]
    exact ⟨_, (hcfgParse_skipped hlead hc _).2⟩
  · have hcells : lead ++ (key ++ (gap ++ 61 :: u)) ++ more =
        lead ++ (key ++ (gap ++ 61 :: (u ++ more))) := by
      simp
    rw [hcells]
    exact ⟨_, hcfgNext_directive_text hkey hlead hgap _⟩

/-! ## One line of the loader -/

/-- What `hcfg_load` does with a line that `hcfg_parse` reads: the configuration, if it goes on. -/
def setLine (cfg : Hcfg) (text : Bytes) : Option Hcfg :=
  match hcfgParse text with
  | none => none
  | some (some key, some val) =>
    (hashInsert cfg key val).bind fun res => if res.1 ≠ 0 then none else some res.2
  | some _ => some cfg

lemma loadsWhole_nil {cfg cfg' : Hcfg} : LoadsWhole cfg [] cfg' ↔ cfg' = cfg := by
  unfold LoadsWhole
  rw [directives, if_pos rfl]
  constructor
  · intro h
    obtain ⟨ds, hds, hset⟩ := h
    cases hds
    cases hset
    rfl
  · rintro rfl
    exact ⟨[], rfl, rfl⟩

lemma loadsWhole_invalid {text : Bytes} (htext : text ≠ []) (h : hcfgNext text = none) (cfg cfg' : Hcfg) :
    ¬ LoadsWhole cfg text cfg' := by
  intro hload
  obtain ⟨ds, hds, -⟩ := hload
  rw [directives, if_neg htext] at hds
  split at hds
  · cases hds
  · next next hnext =>
    rw [h] at hnext
    cases hnext

lemma loadsWhole_line {text next : Bytes} (h : hcfgNext text = some next) (cfg cfg' : Hcfg) :
    LoadsWhole cfg text cfg' ↔ ∃ cfg₁, setLine cfg text = some cfg₁ ∧ LoadsWhole cfg₁ next cfg' := by
  have htext : text ≠ [] := by
    rintro rfl
    cases h
  unfold LoadsWhole setLine
  rw [directives, if_neg htext]
  split
  · next hnone =>
    rw [h] at hnone
    cases hnone
  · next next' hnext =>
    rw [h] at hnext
    cases hnext
    split
    · simp
    · next key val hparse =>
      constructor
      · intro hload
        obtain ⟨ds, hds, hset⟩ := hload
        obtain ⟨ds', hds', rfl⟩ := Option.map_eq_some_iff.mp hds
        obtain ⟨res, hins, hrest⟩ := Option.bind_eq_some_iff.mp hset
        have hins : hashInsert cfg key val = some res := hins
        by_cases hret : res.1 ≠ 0
        · rw [if_pos hret] at hrest
          cases hrest
        · rw [if_neg hret] at hrest
          refine ⟨res.2, ?_, ds', hds', hrest⟩
          rw [hins, Option.bind_some, if_neg hret]
      · intro hload
        obtain ⟨cfg₁, hline, ds, hds, hset⟩ := hload
        obtain ⟨res, hins, hrest⟩ := Option.bind_eq_some_iff.mp hline
        by_cases hret : res.1 ≠ 0
        · rw [if_pos hret] at hrest
          cases hrest
        · rw [if_neg hret] at hrest
          cases hrest
          refine ⟨⟨key, val⟩ :: ds, by rw [hds]; rfl, ?_⟩
          show (hashInsert cfg key val).bind _ = _
          rw [hins, Option.bind_some, if_neg hret]
          exact hset
    · simp

/-- The loop over the lines does not end in the way that lets the load go on. -/
def Aborts (res : Option (LoadStop × Hcfg × Bytes)) : Prop := ∀ cfg left, res ≠ some (.more, cfg, left)

lemma hcfgLoadLines_line {eof : Bool} {text next : Bytes} (hcount : lineCount text ≠ 0 ∨ eof = true)
    (h : hcfgNext text = some next) (cfg : Hcfg) :
    (setLine cfg text = none → Aborts (hcfgLoadLines eof cfg text)) ∧
      ∀ cfg₁, setLine cfg text = some cfg₁ → hcfgLoadLines eof cfg text = hcfgLoadLines eof cfg₁ next := by
  have htext : text ≠ [] := by
    rintro rfl
    cases h
  have hgo : ¬ (lineCount text = 0 ∧ eof = false) := by
    rintro ⟨hzero, hfalse⟩
    obtain hcount | heof := hcount
    · exact hcount hzero
    · rw [hfalse] at heof
      cases heof
  unfold Aborts
  rw [hcfgLoadLines, if_neg htext, if_neg hgo]
  split
  · next hnone =>
    rw [h] at hnone
    cases hnone
  · next next' hnext =>
    rw [h] at hnext
    cases hnext
    unfold setLine
    cases hparse : hcfgParse text with
    | none => simp
    | some out =>
      obtain ⟨_ | key, _ | val⟩ := out
      · simp
      · simp
      · simp
      · cases hins : hashInsert cfg key val with
        | none => simp [hins]
        | some res =>
          by_cases hret : res.1 ≠ 0
          · simp [hins, hret]
          · simp [hins, hret]

lemma hcfgLoadLines_invalid {eof : Bool} {text : Bytes} (htext : text ≠ [])
    (hcount : lineCount text ≠ 0 ∨ eof = true) (h : hcfgNext text = none) (cfg : Hcfg) :
    Aborts (hcfgLoadLines eof cfg text) := by
  have hgo : ¬ (lineCount text = 0 ∧ eof = false) := by
    rintro ⟨hzero, hfalse⟩
    obtain hcount | heof := hcount
    · exact hcount hzero
    · rw [hfalse] at heof
      cases heof
  intro cfg' left
  rw [hcfgLoadLines, if_neg htext, if_neg hgo]
  split
  · simp
  · next next hnext =>
    rw [h] at hnext
    cases hnext

/-- At the end of the file the buffer holds all that is left. -/
lemma hcfgLoadLines_eof (cfg : Hcfg) (text : Bytes) (cfg' : Hcfg) (left : Bytes) :
    hcfgLoadLines true cfg text = some (.more, cfg', left) ↔ left = [] ∧ LoadsWhole cfg text cfg' := by
  induction hlen : text.length using Nat.strong_induction_on generalizing text cfg with
  | h n ih =>
    by_cases htext : text = []
    · subst htext
      rw [hcfgLoadLines, if_pos rfl, loadsWhole_nil]
      constructor
      · intro h
        cases h
        exact ⟨rfl, rfl⟩
      · rintro ⟨rfl, rfl⟩
        rfl
    · cases hnext : hcfgNext text with
      | none =>
        have habort := hcfgLoadLines_invalid htext (Or.inr rfl) hnext cfg cfg' left
        have hfail := loadsWhole_invalid htext hnext cfg cfg'
        exact ⟨fun h => absurd h habort, fun h => absurd h.2 hfail⟩
      | some next =>
        obtain ⟨hnone, hsome⟩ := hcfgLoadLines_line (Or.inr rfl : _ ∨ true = true) hnext cfg
        have hshort := (hcfgNext_suffix hnext).2
        rw [loadsWhole_line hnext]
        cases hline : setLine cfg text with
        | none => exact ⟨fun h => absurd h (hnone hline cfg' left), by rintro ⟨-, cfg₁, hcfg, -⟩; cases hcfg⟩
        | some cfg₁ =>
          rw [hsome cfg₁ hline, ih next.length (by omega) cfg₁ next rfl]
          simp

/-! ## The refills -/

/-- What `hcfg_load` does after the loop over the lines, where the file goes on with `file`. -/
def resume (res : Option (LoadStop × Hcfg × Bytes)) (file : Bytes) : Option (ℤ × Hcfg) :=
  match res with
  | none => none
  | some (.more, cfg, left) => hcfgLoadLoop cfg left file
  | some (_, cfg, _) => some (-1, cfg)

lemma Aborts.resume {res : Option (LoadStop × Hcfg × Bytes)} (h : Aborts res) (file : Bytes) (cfg : Hcfg) :
    resume res file ≠ some (0, cfg) := by
  unfold ActiveHarmony.resume
  split
  · simp
  · next cfg left => exact absurd rfl (h cfg left)
  · simp

/-- A refill of a buffer with room, before the end of the file. -/
lemma hcfgLoadLoop_refill {n : ℕ} {text : Bytes} (hn : n < hcfgBufsize - 1)
    (hlong : hcfgBufsize - 1 ≤ text.length) (cfg : Hcfg) :
    hcfgLoadLoop cfg (text.take n) (text.drop n) =
      resume (hcfgLoadLines false cfg (text.take (hcfgBufsize - 1))) (text.drop (hcfgBufsize - 1)) := by
  have hlen : (text.take n).length = n := by
    rw [List.length_take]
    omega
  have hspace : hcfgBufsize - (n + 1) = hcfgBufsize - 1 - n := by omega
  have heof : ¬ (text.drop n).length < hcfgBufsize - (n + 1) := by
    rw [List.length_drop]
    omega
  have htake : text.take n ++ (text.drop n).take (hcfgBufsize - (n + 1)) = text.take (hcfgBufsize - 1) := by
    rw [hspace, ← List.take_add]
    congr 1
    omega
  have hdrop : (text.drop n).drop (hcfgBufsize - (n + 1)) = text.drop (hcfgBufsize - 1) := by
    rw [List.drop_drop]
    congr 1
    omega
  have hroom : hcfgBufsize - (n + 1) ≠ 0 := by omega
  rw [hcfgLoadLoop]
  simp only [hlen, htake, hdrop, dif_neg hroom, dif_neg heof, decide_eq_false heof]
  unfold resume
  split <;> simp_all

/-- A refill at the end of the file. -/
lemma hcfgLoadLoop_last {n : ℕ} {text : Bytes} (hn : n < hcfgBufsize - 1)
    (hshort : text.length < hcfgBufsize - 1) (cfg cfg' : Hcfg) :
    hcfgLoadLoop cfg (text.take n) (text.drop n) = some (0, cfg') ↔ LoadsWhole cfg text cfg' := by
  have hlen : (text.take n).length ≤ n := List.length_take_le n text
  have hroom : hcfgBufsize - ((text.take n).length + 1) ≠ 0 := by omega
  have heof : (text.drop n).length < hcfgBufsize - ((text.take n).length + 1) := by
    rw [List.length_drop, List.length_take]
    omega
  have htake : text.take n ++ (text.drop n).take (hcfgBufsize - ((text.take n).length + 1)) = text := by
    rw [List.take_of_length_le heof.le, List.take_append_drop]
  rw [hcfgLoadLoop]
  simp only [htake, dif_neg hroom, dif_pos heof, decide_eq_true heof]
  have hwhole := hcfgLoadLines_eof cfg text
  split
  · next hlines =>
    refine ⟨fun h => absurd h (by simp), fun h => ?_⟩
    have hmore := (hwhole cfg' []).mpr ⟨rfl, h⟩
    rw [hlines] at hmore
    cases hmore
  · next cfg₁ left hlines =>
    obtain ⟨rfl, hload⟩ := (hwhole cfg₁ left).mp hlines
    rw [if_pos rfl]
    constructor
    · intro h
      cases h
      exact hload
    · intro h
      have hmore := (hwhole cfg' []).mpr ⟨rfl, h⟩
      rw [hlines] at hmore
      cases hmore
      rfl
  · next stop cfg₁ left hstop hlines =>
    refine ⟨fun h => absurd h (by simp), fun h => ?_⟩
    have hmore := (hwhole cfg' []).mpr ⟨rfl, h⟩
    rw [hlines] at hmore
    cases hmore
    exact absurd rfl hstop

/-- Without a line in the buffer, the loop over the lines leaves it as it is. -/
lemma hcfgLoadLines_wait {text : Bytes} (hcount : lineCount text = 0) (cfg : Hcfg) :
    hcfgLoadLines false cfg text = some (.more, cfg, text) := by
  rw [hcfgLoadLines]
  by_cases htext : text = []
  · rw [if_pos htext]
  · rw [if_neg htext, if_pos ⟨hcount, rfl⟩]

/-- Where the buffer has the first `n` characters of the text, the load goes on as it would with the whole
text in the buffer. -/
lemma buffered_loads {n : ℕ} {text : Bytes} (h : Buffered n text) (cfg cfg' : Hcfg) :
    resume (hcfgLoadLines false cfg (text.take n)) (text.drop n) = some (0, cfg') ↔
      LoadsWhole cfg text cfg' := by
  induction h generalizing cfg with
  | @invalid n text hcount hnext =>
    have htext : text ≠ [] := by
      rintro rfl
      rw [List.take_nil] at hcount
      exact hcount rfl
    have hbuffer : text.take n ≠ [] := by
      intro hnil
      rw [hnil] at hcount
      exact hcount rfl
    have hfail : hcfgNext (text.take n) = none := by
      cases hpart : hcfgNext (text.take n) with
      | none => rfl
      | some next =>
        obtain ⟨next', hwhole⟩ := hcfgNext_append_of_some hpart (text.drop n)
        rw [List.take_append_drop, hnext] at hwhole
        cases hwhole
    have habort := @hcfgLoadLines_invalid false _ hbuffer (Or.inl hcount) hfail cfg
    exact ⟨fun h => absurd h (habort.resume _ cfg'),
      fun h => absurd h (loadsWhole_invalid htext hnext cfg cfg')⟩
  | @line n line rest hcount hnext hwhole _ ih =>
    have htake : (line ++ rest).take n = line ++ rest.take (n - line.length) := by
      rw [List.take_append, List.take_of_length_le hwhole]
    have hdrop : (line ++ rest).drop n = rest.drop (n - line.length) := by
      rw [List.drop_append, List.drop_of_length_le hwhole, List.nil_append]
    obtain ⟨hparse, hnext'⟩ : hcfgParse (line ++ rest.take (n - line.length)) = hcfgParse (line ++ rest) ∧
        hcfgNext (line ++ rest.take (n - line.length)) = some (rest.take (n - line.length)) := by
      by_cases hrest : rest = []
      · subst hrest
        rw [List.take_nil]
        exact ⟨rfl, hnext⟩
      · obtain ⟨line', hline', hlocal⟩ := hcfgNext_local hnext hrest
        rw [List.append_cancel_right hline']
        rw [List.append_cancel_right hline'] at hlocal
        exact hlocal _
    rw [htake] at hcount
    rw [htake, hdrop, loadsWhole_line hnext]
    have hset : setLine cfg (line ++ rest.take (n - line.length)) = setLine cfg (line ++ rest) := by
      unfold setLine
      rw [hparse]
    obtain ⟨hnone, hsome⟩ := @hcfgLoadLines_line false _ _ (Or.inl hcount) hnext' cfg
    rw [hset] at hnone hsome
    cases hline : setLine cfg (line ++ rest) with
    | none =>
      exact ⟨fun h => absurd h ((hnone hline).resume _ cfg'), by rintro ⟨cfg₁, hcfg, -⟩; cases hcfg⟩
    | some cfg₁ =>
      rw [hsome cfg₁ hline, ih cfg₁]
      simp
  | @refill n text hcount hn hlong _ ih =>
    rw [hcfgLoadLines_wait hcount, ← ih cfg, ← hcfgLoadLoop_refill hn hlong cfg]
    rfl
  | @last n text hcount hn hshort =>
    rw [hcfgLoadLines_wait hcount, ← hcfgLoadLoop_last hn hshort cfg cfg']
    rfl

/-- `hcfg_load` loads what the whole file has, if the buffer has every line that `line_count` finds there
to its end, and is never full without such a line. -/
theorem hcfg_load_whole {file : Bytes} (h : Buffered 0 file) (cfg cfg' : Hcfg) :
    hcfgLoad cfg file = some (0, cfg') ↔ LoadsWhole cfg file cfg' := by
  have hload := buffered_loads h cfg cfg'
  rw [List.take_zero, List.drop_zero, hcfgLoadLines_wait (by rfl)] at hload
  exact hload

/-! ## Files longer than the buffer -/

lemma lineCountLoop_replicate {stop : Bytes} {c : UInt8} (hc : c ∉ stop) (n : ℕ) (text : Bytes) :
    lineCountLoop stop false (List.replicate n c ++ text) = lineCountLoop stop false text := by
  induction n with
  | zero => rfl
  | succ n ih =>
    rw [List.replicate_succ, List.cons_append, lineCountLoop, if_neg (by simp), if_pos hc]
    exact ih

/-- A comment of `n` characters. -/
def commentLine (n : ℕ) : Bytes := 35 :: (List.replicate n 97 ++ [10])

lemma length_commentLine (n : ℕ) : (commentLine n).length = n + 2 := by
  simp [commentLine]

lemma commentLine_append (n : ℕ) (text : Bytes) :
    commentLine n ++ text = 35 :: (List.replicate n 97 ++ 10 :: text) := by
  simp [commentLine]

lemma lineCount_comment (k : ℕ) (text : Bytes) :
    lineCount (35 :: (List.replicate k 97 ++ text)) = lineCountLoop [10] false text := by
  unfold lineCount
  rw [lineCountLoop, if_neg (by decide), if_neg (by decide), if_neg (by decide), if_neg (by decide),
    if_pos rfl, lineCountLoop_replicate (by decide)]

/-- The buffer has the comment to its end. -/
lemma lineCount_whole {n m : ℕ} (h : n + 2 ≤ m) (text : Bytes) :
    lineCount ((commentLine n ++ text).take m) ≠ 0 := by
  obtain ⟨k, rfl⟩ : ∃ k, m = n + 2 + k := ⟨m - (n + 2), by omega⟩
  have htake : (commentLine n ++ text).take (n + 2 + k) =
      35 :: (List.replicate n 97 ++ 10 :: text.take k) := by
    rw [← length_commentLine n, List.take_length_add_append, commentLine_append]
  rw [htake, lineCount_comment]
  simp [lineCountLoop]

/-- The buffer has only a part of the comment. -/
lemma lineCount_part {n m : ℕ} (h : m ≤ n) (text : Bytes) :
    lineCount ((commentLine n ++ text).take (m + 1)) = 0 := by
  have htake : (commentLine n ++ text).take (m + 1) = 35 :: (List.replicate m 97 ++ []) := by
    rw [commentLine_append, List.take_succ_cons, List.take_append_of_le_length (by simpa using h),
      List.take_replicate, Nat.min_eq_left h, List.append_nil]
  rw [htake, lineCount_comment]
  rfl

lemma comment_line (n : ℕ) (text : Bytes) (cfg : Hcfg) :
    hcfgNext (commentLine n ++ text) = some text ∧ setLine cfg (commentLine n ++ text) = some cfg := by
  have hskip := @hcfgParse_skipped [] (fun c hc => absurd hc List.not_mem_nil) 35 (Or.inr rfl)
    (List.replicate n 97 ++ 10 :: text)
  have hafter : afterLine (35 :: (List.replicate n 97 ++ 10 :: text)) = text := by
    rw [afterLine_of_ne (by decide)]
    unfold afterLine
    rw [List.dropWhile_append_of_pos]
    · rfl
    · intro c hc
      rw [List.eq_of_mem_replicate hc]
      rfl
  rw [List.nil_append, hafter, ← commentLine_append] at hskip
  unfold setLine
  rw [hskip.1, hskip.2]
  exact ⟨rfl, rfl⟩

/-- Two comments, the second of which is cut by the end of the buffer. -/
lemma buffered_comments {n : ℕ} (hfits : n + 2 < hcfgBufsize - 1) {text : Bytes}
    (hlong : hcfgBufsize - 1 < n + 2 + (n + 2)) (hshort : n + 2 + text.length < hcfgBufsize - 1) :
    Buffered 0 (commentLine n ++ (commentLine n ++ text)) := by
  have hcomment := length_commentLine n
  apply Buffered.refill rfl (by decide)
  · rw [List.length_append, List.length_append]
    omega
  · apply Buffered.line (lineCount_whole (by omega) _) (comment_line n _ hcfgAlloc).1 (by omega)
    obtain ⟨m, hm⟩ : ∃ m, hcfgBufsize - 1 - (commentLine n).length = m + 1 :=
      Nat.exists_eq_add_one.mpr (by omega)
    rw [hm]
    apply Buffered.last (lineCount_part (by omega) text) (by omega)
    rw [List.length_append]
    omega

lemma loads_directive : ∃ cfg', LoadsWhole hcfgAlloc (cstr "A=1\n") cfg' := by
  obtain ⟨cfg', hins, -⟩ :=
    hashInsert_spec hcfgAlloc_valid (show SafeInsert hcfgAlloc (cstr "A") from Or.inr (by decide)) (cstr "1")
  have hnext : hcfgNext (cstr "A=1\n") = some [] := by decide
  refine ⟨cfg', (loadsWhole_line hnext _ _).mpr ⟨cfg', ?_, loadsWhole_nil.mpr rfl⟩⟩
  have hparse : hcfgParse (cstr "A=1\n") = some (some (cstr "A"), some (cstr "1")) := by decide
  unfold setLine
  rw [hparse]
  dsimp only
  rw [hins]
  rfl

/-- A file whose second comment is cut by the end of the buffer. -/
theorem two_comments_load :
    ∃ cfg', hcfgLoad hcfgAlloc (commentLine 3000 ++ (commentLine 3000 ++ cstr "A=1\n")) = some (0, cfg') ∧
      LoadsWhole hcfgAlloc (commentLine 3000 ++ (commentLine 3000 ++ cstr "A=1\n")) cfg' := by
  obtain ⟨cfg', hload⟩ := loads_directive
  have hwhole : LoadsWhole hcfgAlloc (commentLine 3000 ++ (commentLine 3000 ++ cstr "A=1\n")) cfg' := by
    obtain ⟨hnext, hset⟩ := comment_line 3000 (commentLine 3000 ++ cstr "A=1\n") hcfgAlloc
    obtain ⟨hnext', hset'⟩ := comment_line 3000 (cstr "A=1\n") hcfgAlloc
    exact (loadsWhole_line hnext _ _).mpr ⟨_, hset, (loadsWhole_line hnext' _ _).mpr ⟨_, hset', hload⟩⟩
  have hfile := @buffered_comments 3000 (by decide) (cstr "A=1\n") (by decide) (by decide)
  exact ⟨cfg', (hcfg_load_whole hfile hcfgAlloc cfg').mpr hwhole, hwhole⟩

/-- A line with a space, and `n` empty lines behind it. -/
def blankLines (n : ℕ) : Bytes := 32 :: List.replicate n 10

lemma loadsWhole_blankLines {n : ℕ} (hn : 0 < n) (text : Bytes) (cfg cfg' : Hcfg) :
    LoadsWhole cfg (blankLines n ++ text) cfg' ↔ LoadsWhole cfg text cfg' := by
  have hnewlines : LoadsWhole cfg (List.replicate n 10 ++ text) cfg' ↔ LoadsWhole cfg text cfg' := by
    clear hn
    induction n with
    | zero => exact Iff.rfl
    | succ n ih =>
      have hnext : hcfgNext (10 :: (List.replicate n 10 ++ text)) = some (List.replicate n 10 ++ text) := rfl
      have hset : setLine cfg (10 :: (List.replicate n 10 ++ text)) = some cfg := rfl
      rw [List.replicate_succ, List.cons_append, loadsWhole_line hnext, hset, ← ih]
      simp
  obtain ⟨m, rfl⟩ := Nat.exists_eq_add_one.mpr hn
  have hnext : hcfgNext (32 :: 10 :: (List.replicate m 10 ++ text)) =
      some (List.replicate m 10 ++ text) := rfl
  have hset : setLine cfg (32 :: 10 :: (List.replicate m 10 ++ text)) = some cfg := rfl
  have hnext' : hcfgNext (10 :: (List.replicate m 10 ++ text)) = some (List.replicate m 10 ++ text) := rfl
  have hset' : setLine cfg (10 :: (List.replicate m 10 ++ text)) = some cfg := rfl
  rw [← hnewlines, blankLines, List.replicate_succ, List.cons_append, List.cons_append,
    loadsWhole_line hnext, hset, loadsWhole_line hnext', hset']

lemma linesBelow_newline {m : ℕ} (hm : 0 < m) (len : ℕ) (text : Bytes) :
    linesBelow m len (10 :: text) = (decide (len + 1 < m) && linesBelow m 0 text) := by
  cases text with
  | nil => simp [linesBelow, hm]
  | cons d text => rw [linesBelow, if_pos rfl]

lemma linesBelow_blankLines {m : ℕ} (hm : 2 < m) {n : ℕ} (hn : 0 < n) {text : Bytes}
    (h : linesBelow m 0 text = true) : linesBelow m 0 (blankLines n ++ text) = true := by
  have hnewlines : ∀ k, linesBelow m 0 (List.replicate k 10 ++ text) = true := by
    intro k
    induction k with
    | zero => exact h
    | succ k ih =>
      rw [List.replicate_succ, List.cons_append, linesBelow_newline (by omega), ih, Bool.and_true]
      exact decide_eq_true (by omega)
  obtain ⟨k, rfl⟩ := Nat.exists_eq_add_one.mpr hn
  rw [blankLines, List.replicate_succ, List.cons_append, List.cons_append, linesBelow,
    if_neg (by decide), if_neg (by decide), linesBelow_newline (by omega), hnewlines, Bool.and_true]
  exact decide_eq_true (by omega)

lemma lineCount_blankLines (n : ℕ) : lineCount (blankLines n) = 0 := by
  have hloop := @lineCountLoop_replicate [61, 35, 92] 10 (by decide) n []
  rw [List.append_nil] at hloop
  unfold blankLines lineCount
  rw [lineCountLoop, if_neg (by decide), if_pos (by decide), hloop]
  rfl

/-- The blank lines fill the buffer, so that the directive behind them is not read. -/
lemma hcfgLoad_blankLines {n : ℕ} (hn : n + 1 = hcfgBufsize - 1) (text : Bytes) (cfg cfg' : Hcfg) :
    hcfgLoad cfg (blankLines n ++ text) ≠ some (0, cfg') := by
  have hlen : (blankLines n).length = hcfgBufsize - 1 := by
    rw [← hn]
    simp [blankLines]
  have hlong : hcfgBufsize - 1 ≤ (blankLines n ++ text).length := by
    rw [List.length_append, hlen]
    omega
  have hload := hcfgLoadLoop_refill (n := 0) (by decide) hlong cfg
  rw [List.take_zero, List.drop_zero, List.take_left' hlen,
    hcfgLoadLines_wait (lineCount_blankLines n)] at hload
  have hspace : hcfgBufsize - ((blankLines n).length + 1) = 0 := by omega
  have hfull : ∀ file, hcfgLoadLoop cfg (blankLines n) file = some (-1, cfg) := by
    intro file
    rw [hcfgLoadLoop]
    simp only [hspace, dif_pos]
  have hfail : hcfgLoad cfg (blankLines n ++ text) = some (-1, cfg) := hload.trans (hfull _)
  rw [hfail]
  simp

theorem blank_lines_overflow :
    ¬ ∀ (cfg : Hcfg) (file : Bytes), linesBelow (hcfgBufsize - 1) 0 file = true →
      ∀ cfg', hcfgLoad cfg file = some (0, cfg') ↔ LoadsWhole cfg file cfg' := by
  intro h
  obtain ⟨cfg', hload⟩ := loads_directive
  have hlines : linesBelow (hcfgBufsize - 1) 0 (blankLines 4094 ++ cstr "A=1\n") = true :=
    linesBelow_blankLines (by decide) (by decide) (by decide)
  have hwhole := (loadsWhole_blankLines (n := 4094) (by decide) (cstr "A=1\n") hcfgAlloc cfg').mpr hload
  exact hcfgLoad_blankLines (by decide) _ hcfgAlloc cfg' ((h _ _ hlines cfg').mpr hwhole)

end ActiveHarmony

import ActiveHarmony.Lib.BoundedBuffer
import ActiveHarmony.Server.CodeGenerator

/-!
# Reading the slave list

`parse_slave_list` scans its list with pointers into it, and `strtol` reads on from wherever the scan is.
The loop of `parseEntries` over the entries is what this comes to, but for a list whose last host has
nothing behind it: there the scan goes on behind the NUL. An entry without a number, or with a number
below -1, is taken for a host without slaves.
-/

namespace ActiveHarmony.CodeServer

open TextScan (isSpace)
open BoundedBuffer (skipWhile skipBelow skipWhile_terminated skipBelow_append skipBelow_of_ge le_skipBelow)

/-! ## The scan -/

/-- `strtol` on the text that starts at `head`: the number and `num_ptr`, or `none` for `ERANGE`. The outer
`none` stands for a read behind the memory. -/
def strtolAt (mem : Bytes) (head : ℕ) : Option (Option (ℤ × ℕ)) :=
  (skipWhile (· != 0) mem head).map fun nul =>
    (strtol ((mem.drop head).take (nul - head))).map fun (num, rest) => (num, nul - rest.length)

/-- One round of the loop of `parse_slave_list`: the new `head`, the host and the number of its slaves, or
the error. The list ends at `fin`. -/
def parseRound (mem : Bytes) (fin head : ℕ) : Option (Option (ℕ × Bytes × ℤ)) := do
  -- without a comma the entry ends where the list does
  let tail ← skipBelow (· != 44) mem fin head
  let hostPtr ← skipBelow isSpace mem tail head
  let head ← skipBelow (fun c => !isSpace c) mem tail hostPtr
  let host := (mem.drop hostPtr).take (head - hostPtr)
  -- `head++` steps over the cell behind the host, whatever it is
  let num ← strtolAt mem (head + 1)
  let (num, head) := num.getD (-1, tail)
  let head ← skipBelow isSpace mem tail head
  return if host = [] ∨ num = -1 ∨ head ≠ tail then none else some (head + 1, host, num)

lemma lt_of_parseRound {mem : Bytes} {fin head next : ℕ} {host : Bytes} {num : ℤ}
    (h : parseRound mem fin head = some (some (next, host, num))) : head < next := by
  obtain ⟨tail, htail, h⟩ := Option.bind_eq_some_iff.mp h
  obtain ⟨hostPtr, -, h⟩ := Option.bind_eq_some_iff.mp h
  obtain ⟨head₁, -, h⟩ := Option.bind_eq_some_iff.mp h
  obtain ⟨res, -, h⟩ := Option.bind_eq_some_iff.mp h
  obtain ⟨head₂, -, h⟩ := Option.bind_eq_some_iff.mp h
  have hle := le_skipBelow htail
  have h := Option.some.inj h
  split_ifs at h with hbad
  obtain ⟨rfl, -⟩ := Prod.mk.inj (Option.some.inj h)
  have hend : head₂ = tail := not_not.mp (not_or.mp (not_or.mp hbad).2).2
  omega

variable {V : Type}

/-- The loop of `parse_slave_list`. -/
def parseSlaveLoop (mem : Bytes) (fin head : ℕ) (genList : List (Generator V)) :
    Option (ℤ × List (Generator V)) :=
  if head < fin then
    match _hround : parseRound mem fin head with
    | none => none
    | some none => some (-1, [])
    | some (some (next, host, num)) => parseSlaveLoop mem fin next (genList ++ newSlots host num)
  else some (0, genList)
termination_by fin - head
decreasing_by
  have := lt_of_parseRound _hround
  omega

/-- `parse_slave_list` on the bytes of the list and the NUL behind them: its return value and the new
`gen_list`. `none` if it reads behind the NUL. -/
def scanSlaveList (hostlist : Bytes) : Option (ℤ × List (Generator V)) :=
  parseSlaveLoop (hostlist ++ [0]) hostlist.length 0 []

/-! ## Numbers -/

/-- The sign in front of a number, and what follows it. -/
def numberSign : Bytes → ℤ × Bytes
  | 45 :: text => (-1, text)
  | 43 :: text => (1, text)
  | text => (1, text)

/-- The digits at the front of a text, behind the sign and the base. -/
def numberDigits (s : Bytes) : Bytes :=
  (numberBase (numberSign s).2).2.takeWhile fun c => digitValue c < (numberBase (numberSign s).2).1

/-- The number that they stand for. -/
def numberValue (s : Bytes) : ℤ :=
  (numberSign s).1 *
    (numberDigits s).foldl (fun n c => (numberBase (numberSign s).2).1 * n + digitValue c) 0

/-- What is behind the number. -/
def numberRest (s : Bytes) : Bytes := (numberBase (numberSign s).2).2.drop (numberDigits s).length

lemma strtol_eq (s : Bytes) :
    strtol s =
      let body := s.dropWhile isSpace
      if numberDigits body = [] then some (0, s)
      else if numberValue body < -2 ^ 63 ∨ 2 ^ 63 ≤ numberValue body then none
      else some (numberValue body, numberRest body) := rfl

/-- The end of the list, or the comma behind an entry. -/
def EndsEntry (rest : Bytes) : Prop := rest = [] ∨ ∃ more, rest = 44 :: more

lemma numberSign_append (s : Bytes) {rest : Bytes} (hrest : EndsEntry rest) :
    numberSign (s ++ rest) = ((numberSign s).1, (numberSign s).2 ++ rest) := by
  cases s with
  | nil =>
    obtain rfl | ⟨more, rfl⟩ := hrest
    · rfl
    · rfl
  | cons c s =>
    by_cases hminus : c = 45
    · subst hminus
      rfl
    by_cases hplus : c = 43
    · subst hplus
      rfl
    · simp [numberSign, hminus, hplus]

lemma EndsEntry.not_digit {rest : Bytes} (h : EndsEntry rest) {base : ℕ} (hbase : base ≤ 16) :
    rest.takeWhile (fun c => digitValue c < base) = [] := by
  obtain rfl | ⟨more, rfl⟩ := h
  · rfl
  · have hcomma : digitValue 44 = 36 := by decide
    rw [List.takeWhile_cons_of_neg]
    rw [hcomma, decide_eq_true_eq]
    omega

lemma EndsEntry.not_space {rest : Bytes} (h : EndsEntry rest) : rest.dropWhile isSpace = rest := by
  obtain rfl | ⟨more, rfl⟩ := h
  · rfl
  · rfl

lemma numberBase_le (s : Bytes) : (numberBase s).1 ≤ 16 := by
  unfold numberBase
  split
  · split_ifs <;> simp
  · simp
  · simp

/-- A comma is no digit, so it makes no difference to the base. -/
lemma numberBase_append (s : Bytes) {rest : Bytes} (hrest : EndsEntry rest) :
    numberBase (s ++ rest) = ((numberBase s).1, (numberBase s).2 ++ rest) := by
  obtain rfl | ⟨more, rfl⟩ := hrest
  · rw [List.append_nil, List.append_nil]
  have hcomma : ¬digitValue 44 < 16 := by decide
  match s with
  | [] => rfl
  | [c] =>
    by_cases hc : c = 48
    · subst hc
      cases more with
      | nil => rfl
      | cons d more => simp [numberBase]
    · simp [numberBase, hc]
  | [c, x] =>
    by_cases hc : c = 48
    · subst hc
      simp [numberBase, hcomma]
    · simp [numberBase, hc]
  | c :: x :: d :: s =>
    by_cases hc : c = 48
    · subst hc
      simp only [numberBase, List.cons_append]
      split_ifs <;> rfl
    · simp [numberBase, hc]

/-- `strtol` does not look beyond a comma. -/
lemma strtol_append (s : Bytes) {rest : Bytes} (hrest : EndsEntry rest) :
    strtol (s ++ rest) = (strtol s).map fun res => (res.1, res.2 ++ rest) := by
  have hbody : (s ++ rest).dropWhile isSpace = s.dropWhile isSpace ++ rest := by
    rw [List.dropWhile_append]
    split_ifs with hblank
    · rw [hrest.not_space, List.isEmpty_iff.mp hblank]
      rfl
    · rfl
  rw [strtol_eq, strtol_eq, hbody]
  dsimp only
  generalize s.dropWhile isSpace = body
  have hsign := numberSign_append body hrest
  have hbase := numberBase_append (numberSign body).2 hrest
  have hdigits : numberDigits (body ++ rest) = numberDigits body := by
    unfold numberDigits
    rw [hsign, hbase, List.takeWhile_append]
    split_ifs with hall
    · rw [hrest.not_digit (numberBase_le _), List.append_nil]
      exact ((List.takeWhile_prefix _).eq_of_length hall).symm
    · rfl
  have hvalue : numberValue (body ++ rest) = numberValue body := by
    unfold numberValue
    rw [hdigits, hsign, hbase]
  have hleft : numberRest (body ++ rest) = numberRest body ++ rest := by
    unfold numberRest
    rw [hdigits, hsign, hbase]
    exact List.drop_append_of_le_length (List.takeWhile_prefix _).length_le
  rw [hdigits, hvalue, hleft]
  split_ifs <;> rfl

lemma numberSign_suffix (s : Bytes) : (numberSign s).2 <:+ s := by
  unfold numberSign
  split
  · exact List.suffix_cons _ _
  · exact List.suffix_cons _ _
  · exact List.suffix_refl _

lemma numberBase_suffix (s : Bytes) : (numberBase s).2 <:+ s := by
  unfold numberBase
  split
  · split_ifs
    · exact ⟨[_, _], rfl⟩
    · exact List.suffix_refl _
  · exact List.suffix_refl _
  · exact List.suffix_refl _

/-- What `strtol` leaves is the end of the text. -/
lemma strtol_suffix {s rest : Bytes} {num : ℤ} (h : strtol s = some (num, rest)) : rest <:+ s := by
  rw [strtol_eq] at h
  dsimp only at h
  split_ifs at h
  · obtain ⟨-, rfl⟩ := Prod.mk.inj (Option.some.inj h)
    exact List.suffix_refl _
  · obtain ⟨-, rfl⟩ := Prod.mk.inj (Option.some.inj h)
    exact ((List.drop_suffix _ _).trans (numberBase_suffix _)).trans
      ((numberSign_suffix _).trans (List.dropWhile_suffix _))

/-- Blanks in front of a number make no difference. -/
lemma strtol_blanks {gap s rest : Bytes} {num : ℤ} (hgap : ∀ c ∈ gap, isSpace c = true)
    (h : strtol s = some (num, rest)) (hread : rest.length < s.length) :
    strtol (gap ++ s) = some (num, rest) := by
  have hbody : (gap ++ s).dropWhile isSpace = s.dropWhile isSpace := by
    rw [List.dropWhile_append, List.dropWhile_eq_nil_iff.mpr hgap]
    rfl
  rw [strtol_eq] at h ⊢
  rw [hbody]
  dsimp only at h ⊢
  split_ifs at h with hdigits hrange
  · obtain ⟨-, rfl⟩ := Prod.mk.inj (Option.some.inj h)
    exact absurd hread (lt_irrefl _)
  · rw [if_neg hdigits, if_neg hrange]
    exact h

/-! ## One entry -/

/-- The host at the front of an entry. -/
def entryHost (entry : Bytes) : Bytes := (entry.dropWhile isSpace).takeWhile fun c => !isSpace c

/-- What is behind the host: nothing, or a blank and a text. -/
def behindHost (entry : Bytes) : Bytes := (entry.dropWhile isSpace).dropWhile fun c => !isSpace c

lemma entry_eq (entry : Bytes) :
    entry.takeWhile isSpace ++ (entryHost entry ++ behindHost entry) = entry := by
  unfold entryHost behindHost
  rw [List.takeWhile_append_dropWhile, List.takeWhile_append_dropWhile]

lemma parseSlave_eq (entry : Bytes) :
    parseSlave entry = match behindHost entry with
      | [] => none
      | _ :: more => match strtol more with
        | none => none
        | some (num, rest) =>
          if entryHost entry = [] ∨ num = -1 ∨ rest.dropWhile isSpace ≠ [] then none
          else some (entryHost entry, num) := by
  have hpred : (fun c => decide ¬isSpace c = true) = fun c => !isSpace c := by
    funext c
    cases isSpace c <;> rfl
  unfold parseSlave entryHost behindHost
  simp only [hpred]
  rfl

lemma strtolAt_text (pre : Bytes) {text : Bytes} (htext : 0 ∉ text) :
    strtolAt (pre ++ (text ++ [0])) pre.length =
      some ((strtol text).map fun res => (res.1, pre.length + text.length - res.2.length)) := by
  have hnul : text.takeWhile (· != 0) = text := by
    rw [List.takeWhile_eq_self_iff]
    intro c hc
    exact bne_iff_ne.mpr (fun h => htext (h ▸ hc))
  have hskip := skipWhile_terminated (p := fun c : UInt8 => c != 0) (z := 0) rfl pre text []
  have hcells : ((pre ++ (text ++ [0])).drop pre.length).take text.length = text := by
    rw [List.drop_left, List.take_left]
  rw [hnul] at hskip
  rw [strtolAt, hskip, Option.map_some, Nat.add_sub_cancel_left, hcells]

lemma strtolAt_end (mem : Bytes) : strtolAt mem mem.length = none := by
  have hskip : skipWhile (fun c : UInt8 => c != 0) mem mem.length = none := by
    rw [skipWhile]
    split
    · rfl
    · next c hread =>
      rw [BoundedBuffer.read_end] at hread
      cases hread
  rw [strtolAt, hskip]
  rfl

/-- The scan of one entry up to the cell behind its host. -/
lemma parseRound_host (pre entry rest : Bytes) (hentry : 44 ∉ entry) (hrest : EndsEntry rest) :
    parseRound (pre ++ (entry ++ (rest ++ [0]))) (pre.length + (entry.length + rest.length)) pre.length =
      (strtolAt (pre ++ (entry ++ (rest ++ [0])))
        (pre.length + (entry.takeWhile isSpace).length + (entryHost entry).length + 1)).bind fun num =>
      let (num, head) := num.getD (-1, pre.length + entry.length)
      (skipBelow isSpace (pre ++ (entry ++ (rest ++ [0]))) (pre.length + entry.length) head).bind fun head =>
      some (if entryHost entry = [] ∨ num = -1 ∨ head ≠ pre.length + entry.length then none
        else some (head + 1, entryHost entry, num)) := by
  have hcomma : (entry ++ rest).takeWhile (fun c : UInt8 => c != 44) = entry := by
    have hall : entry.takeWhile (fun c : UInt8 => c != 44) = entry := by
      rw [List.takeWhile_eq_self_iff]
      intro c hc
      exact bne_iff_ne.mpr (fun h => hentry (h ▸ hc))
    rw [List.takeWhile_append, hall, if_pos rfl]
    obtain rfl | ⟨more, rfl⟩ := hrest
    · simp
    · simp
  have htail := skipBelow_append (fun c : UInt8 => c != 44) pre (entry ++ rest) [0]
  rw [hcomma, List.length_append, List.append_assoc] at htail
  have hhost := skipBelow_append isSpace pre entry (rest ++ [0])
  -- the entry is its leading blanks, the host and what is behind
  have hsplit := entry_eq entry
  have htake : (entryHost entry ++ behindHost entry).takeWhile (fun c => !isSpace c) = entryHost entry := by
    have hdrop : entryHost entry ++ behindHost entry = entry.dropWhile isSpace :=
      List.takeWhile_append_dropWhile
    rw [hdrop]
    rfl
  generalize entry.takeWhile isSpace = lead at hhost hsplit ⊢
  generalize entryHost entry = host at hsplit htake ⊢
  generalize behindHost entry = behind at hsplit htake
  subst hsplit
  have hhead := skipBelow_append (fun c => !isSpace c) (pre ++ lead) (host ++ behind) (rest ++ [0])
  have hcells : ((pre ++ (lead ++ (host ++ behind) ++ (rest ++ [0]))).drop
      (pre ++ lead).length).take host.length = host := by
    rw [show pre ++ (lead ++ (host ++ behind) ++ (rest ++ [0])) =
      (pre ++ lead) ++ (host ++ (behind ++ (rest ++ [0]))) by simp, List.drop_left, List.take_left]
  rw [htake] at hhead
  rw [show (pre ++ lead) ++ ((host ++ behind) ++ (rest ++ [0])) =
    pre ++ (lead ++ (host ++ behind) ++ (rest ++ [0])) by simp,
    show (pre ++ lead).length + (host ++ behind).length = pre.length + (lead ++ (host ++ behind)).length by
      simp only [List.length_append]; omega] at hhead
  have hat : (pre ++ lead).length = pre.length + lead.length := List.length_append
  rw [hat] at hhead hcells
  unfold parseRound
  rw [htail]
  show (skipBelow isSpace _ _ _).bind _ = _
  rw [hhost]
  show (skipBelow (fun c => !isSpace c) _ _ _).bind _ = _
  rw [hhead, Option.bind_some]
  rw [Nat.add_sub_cancel_left, hcells]
  rfl

/-- A host with nothing behind it: at the end of the list the scan leaves the memory, and in front of a
comma `strtol` reads the next entry, so the scan is not where this one ends. -/
lemma parseRound_bare (pre entry rest : Bytes) (hentry : 44 ∉ entry) (hrest : EndsEntry rest)
    (hzero : 0 ∉ entry ++ rest) (hbehind : behindHost entry = []) :
    parseRound (pre ++ (entry ++ (rest ++ [0]))) (pre.length + (entry.length + rest.length)) pre.length =
      if rest = [] then none else some none := by
  have hlen : (entry.takeWhile isSpace).length + (entryHost entry).length = entry.length := by
    have hsplit := congrArg List.length (entry_eq entry)
    rw [hbehind, List.append_nil, List.length_append] at hsplit
    exact hsplit
  rw [parseRound_host pre entry rest hentry hrest,
    show pre.length + (entry.takeWhile isSpace).length + (entryHost entry).length + 1 =
      pre.length + entry.length + 1 by omega]
  obtain rfl | ⟨more, rfl⟩ := hrest
  · have hend : (pre ++ (entry ++ ([] ++ [0]))).length = pre.length + entry.length + 1 := by
      simp only [List.length_append, List.length_singleton, List.nil_append]
      omega
    rw [← hend, strtolAt_end]
    rfl
  · have hmore : 0 ∉ more := fun h => hzero (List.mem_append_right _ (List.mem_cons_of_mem _ h))
    have htext := strtolAt_text (pre ++ (entry ++ [44])) hmore
    rw [show pre ++ (entry ++ [44]) ++ (more ++ [0]) = pre ++ (entry ++ (44 :: more ++ [0])) by simp,
      show (pre ++ (entry ++ ([44] : Bytes))).length = pre.length + entry.length + 1 by
        simp only [List.length_append, List.length_singleton]; omega] at htext
    rw [htext, Option.bind_some, if_neg (List.cons_ne_nil _ _)]
    cases hnum : strtol more with
    | none =>
      show (skipBelow isSpace _ _ (pre.length + entry.length)).bind _ = _
      rw [skipBelow_of_ge _ _ (le_refl _)]
      simp
    | some res =>
      obtain ⟨num, left⟩ := res
      have hle := (strtol_suffix hnum).length_le
      show (skipBelow isSpace _ _ (pre.length + entry.length + 1 + more.length - left.length)).bind _ = _
      rw [skipBelow_of_ge _ _ (by omega), Option.bind_some, if_pos]
      exact Or.inr (Or.inr (by omega))

/-- A host with a blank behind it: what `strtol` reads and leaves is up to the rest of the entry. -/
lemma parseRound_blank (pre entry rest : Bytes) (hentry : 44 ∉ entry) (hrest : EndsEntry rest)
    (hzero : 0 ∉ entry ++ rest) {b : UInt8} {more : Bytes} (hbehind : behindHost entry = b :: more) :
    parseRound (pre ++ (entry ++ (rest ++ [0]))) (pre.length + (entry.length + rest.length)) pre.length =
      some ((parseSlave entry).map fun slave => (pre.length + entry.length + 1, slave)) := by
  have hsplit := entry_eq entry
  rw [hbehind] at hsplit
  rw [parseRound_host pre entry rest hentry hrest, parseSlave_eq, hbehind]
  generalize entry.takeWhile isSpace = lead at hsplit ⊢
  generalize entryHost entry = host at hsplit ⊢
  clear hbehind hentry
  subst hsplit
  have hmore : 0 ∉ more ++ rest := fun h => hzero (by
    obtain h | h := List.mem_append.mp h
    · simp [h]
    · simp [h])
  have htext := strtolAt_text (pre ++ (lead ++ (host ++ [b]))) hmore
  rw [show pre ++ (lead ++ (host ++ [b])) ++ (more ++ rest ++ [0]) =
      pre ++ (lead ++ (host ++ b :: more) ++ (rest ++ [0])) by simp,
    show (pre ++ (lead ++ (host ++ [b]))).length = pre.length + lead.length + host.length + 1 by
      simp only [List.length_append, List.length_singleton]; omega, strtol_append more hrest] at htext
  have htail : pre.length + (lead ++ (host ++ b :: more)).length =
      pre.length + lead.length + host.length + 1 + more.length := by
    simp only [List.length_append, List.length_cons]
    omega
  rw [htext, Option.bind_some, htail]
  dsimp only
  cases hnum : strtol more with
  | none =>
    show (skipBelow isSpace _ _ (pre.length + lead.length + host.length + 1 + more.length)).bind _ = _
    rw [skipBelow_of_ge _ _ (le_refl _)]
    simp
  | some res =>
    obtain ⟨num, left⟩ := res
    obtain ⟨number, rfl⟩ := strtol_suffix hnum
    have hskip := skipBelow_append isSpace (pre ++ (lead ++ (host ++ b :: number))) left (rest ++ [0])
    rw [show pre ++ (lead ++ (host ++ b :: number)) ++ (left ++ (rest ++ [0])) =
        pre ++ (lead ++ (host ++ b :: (number ++ left)) ++ (rest ++ [0])) by simp,
      show (pre ++ (lead ++ (host ++ b :: number))).length =
        pre.length + lead.length + host.length + 1 + number.length by
        simp only [List.length_append, List.length_cons]; omega] at hskip
    have hpos : pre.length + lead.length + host.length + 1 + (number ++ left ++ rest).length -
        (left ++ rest).length = pre.length + lead.length + host.length + 1 + number.length := by
      simp only [List.length_append]
      omega
    have hbound : pre.length + lead.length + host.length + 1 + (number ++ left).length =
        pre.length + lead.length + host.length + 1 + number.length + left.length := by
      rw [List.length_append]
      omega
    simp only [Option.map_some, Option.getD_some]
    rw [hpos, hbound, hskip, Option.bind_some]
    -- the skipping ends at the end of the entry when only blanks are left
    have hall : pre.length + lead.length + host.length + 1 + number.length + (left.takeWhile isSpace).length ≠
        pre.length + lead.length + host.length + 1 + number.length + left.length ↔
          left.dropWhile isSpace ≠ [] := by
      have hcount := congrArg List.length (List.takeWhile_append_dropWhile (p := isSpace) (l := left))
      rw [List.length_append] at hcount
      rw [Ne, Ne, ← List.length_eq_zero_iff]
      omega
    by_cases hbad : host = [] ∨ num = -1 ∨ left.dropWhile isSpace ≠ []
    · rw [if_pos hbad, if_pos (hbad.imp_right (Or.imp_right hall.mpr))]
      rfl
    · rw [if_neg hbad, if_neg (fun h => hbad (h.imp_right (Or.imp_right hall.mp)))]
      have hend : left.dropWhile isSpace = [] := by
        by_contra hne
        exact hbad (Or.inr (Or.inr hne))
      have hlen : (left.takeWhile isSpace).length = left.length := by
        by_contra hne
        exact hall.mp (by omega) hend
      rw [hlen]
      rfl

lemma parseRound_eq (pre entry rest : Bytes) (hentry : 44 ∉ entry) (hrest : EndsEntry rest)
    (hzero : 0 ∉ entry ++ rest) :
    parseRound (pre ++ (entry ++ (rest ++ [0]))) (pre.length + (entry.length + rest.length)) pre.length =
      match parseSlave entry with
      | some slave => some (some (pre.length + entry.length + 1, slave))
      | none => if rest = [] ∧ behindHost entry = [] then none else some none := by
  cases hbehind : behindHost entry with
  | nil =>
    have hnone : parseSlave entry = none := by rw [parseSlave_eq, hbehind]
    rw [parseRound_bare pre entry rest hentry hrest hzero hbehind, hnone]
    simp
  | cons b more =>
    rw [parseRound_blank pre entry rest hentry hrest hzero hbehind]
    cases parseSlave entry with
    | none => simp
    | some slave => rfl

/-! ## The list -/

lemma parseSlaveLoop_step (mem : Bytes) {fin head : ℕ} (h : head < fin) (genList : List (Generator V)) :
    parseSlaveLoop mem fin head genList =
      match parseRound mem fin head with
      | none => none
      | some none => some (-1, [])
      | some (some (next, host, num)) => parseSlaveLoop mem fin next (genList ++ newSlots host num) := by
  rw [parseSlaveLoop, if_pos h]
  split
  · next heq => rw [heq]
  · next heq => rw [heq]
  · next heq => rw [heq]

lemma behindHost_eq_nil_iff (entry : Bytes) :
    behindHost entry = [] ↔ (entry.dropWhile isSpace).all (fun c => ¬isSpace c) = true := by
  unfold behindHost
  rw [List.dropWhile_eq_nil_iff, List.all_eq_true]
  simp

lemma parseEntries_cons {entry : Bytes} {entries : List Bytes} (h : ¬(entry = [] ∧ entries = []))
    (genList : List (Generator V)) :
    parseEntries (entry :: entries) genList =
      match parseSlave entry with
      | some (host, num) => parseEntries entries (genList ++ newSlots host num)
      | none => if entries = [] ∧ behindHost entry = [] then none else some (-1, []) := by
  rw [parseEntries, if_neg h]
  cases parseSlave entry with
  | none => simp only [behindHost_eq_nil_iff]
  | some slave => rfl

/-- The loop of `parse_slave_list` from an entry on is the loop over the entries that are left. -/
theorem parseSlaveLoop_eq (pre text : Bytes) (hzero : 0 ∉ text) (genList : List (Generator V)) :
    parseSlaveLoop (pre ++ (text ++ [0])) (pre.length + text.length) pre.length genList =
      parseEntries (text.splitOn 44) genList := by
  induction hlen : text.length using Nat.strong_induction_on generalizing pre text genList with
  | _ n ih =>
    subst hlen
    by_cases hcomma : 44 ∈ text
    · -- the first entry, a comma, and the others
      obtain ⟨entry, more, rfl, hentry⟩ := List.eq_append_cons_of_mem hcomma
      have hsplit : (entry ++ 44 :: more).splitOn 44 = entry :: more.splitOn 44 :=
        List.splitOn_append_cons_self_of_not_mem hentry more
      have hothers : more.splitOn 44 ≠ [] := List.splitOn_ne_nil 44 more
      have hround := parseRound_eq pre entry (44 :: more) hentry (Or.inr ⟨more, rfl⟩) hzero
      rw [hsplit, parseEntries_cons (fun h => hothers h.2), parseSlaveLoop_step _ (by simp),
        List.append_assoc, List.length_append, hround]
      cases parseSlave entry with
      | none => simp [hothers]
      | some slave =>
        obtain ⟨host, num⟩ := slave
        have hmore : 0 ∉ more := fun h => hzero (List.mem_append_right _ (List.mem_cons_of_mem _ h))
        have hnext := ih more.length (by simp; omega) (pre ++ (entry ++ [44])) more hmore
          (genList ++ newSlots host num) rfl
        rw [show pre ++ (entry ++ [44]) ++ (more ++ [0]) = pre ++ (entry ++ (44 :: more ++ [0])) by simp,
          show (pre ++ (entry ++ ([44] : Bytes))).length = pre.length + entry.length + 1 by
            simp only [List.length_append, List.length_singleton]; omega] at hnext
        show parseSlaveLoop _ _ _ _ = parseEntries (more.splitOn 44) _
        rw [← hnext, List.length_cons]
        congr 1
        omega
    · -- the last entry, which is not one if it is empty
      rw [List.splitOn_eq_singleton hcomma]
      by_cases hempty : text = []
      · subst hempty
        rw [parseSlaveLoop, if_neg (by simp)]
        rfl
      · have hround := parseRound_eq pre text [] hcomma (Or.inl rfl) (by simpa using hzero)
        have hlt : pre.length < pre.length + text.length :=
          Nat.lt_add_of_pos_right (List.length_pos_iff.mpr hempty)
        rw [parseEntries_cons (fun h => hempty h.1), parseSlaveLoop_step _ hlt]
        rw [List.nil_append, List.length_nil, Nat.add_zero] at hround
        rw [hround]
        cases parseSlave text with
        | none =>
          dsimp only
          split_ifs <;> simp_all
        | some slave =>
          show parseSlaveLoop _ _ _ _ = some (0, _)
          rw [parseSlaveLoop, if_neg (by omega)]

/-- `parse_slave_list` on a string goes through its entries. -/
theorem scanSlaveList_eq {hostlist : Bytes} (hzero : 0 ∉ hostlist) :
    scanSlaveList (V := V) hostlist = parseSlaveList hostlist := by
  have hloop := parseSlaveLoop_eq (V := V) [] hostlist hzero []
  rw [List.nil_append, List.length_nil, Nat.zero_add] at hloop
  exact hloop

/-! ## What the list is for -/

/-- An entry that names a host and the number of its slaves: `strtol` reads the number and leaves blanks. -/
def IsSlave (entry host : Bytes) (num : ℤ) : Prop :=
  ∃ lead gap number behind, entry = lead ++ (host ++ (gap ++ number)) ∧
    lead.all isSpace = true ∧ (host ≠ [] ∧ host.all (fun c => !isSpace c) = true) ∧
    (gap ≠ [] ∧ gap.all isSpace = true) ∧
    (strtol number = some (num, behind) ∧ behind.length < number.length) ∧
    behind.all isSpace = true ∧ 0 ≤ num

/-- Nothing behind a last comma is no entry. -/
def dropEmptyLast (entries : List Bytes) : List Bytes :=
  if entries.getLast? = some [] then entries.dropLast else entries

/-- The entries of a list. -/
def slaveEntries (hostlist : Bytes) : List Bytes := dropEmptyLast (hostlist.splitOn 44)

/-- What a list is for: with a host and a number in every entry, the slots of all hosts in order, and -1
with no slots otherwise. -/
def ParsesSlaves (hostlist : Bytes) (result : Option (ℤ × List (Generator V))) : Prop :=
  (∃ slaves : List (Bytes × ℤ),
    List.Forall₂ (fun entry slave => IsSlave entry slave.1 slave.2) (slaveEntries hostlist) slaves ∧
    result = some (0, slaves.flatMap fun slave => newSlots slave.1 slave.2)) ∨
  ((∃ entry ∈ slaveEntries hostlist, ∀ host num, ¬IsSlave entry host num) ∧ result = some (-1, []))

/-- An entry that `parse_slave_list` refuses: nothing separates its host from a comma, or the number
behind the host is out of range or -1, or something else is there than blanks. -/
def Refused (entry : Bytes) (others : List Bytes) : Prop :=
  match behindHost entry with
  | [] => others ≠ []
  | _ :: more => ∀ num rest, strtol more = some (num, rest) → num = -1 ∨ rest.dropWhile isSpace ≠ []

/-- An entry as it was put together. -/
lemma entry_parts {lead host behind : Bytes} (hlead : lead.all isSpace = true)
    (hhost : host ≠ [] ∧ host.all (fun c => !isSpace c) = true)
    (hbehind : ∃ b more, behind = b :: more ∧ isSpace b = true) :
    entryHost (lead ++ (host ++ behind)) = host ∧ behindHost (lead ++ (host ++ behind)) = behind := by
  obtain ⟨hne, hchars⟩ := hhost
  have hall := List.all_eq_true.mp hchars
  obtain ⟨b, more, rfl, hb⟩ := hbehind
  have hdrop : (lead ++ (host ++ b :: more)).dropWhile isSpace = host ++ b :: more := by
    obtain ⟨c, host', rfl⟩ := List.exists_cons_of_ne_nil hne
    have hc : isSpace c = false := by simpa using hall c List.mem_cons_self
    rw [List.dropWhile_append, List.dropWhile_eq_nil_iff.mpr (List.all_eq_true.mp hlead)]
    show (c :: (host' ++ b :: more)).dropWhile isSpace = _
    rw [List.dropWhile_cons_of_neg (by simp [hc])]
    rfl
  unfold entryHost behindHost
  rw [hdrop, List.takeWhile_append, List.dropWhile_append, List.takeWhile_eq_self_iff.mpr hall,
    List.dropWhile_eq_nil_iff.mpr hall]
  simp [hb]

/-- `parse_slave_list` reads what it should from such an entry. -/
lemma parseSlave_of_isSlave {entry host : Bytes} {num : ℤ} (h : IsSlave entry host num) :
    parseSlave entry = some (host, num) := by
  obtain ⟨lead, gap, number, behind, rfl, hlead, hhost, ⟨hgap, hblank⟩, ⟨hnum, hread⟩, hbehind, hpos⟩ := h
  obtain ⟨b, gap, rfl⟩ := List.exists_cons_of_ne_nil hgap
  have hall := List.all_eq_true.mp hblank
  obtain ⟨hname, hrest⟩ := entry_parts hlead hhost
    ⟨b, gap ++ number, rfl, hall b List.mem_cons_self⟩
  have hstrtol : strtol (gap ++ number) = some (num, behind) :=
    strtol_blanks (fun c hc => hall c (List.mem_cons_of_mem _ hc)) hnum hread
  have hend : behind.dropWhile isSpace = [] := List.dropWhile_eq_nil_iff.mpr (List.all_eq_true.mp hbehind)
  rw [List.cons_append] at *
  rw [parseSlave_eq, hrest, hname]
  simp only [hstrtol, hend]
  rw [if_neg]
  rintro (h | h | h)
  · exact hhost.1 h
  · omega
  · exact h rfl

/-- Where something is behind the host, there is a host. -/
lemma entryHost_ne_nil {entry : Bytes} (h : behindHost entry ≠ []) : entryHost entry ≠ [] := by
  unfold entryHost
  unfold behindHost at h
  cases hdrop : entry.dropWhile isSpace with
  | nil => simp [hdrop] at h
  | cons c rest =>
    have hc := List.head?_dropWhile_not isSpace entry
    rw [hdrop] at hc
    rw [List.takeWhile_cons_of_pos (by simpa using hc)]
    exact List.cons_ne_nil _ _

lemma refused_iff (entry : Bytes) (others : List Bytes) :
    Refused entry others ↔ parseSlave entry = none ∧ ¬(others = [] ∧ behindHost entry = []) := by
  unfold Refused
  rw [parseSlave_eq]
  cases hbehind : behindHost entry with
  | nil => simp
  | cons b more =>
    have hhost : entryHost entry ≠ [] := entryHost_ne_nil (by rw [hbehind]; exact List.cons_ne_nil _ _)
    dsimp only
    cases strtol more with
    | none => simp
    | some res =>
      obtain ⟨num, rest⟩ := res
      simp only [Option.some.injEq, Prod.mk.injEq, hhost, false_or, reduceCtorEq, and_false,
        not_false_eq_true, and_true]
      constructor
      · intro h
        rw [if_pos (h num rest ⟨rfl, rfl⟩)]
      · rintro h num' rest' ⟨rfl, rfl⟩
        by_contra hok
        rw [if_neg hok] at h
        cases h

lemma dropEmptyLast_cons {entry : Bytes} {entries : List Bytes} (h : ¬(entry = [] ∧ entries = [])) :
    dropEmptyLast (entry :: entries) = entry :: dropEmptyLast entries := by
  by_cases hlast : entries = []
  · subst hlast
    have hne : entry ≠ [] := fun heq => h ⟨heq, rfl⟩
    simp [dropEmptyLast, hne]
  · unfold dropEmptyLast
    rw [List.getLast?_cons, List.getLast?_eq_some_getLast hlast, List.dropLast_cons_of_ne_nil hlast]
    simp only [Option.getD_some]
    split_ifs <;> rfl

/-! ## What the loop over the entries returns -/

/-- An entry that is refused ends the loop with -1, as all entries before have one behind them. -/
lemma parseEntries_refused (front : List Bytes) {entry : Bytes} {others : List Bytes}
    (h : Refused entry others) (genList : List (Generator V)) :
    parseEntries (front ++ entry :: others) genList = some (-1, []) := by
  induction front generalizing genList with
  | nil =>
    obtain ⟨hnone, hnot⟩ := (refused_iff entry others).mp h
    have hentry : ¬(entry = [] ∧ others = []) := by
      rintro ⟨rfl, rfl⟩
      exact hnot ⟨rfl, rfl⟩
    rw [List.nil_append, parseEntries_cons hentry, hnone]
    exact if_neg hnot
  | cons first front ih =>
    have hne : front ++ entry :: others ≠ [] := by simp
    rw [List.cons_append, parseEntries_cons (fun hand => hne hand.2)]
    cases parseSlave first with
    | none => exact if_neg (fun hand => hne hand.1)
    | some slave => exact ih _

/-- Without one, the loop returns 0 or leaves the memory. -/
lemma parseEntries_accepted (entries : List Bytes)
    (h : ∀ front entry others, entries = front ++ entry :: others → ¬Refused entry others)
    (genList : List (Generator V)) :
    parseEntries entries genList = none ∨ ∃ gens, parseEntries entries genList = some (0, gens) := by
  induction entries generalizing genList with
  | nil => exact Or.inr ⟨genList, rfl⟩
  | cons entry entries ih =>
    by_cases hempty : entry = [] ∧ entries = []
    · rw [parseEntries, if_pos hempty]
      exact Or.inr ⟨genList, rfl⟩
    rw [parseEntries_cons hempty]
    cases hslave : parseSlave entry with
    | none =>
      have hnot := h [] entry entries rfl
      rw [refused_iff, not_and, not_not] at hnot
      exact Or.inl (if_pos (hnot hslave))
    | some slave =>
      refine ih (fun front entry' others heq => ?_) _
      exact h (entry :: front) entry' others (by rw [heq]; rfl)

/-- Where every entry names a host and a number, the loop makes their slots. -/
lemma parseEntries_slaves {entries : List Bytes} {slaves : List (Bytes × ℤ)}
    (h : List.Forall₂ (fun entry slave => IsSlave entry slave.1 slave.2) (dropEmptyLast entries) slaves)
    (genList : List (Generator V)) :
    parseEntries entries genList =
      some (0, genList ++ slaves.flatMap fun slave => newSlots slave.1 slave.2) := by
  induction entries generalizing slaves genList with
  | nil =>
    obtain rfl := List.forall₂_nil_left_iff.mp h
    rw [List.flatMap_nil, List.append_nil]
    rfl
  | cons entry entries ih =>
    by_cases hempty : entry = [] ∧ entries = []
    · obtain ⟨rfl, rfl⟩ := hempty
      obtain rfl := List.forall₂_nil_left_iff.mp h
      rw [List.flatMap_nil, List.append_nil]
      rfl
    rw [dropEmptyLast_cons hempty] at h
    obtain ⟨slave, slaves', hslave, hothers, rfl⟩ := List.forall₂_cons_left_iff.mp h
    rw [parseEntries_cons hempty, parseSlave_of_isSlave hslave]
    show parseEntries entries (genList ++ newSlots slave.1 slave.2) = _
    rw [ih hothers, List.flatMap_cons, List.append_assoc]

/-- An entry of the list that is refused is one of its entries. -/
lemma mem_dropEmptyLast {front others : List Bytes} {entry : Bytes} (h : Refused entry others) :
    entry ∈ dropEmptyLast (front ++ entry :: others) := by
  have hentry : ¬(entry = [] ∧ others = []) := by
    rintro ⟨rfl, rfl⟩
    exact ((refused_iff [] []).mp h).2 ⟨rfl, rfl⟩
  induction front with
  | nil =>
    rw [List.nil_append, dropEmptyLast_cons hentry]
    exact List.mem_cons_self
  | cons first front ih =>
    rw [List.cons_append, dropEmptyLast_cons (by simp)]
    exact List.mem_cons_of_mem _ ih

lemma exists_slaves_iff {entries : List Bytes} :
    (∃ slaves : List (Bytes × ℤ),
      List.Forall₂ (fun entry slave => IsSlave entry slave.1 slave.2) entries slaves) ↔
      ∀ entry ∈ entries, ∃ host num, IsSlave entry host num := by
  induction entries with
  | nil => simp
  | cons entry entries ih =>
    rw [List.forall_mem_cons, ← ih]
    constructor
    · rintro ⟨slaves, hslaves⟩
      obtain ⟨slave, slaves', hslave, hothers, -⟩ := List.forall₂_cons_left_iff.mp hslaves
      exact ⟨⟨slave.1, slave.2, hslave⟩, slaves', hothers⟩
    · rintro ⟨⟨host, num, hslave⟩, slaves, hothers⟩
      exact ⟨(host, num) :: slaves, List.Forall₂.cons hslave hothers⟩

/-- `parse_slave_list` reads a list as it should if and only if every entry names a host and a number from
0 on, or some entry is one that it refuses. -/
theorem scanSlaveList_iff {hostlist : Bytes} (hzero : 0 ∉ hostlist) :
    ParsesSlaves hostlist (scanSlaveList (V := V) hostlist) ↔
      (∀ entry ∈ slaveEntries hostlist, ∃ host num, IsSlave entry host num) ∨
        ∃ front entry others, hostlist.splitOn 44 = front ++ entry :: others ∧ Refused entry others := by
  rw [scanSlaveList_eq hzero]
  unfold ParsesSlaves parseSlaveList slaveEntries
  generalize hostlist.splitOn 44 = entries
  constructor
  · rintro (⟨slaves, hslaves, -⟩ | ⟨-, hminus⟩)
    · exact Or.inl (exists_slaves_iff.mp ⟨slaves, hslaves⟩)
    · right
      by_contra hnone
      have hnot : ∀ front entry others, entries = front ++ entry :: others → ¬Refused entry others :=
        fun front entry others heq href => hnone ⟨front, entry, others, heq, href⟩
      obtain hout | ⟨gens, hzero'⟩ := parseEntries_accepted (V := V) entries hnot []
      · rw [hout] at hminus
        cases hminus
      · rw [hzero'] at hminus
        simp at hminus
  · rintro (hall | ⟨front, entry, others, rfl, href⟩)
    · obtain ⟨slaves, hslaves⟩ := exists_slaves_iff.mpr hall
      exact Or.inl ⟨slaves, hslaves, by rw [parseEntries_slaves hslaves, List.nil_append]⟩
    · refine Or.inr ⟨⟨entry, mem_dropEmptyLast href, fun host num hslave => ?_⟩,
        parseEntries_refused front href []⟩
      have hnone := ((refused_iff entry others).mp href).1
      rw [parseSlave_of_isSlave hslave] at hnone
      cases hnone

/-- A list of two hosts. -/
theorem scanSlaveList_iff_two : ParsesSlaves (V := ℤ) (cstr "bunker 4, nexcor 0x2")
    (scanSlaveList (cstr "bunker 4, nexcor 0x2")) := by
  refine (scanSlaveList_iff (by decide)).mpr (Or.inl ?_)
  have hentries : slaveEntries (cstr "bunker 4, nexcor 0x2") = [cstr "bunker 4", cstr " nexcor 0x2"] := by
    decide
  rw [hentries]
  intro entry hentry
  obtain rfl | hentry := List.mem_cons.mp hentry
  · exact ⟨cstr "bunker", 4, [], [32], cstr "4", [], by decide, by decide, by decide, by decide, by decide,
      by decide, by decide⟩
  · obtain rfl := List.mem_singleton.mp hentry
    exact ⟨cstr "nexcor", 2, [32], [32], cstr "0x2", [], by decide, by decide, by decide, by decide,
      by decide, by decide, by decide⟩

/-- Behind the host of such an entry there is more than a blank. -/
lemma behindHost_of_isSlave {entry host : Bytes} {num : ℤ} (h : IsSlave entry host num) :
    2 ≤ (behindHost entry).length := by
  obtain ⟨lead, gap, number, behind, rfl, hlead, hhost, ⟨hgap, hblank⟩, ⟨-, hread⟩, -⟩ := h
  obtain ⟨b, gap, rfl⟩ := List.exists_cons_of_ne_nil hgap
  have hb := List.all_eq_true.mp hblank b List.mem_cons_self
  rw [List.cons_append, (entry_parts hlead hhost ⟨b, gap ++ number, rfl, hb⟩).2]
  simp only [List.length_append, List.length_cons]
  omega

/-- A host with nothing behind it makes `strtol` read behind the NUL, a number below -1 counts as a host
without slaves, and so does a host without a number. -/
theorem scanSlaveList_misread :
    ¬ParsesSlaves (V := ℤ) (cstr "node") (scanSlaveList (cstr "node")) ∧
      ¬ParsesSlaves (V := ℤ) (cstr "node -3") (scanSlaveList (cstr "node -3")) ∧
      ¬ParsesSlaves (V := ℤ) (cstr "node ,bunker 2") (scanSlaveList (cstr "node ,bunker 2")) := by
  rw [scanSlaveList_eq (by decide), scanSlaveList_eq (by decide), scanSlaveList_eq (by decide)]
  refine ⟨?_, ?_, ?_⟩
  · have hscan : parseSlaveList (V := ℤ) (cstr "node") = none := rfl
    rw [hscan]
    rintro (⟨slaves, -, h⟩ | ⟨-, h⟩)
    · cases h
    · cases h
  · have hscan : parseSlaveList (V := ℤ) (cstr "node -3") = some (0, []) := rfl
    have hentries : slaveEntries (cstr "node -3") = [cstr "node -3"] := by decide
    have hread : parseSlave (cstr "node -3") = some (cstr "node", -3) := by decide
    rw [hscan]
    rintro (⟨slaves, hslaves, -⟩ | ⟨-, h⟩)
    · obtain ⟨host, num, hslave⟩ :=
        exists_slaves_iff.mp ⟨slaves, hslaves⟩ (cstr "node -3") (by rw [hentries]; simp)
      have hnum := parseSlave_of_isSlave hslave
      rw [hread] at hnum
      obtain ⟨-, rfl⟩ := Prod.mk.inj (Option.some.inj hnum)
      obtain ⟨-, -, -, -, -, -, -, -, -, -, hpos⟩ := hslave
      omega
    · simp at h
  · have hscan : ∃ gens, parseSlaveList (V := ℤ) (cstr "node ,bunker 2") = some (0, gens) := ⟨_, rfl⟩
    have hentries : slaveEntries (cstr "node ,bunker 2") = [cstr "node ", cstr "bunker 2"] := by decide
    obtain ⟨gens, hscan⟩ := hscan
    rw [hscan]
    rintro (⟨slaves, hslaves, -⟩ | ⟨-, h⟩)
    · obtain ⟨host, num, hslave⟩ :=
        exists_slaves_iff.mp ⟨slaves, hslaves⟩ (cstr "node ") (by rw [hentries]; simp)
      have hlen := behindHost_of_isSlave hslave
      have hone : (behindHost (cstr "node ")).length = 1 := by decide
      omega
    · simp at h

end ActiveHarmony.CodeServer

import ActiveHarmony.Layer.Group
import ActiveHarmony.Lib.BoundedBuffer
import ActiveHarmony.Lib.GrowArray

/-!
# The arrays of `parse_group`

`parse_group` with the arrays it fills: `list` and `seen`, which have a cell for each variable, and the list of
groups, which grows while the groups are read. An access outside of them has no result. The list of groups has
room for a final group only if a group was read: of a blank text, the final group is written through `NULL`.
-/

namespace ActiveHarmony.Group

open TextScan (skipSpace)
open BoundedBuffer (write read)
open GrowArray

/-- The size of `group_def_t`. -/
def groupDefSize : ℕ := 16

/-- The arrays; `defs` holds the groups that were written to the list of groups. -/
structure Arrays where
  list : List ℤ
  seen : List Bool
  glist : Block
  defs : ℕ → List ℤ

/-- The loop over the members of a group, from the member `j` on. -/
def membersLoop (capMax : ℕ) (j : ℕ) (list : List ℤ) (seen : List Bool) (buf : Bytes) :
    Option (Except Bytes (ℕ × List ℤ × List Bool × Bytes)) :=
  if buf.head? = some 41 then some (.ok (j, list, seen, buf.tail))
  else if _h : j ≥ capMax then some (.error (cstr "Too many indexes in group specification"))
  else
    match scanD buf with
    | none => some (.error (cstr "Error parsing group specification"))
    | some (idx, buf) => do
      let list ← write list j idx
      if idx < 0 ∨ idx ≥ capMax then return .error (cstr "Group specification member out of bounds")
      else
        let seen ← write seen idx.toNat true
        let buf := skipSpace buf
        let buf := if buf.head? = some 44 then buf.tail else buf
        membersLoop capMax (j + 1) list seen buf
termination_by capMax - j

/-- `array_grow` of the list of groups, which clears the new memory. -/
def growGroups (alloc : ℕ → Bool) (glist : Block) : Option (Except Bytes Block) :=
  let grown := glist.grow groupDefSize
  if !alloc grown.bytes then some (.error (cstr "Error allocating group definition list"))
  else if grown.cap * groupDefSize ≤ grown.bytes then some (.ok grown)
  else none

/-- An entry of the list of groups is written. -/
def writeGroup (a : Arrays) (i : ℕ) (idx : List ℤ) : Option Arrays :=
  if (i + 1) * groupDefSize ≤ a.glist.bytes then some { a with defs := Function.update a.defs i idx }
  else none

/-- The loop over the groups, from the group `i` on. Whether memory of some size is allocated may differ from
round to round. -/
def groupsLoop (alloc : ℕ → ℕ → Bool) (capMax : ℕ) :
    ℕ → ℕ → Arrays → Bytes → Option (Except Bytes (ℕ × Arrays × Bytes))
  | 0, _, _, _ => none
  | fuel + 1, i, a, buf =>
    let text := skipSpace buf
    if buf = [] then some (.ok (i, a, buf))
    else if text.head? ≠ some 40 then some (.ok (i, a, text))
    else
      match if a.glist.cap ≤ i + 1 then growGroups (alloc (i + 1)) a.glist else some (.ok a.glist) with
      | none => none
      | some (.error msg) => some (.error msg)
      | some (.ok glist) =>
        match membersLoop capMax 0 a.list a.seen text.tail with
        | none => none
        | some (.error msg) => some (.error msg)
        | some (.ok (j, list, seen, buf)) =>
          if !alloc (i + 1) (j * 4) then some (.error (cstr "Error allocating memory for group index list"))
          else if j ≤ list.length then
            (writeGroup { a with list := list, seen := seen, glist := glist } i (list.take j)).bind fun a =>
              groupsLoop alloc capMax fuel (i + 1) a (buf.dropWhile fun c => TextScan.isSpace c || c = 44)
          else none

/-- The loop that collects the variables that are in no group, from the variable `j` on. -/
def unseenLoop (seen : List Bool) : List ℕ → ℕ → List ℤ → Option (ℕ × List ℤ)
  | [], i, list => some (i, list)
  | j :: js, i, list => do
    let mark ← read seen j
    if mark then unseenLoop seen js i list
    else
      let list ← write list i (j : ℤ)
      unseenLoop seen js (i + 1) list

/-- `parse_group`, after `group_init` has set `glist` to `NULL`: the groups, or the error. -/
def parseGroupIn (alloc : ℕ → ℕ → Bool) (capMax : ℕ) (buf : Bytes) : Option (Except Bytes (List (List ℤ))) :=
  if !alloc 0 (capMax * 4) || !alloc 0 capMax then
    some (.error (cstr "Error allocating memory for group parsing function"))
  else
    let a : Arrays := ⟨List.replicate capMax 0, List.replicate capMax false, Block.empty, fun _ => []⟩
    match groupsLoop alloc capMax (buf.length + 1) 0 a buf with
    | none => none
    | some (.error msg) => some (.error msg)
    | some (.ok (i, a, buf)) =>
      if buf ≠ [] then some (.error (cstr "Error parsing group specification"))
      else do
        -- Produce a final group of all unseen input indexes.
        let (n, list) ← unseenLoop a.seen (List.range capMax) 0 a.list
        -- Only add the final group if necessary.
        if n ≠ 0 then
          let a ← writeGroup a i (list.take n)
          return .ok ((List.range (i + 1)).map a.defs)
        else return .ok ((List.range i).map a.defs)

/-! ## The arrays hold the groups that were read -/

/-- The marks of the variables that were seen. -/
structure Marks (capMax : ℕ) (seen : List Bool) (members : List ℕ) : Prop where
  length : seen.length = capMax
  mark : ∀ k < capMax, seen[k]? = some (decide (k ∈ members))

/-- The arrays after the groups were read. -/
structure Holds (capMax : ℕ) (glist : List (List ℕ)) (a : Arrays) : Prop where
  list : a.list.length = capMax
  seen : Marks capMax a.seen glist.flatten
  exact : a.glist.Exact groupDefSize
  room : glist ≠ [] → glist.length < a.glist.cap
  defs : (List.range glist.length).map a.defs = glist.map (List.map Int.ofNat)

variable {capMax : ℕ} {buf : Bytes}

lemma marks_replicate (capMax : ℕ) : Marks capMax (List.replicate capMax false) [] where
  length := List.length_replicate
  mark k hk := by
    rw [List.getElem?_replicate, if_pos hk]
    rfl

/-- A variable is marked. -/
lemma Marks.write {seen : List Bool} {members : List ℕ} (h : Marks capMax seen members) {idx : ℕ}
    (hidx : idx < capMax) :
    ∃ seen', write seen idx true = some seen' ∧ Marks capMax seen' (members ++ [idx]) := by
  refine ⟨_, BoundedBuffer.write_of_lt (h.length.symm ▸ hidx) true, ?_⟩
  constructor
  · rw [List.length_set]
    exact h.length
  · intro k hk
    by_cases heq : idx = k
    · subst heq
      rw [List.getElem?_set_self (h.length.symm ▸ hk)]
      simp
    · rw [List.getElem?_set_ne heq, h.mark k hk]
      simp [Ne.symm heq]

lemma Marks.congr {seen : List Bool} {members members' : List ℕ} (h : Marks capMax seen members)
    (heq : ∀ k, k ∈ members ↔ k ∈ members') : Marks capMax seen members' where
  length := h.length
  mark k hk := by
    rw [h.mark k hk]
    simp [heq k]

/-! ## The loop over the members -/

/-- The members read so far stand in front of `list`. -/
lemma membersLoop_spec {room j : ℕ} {acc members : List ℕ} {list : List ℤ} {seen : List Bool}
    (hroom : j + room = capMax) (hlen : list.length = capMax) (hacc : acc.length = j)
    (htake : list.take j = acc.map Int.ofNat) (hseen : Marks capMax seen (members ++ acc)) (buf : Bytes) :
    match parseMembers capMax room acc buf with
    | .error msg => membersLoop capMax j list seen buf = some (.error msg)
    | .ok (group, rest) => ∃ list' seen', membersLoop capMax j list seen buf =
          some (.ok (group.length, list', seen', rest)) ∧
        list'.length = capMax ∧ group.length ≤ capMax ∧ list'.take group.length = group.map Int.ofNat ∧
        Marks capMax seen' (members ++ group) := by
  induction room generalizing j acc list seen buf with
  | zero =>
    rw [parseMembers, membersLoop]
    by_cases hclose : buf.head? = some 41
    · rw [if_pos hclose, if_pos hclose]
      subst hacc
      exact ⟨list, seen, rfl, hlen, by omega, htake, hseen⟩
    · rw [if_neg hclose, if_neg hclose, dif_pos (by omega)]
  | succ room ih =>
    rw [parseMembers, membersLoop]
    by_cases hclose : buf.head? = some 41
    · rw [if_pos hclose, if_pos hclose]
      subst hacc
      exact ⟨list, seen, rfl, hlen, by omega, htake, hseen⟩
    · rw [if_neg hclose, if_neg hclose, dif_neg (by omega)]
      dsimp only
      cases hscan : scanD buf with
      | none => rfl
      | some out =>
        obtain ⟨idx, text⟩ := out
        have hwrite := BoundedBuffer.write_of_lt (show j < list.length by omega) idx
        dsimp only
        rw [hwrite]
        by_cases hout : idx < 0 ∨ idx ≥ capMax
        · rw [if_pos hout]
          show (if idx < 0 ∨ idx ≥ capMax then some (Except.error _) else _) = _
          rw [if_pos hout]
        · obtain ⟨k, rfl⟩ : ∃ k : ℕ, idx = k := ⟨idx.toNat, by omega⟩
          obtain ⟨seen', hmark, hseen'⟩ := hseen.write (show k < capMax by omega)
          rw [List.append_assoc] at hseen'
          rw [if_neg hout]
          have hstep : membersLoop capMax (j + 1) (list.set j k) seen'
              (if (skipSpace text).head? = some 44 then (skipSpace text).tail else skipSpace text) =
              (do
                let list ← some (list.set j (k : ℤ))
                if (k : ℤ) < 0 ∨ (k : ℤ) ≥ capMax then
                  return .error (cstr "Group specification member out of bounds")
                else
                  let seen ← write seen (k : ℤ).toNat true
                  let buf := skipSpace text
                  let buf := if buf.head? = some 44 then buf.tail else buf
                  membersLoop capMax (j + 1) list seen buf) := by
            show _ = (if (k : ℤ) < 0 ∨ (k : ℤ) ≥ capMax then _ else (write seen (k : ℤ).toNat true).bind _)
            rw [if_neg hout, Int.toNat_natCast, hmark]
            rfl
          rw [← hstep, Int.toNat_natCast]
          apply ih (by omega) _ _ _ hseen'
          · rw [List.length_set]
            exact hlen
          · rw [List.length_append, List.length_singleton, hacc]
          · rw [List.map_append, ← htake, List.take_add_one, List.getElem?_set_self (by omega),
              List.take_set_of_le (le_refl j)]
            rfl

/-! ## The loop over the groups -/

lemma scanD_suffix {rest : Bytes} {z : ℤ} (h : scanD buf = some (z, rest)) : rest <:+ buf := by
  unfold scanD at h
  obtain ⟨⟨y, tail⟩, hread, heq⟩ := Option.bind_eq_some_iff.mp h
  cases heq
  exact TextScan.integer_suffix hread

lemma parseMembers_suffix {room : ℕ} {acc group : List ℕ} {rest : Bytes}
    (h : parseMembers capMax room acc buf = .ok (group, rest)) : rest <:+ buf := by
  induction room generalizing acc buf with
  | zero =>
    rw [parseMembers] at h
    split_ifs at h
    cases h
    exact List.tail_suffix buf
  | succ room ih =>
    rw [parseMembers] at h
    by_cases hclose : buf.head? = some 41
    · rw [if_pos hclose] at h
      cases h
      exact List.tail_suffix buf
    · rw [if_neg hclose] at h
      dsimp only at h
      cases hscan : scanD buf with
      | none =>
        rw [hscan] at h
        cases h
      | some out =>
        obtain ⟨idx, text⟩ := out
        rw [hscan] at h
        dsimp only at h
        by_cases hout : idx < 0 ∨ idx ≥ capMax
        · rw [if_pos hout] at h
          cases h
        · rw [if_neg hout] at h
          have htext : text <:+ buf := scanD_suffix hscan
          have hskip : skipSpace text <:+ buf := (List.dropWhile_suffix _).trans htext
          refine (ih h).trans ?_
          split_ifs
          · exact (List.tail_suffix _).trans hskip
          · exact hskip

/-- The list of groups is made larger if it has no cell behind the next one. -/
lemma growGroups_spec {alloc : ℕ → Bool} (halloc : ∀ n, alloc n = true → n < 2 ^ 63) {glist : Block}
    (h : glist.Exact groupDefSize) {i : ℕ} (hi : i ≠ 0 → i < glist.cap) :
    (∃ msg, (if glist.cap ≤ i + 1 then growGroups alloc glist else some (.ok glist)) = some (.error msg)) ∨
    ∃ glist', (if glist.cap ≤ i + 1 then growGroups alloc glist else some (.ok glist)) = some (.ok glist') ∧
      glist'.Exact groupDefSize ∧ i + 1 < glist'.cap := by
  by_cases hfull : glist.cap ≤ i + 1
  · rw [if_pos hfull]
    unfold growGroups
    dsimp only
    cases hgrown : alloc (glist.grow groupDefSize).bytes with
    | false => exact Or.inl ⟨_, rfl⟩
    | true =>
      have hexact : (glist.grow groupDefSize).Exact groupDefSize :=
        h.grow (by decide) (halloc _ hgrown)
      have hcovers : (glist.grow groupDefSize).cap * groupDefSize ≤ (glist.grow groupDefSize).bytes :=
        hexact.covers (le_refl _)
      right
      refine ⟨glist.grow groupDefSize, ?_, hexact, ?_⟩
      · rw [Bool.not_true, if_neg Bool.false_ne_true, if_pos hcovers]
      · rw [Block.grow_cap]
        unfold Block.nextCap
        split_ifs
        all_goals omega
  · rw [if_neg hfull]
    exact Or.inr ⟨glist, rfl, h, by omega⟩

/-- An entry of the list that is within its capacity is within its memory. -/
lemma writeGroup_of_lt {a : Arrays} (hexact : a.glist.Exact groupDefSize) {i : ℕ} (hi : i < a.glist.cap)
    (idx : List ℤ) : writeGroup a i idx = some { a with defs := Function.update a.defs i idx } := by
  unfold writeGroup
  rw [if_pos]
  rw [hexact.bytes_eq]
  exact Nat.mul_le_mul_right groupDefSize hi

lemma defs_update {glist : List (List ℕ)} {defs : ℕ → List ℤ} (group : List ℕ)
    (h : (List.range glist.length).map defs = glist.map (List.map Int.ofNat)) :
    (List.range (glist ++ [group]).length).map (Function.update defs glist.length (group.map Int.ofNat)) =
      (glist ++ [group]).map (List.map Int.ofNat) := by
  rw [List.length_append, List.length_singleton, List.range_succ, List.map_append, List.map_append, ← h]
  congr 1
  · apply List.map_congr_left
    intro k hk
    exact Function.update_of_ne (List.mem_range.mp hk).ne _ _
  · rw [List.map_singleton, List.map_singleton, Function.update_self]

/-- The arrays hold one group more. -/
lemma Holds.snoc {glist : List (List ℕ)} {a : Arrays} (h : Holds capMax glist a) {group : List ℕ}
    {list : List ℤ} {seen : List Bool} {block : Block} (hlist : list.length = capMax)
    (hseen : Marks capMax seen (glist.flatten ++ group)) (hexact : block.Exact groupDefSize)
    (hroom : glist.length + 1 < block.cap) :
    Holds capMax (glist ++ [group])
      ⟨list, seen, block, Function.update a.defs glist.length (group.map Int.ofNat)⟩ where
  list := hlist
  seen := by
    rw [List.flatten_append, List.flatten_singleton]
    exact hseen
  exact := hexact
  room _ := by
    rw [List.length_append, List.length_singleton]
    exact hroom
  defs := defs_update _ h.defs

/-- A group has its parenthesis at least. -/
lemma parseMembers_shorter {group : List ℕ} {rest : Bytes} (hopen : (skipSpace buf).head? = some 40)
    (hparse : parseMembers capMax capMax [] (skipSpace buf).tail = .ok (group, rest)) :
    rest.length < buf.length := by
  have hrest := (parseMembers_suffix hparse).length_le
  have hskip := (List.dropWhile_suffix (l := buf) TextScan.isSpace).length_le
  have hne : skipSpace buf ≠ [] := by
    intro heq
    rw [heq] at hopen
    cases hopen
  have hpos := List.length_pos_iff.mpr hne
  rw [List.length_tail] at hrest
  unfold skipSpace at hrest hpos
  omega

/-- The loop reads the groups into the arrays, unless it fails. -/
lemma groupsLoop_spec {alloc : ℕ → ℕ → Bool} (halloc : ∀ i n, alloc i n = true → n < 2 ^ 63)
    {fuel n : ℕ} {glist : List (List ℕ)} {a : Arrays} (h : Holds capMax glist a)
    (hfuel : buf.length < fuel) (hn : buf.length ≤ n) :
    (∃ msg, groupsLoop alloc capMax fuel glist.length a buf = some (.error msg)) ∨
    ∃ glist' a' rest, groupsLoop alloc capMax fuel glist.length a buf = some (.ok (glist'.length, a', rest)) ∧
      parseGroups capMax n glist buf = .ok (glist', rest) ∧ Holds capMax glist' a' ∧
      glist.length ≤ glist'.length ∧ (glist' = [] → rest = skipSpace buf) := by
  induction fuel generalizing n glist a buf with
  | zero => omega
  | succ fuel ih =>
    rw [groupsLoop]
    by_cases hnil : buf = []
    · subst hnil
      refine Or.inr ⟨glist, a, [], rfl, ?_, h, le_refl _, fun _ => rfl⟩
      cases n <;> rfl
    obtain ⟨n, rfl⟩ : ∃ m, n = m + 1 := by
      refine ⟨n - 1, ?_⟩
      have hpos := List.length_pos_iff.mpr hnil
      omega
    rw [if_neg hnil, parseGroups]
    dsimp only
    rw [if_neg hnil]
    by_cases hopen : (skipSpace buf).head? ≠ some 40
    · rw [if_pos hopen, if_pos hopen]
      exact Or.inr ⟨glist, a, skipSpace buf, rfl, rfl, h, le_refl _, fun _ => rfl⟩
    rw [if_neg hopen, if_neg hopen]
    have hroom : glist.length ≠ 0 → glist.length < a.glist.cap := by
      intro hne
      exact h.room fun heq => hne (by rw [heq]; rfl)
    obtain ⟨msg, hgrow⟩ | ⟨block, hgrow, hexact, hcap⟩ :=
      growGroups_spec (halloc (glist.length + 1)) h.exact hroom
    · rw [hgrow]
      exact Or.inl ⟨msg, rfl⟩
    rw [hgrow]
    have hseen : Marks capMax a.seen (glist.flatten ++ []) := by
      rw [List.append_nil]
      exact h.seen
    -- The members of the group are marked behind those of the groups that were read.
    have hmembers := @membersLoop_spec capMax capMax 0 [] glist.flatten a.list a.seen (Nat.zero_add _)
      h.list rfl rfl hseen (skipSpace buf).tail
    cases hparse : parseMembers capMax capMax [] (skipSpace buf).tail with
    | error msg =>
      rw [hparse] at hmembers
      have hfail : membersLoop capMax 0 a.list a.seen (skipSpace buf).tail = some (.error msg) := hmembers
      rw [hfail]
      exact Or.inl ⟨msg, rfl⟩
    | ok out =>
      obtain ⟨group, rest⟩ := out
      rw [hparse] at hmembers
      obtain ⟨list, seen, hloop, hlist, hle, htake, hmarks⟩ := hmembers
      rw [hloop]
      dsimp only
      cases hidx : alloc (glist.length + 1) (group.length * 4) with
      | false => exact Or.inl ⟨_, rfl⟩
      | true =>
        have hlen := parseMembers_shorter (not_not.mp hopen) hparse
        have hdrop := (List.dropWhile_suffix (l := rest) fun c => TextScan.isSpace c || c = 44).length_le
        have hwritten := writeGroup_of_lt (a := ⟨list, seen, block, a.defs⟩) hexact
          (show glist.length < block.cap by omega) (group.map Int.ofNat)
        rw [Bool.not_true, if_neg Bool.false_ne_true, if_pos (by omega), htake, hwritten, Option.bind_some]
        have hlength : glist.length + 1 = (glist ++ [group]).length := by
          rw [List.length_append, List.length_singleton]
        rw [hlength]
        have hshorter : (rest.dropWhile fun c => TextScan.isSpace c || c = 44).length < fuel := by omega
        have henough : (rest.dropWhile fun c => TextScan.isSpace c || c = 44).length ≤ n := by omega
        obtain hfail | ⟨glist', a', rest', hrun, hparsed, hholds, hle', -⟩ :=
          ih (h.snoc hlist hmarks hexact hcap) hshorter henough
        · exact Or.inl hfail
        · refine Or.inr ⟨glist', a', rest', hrun, hparsed, hholds, by omega, ?_⟩
          intro hempty
          rw [hempty, List.length_nil] at hle'
          omega

/-! ## The final group -/

/-- The variables that are not marked are collected in front of `list`. -/
lemma unseenLoop_spec {seen : List Bool} {members js : List ℕ} {i : ℕ} {list : List ℤ}
    (hseen : Marks capMax seen members) (hlist : list.length = capMax) (hjs : ∀ j ∈ js, j < capMax)
    (hroom : i + js.length ≤ capMax) :
    ∃ list', unseenLoop seen js i list = some (i + (js.filter fun j => j ∉ members).length, list') ∧
      list'.take (i + (js.filter fun j => j ∉ members).length) =
        list.take i ++ (js.filter fun j => j ∉ members).map Int.ofNat := by
  induction js generalizing i list with
  | nil => exact ⟨list, rfl, (List.append_nil _).symm⟩
  | cons j js ih =>
    rw [List.length_cons] at hroom
    have hj := hjs j List.mem_cons_self
    have htail : ∀ k ∈ js, k < capMax := fun k hk => hjs k (List.mem_cons_of_mem j hk)
    have hread : read seen j = some (decide (j ∈ members)) := hseen.mark j hj
    by_cases hmem : j ∈ members
    · obtain ⟨list', hrun, htake⟩ := ih (i := i) hlist htail (by omega)
      have hkeep : (j :: js).filter (fun j => j ∉ members) = js.filter fun j => j ∉ members :=
        List.filter_cons_of_neg (by simpa using hmem)
      rw [hkeep]
      refine ⟨list', ?_, htake⟩
      show (read seen j).bind _ = _
      rw [hread, Option.bind_some, if_pos (decide_eq_true hmem)]
      exact hrun
    · have hi : i < list.length := by omega
      have hwrite := BoundedBuffer.write_of_lt hi (j : ℤ)
      have hlist' : (list.set i (j : ℤ)).length = capMax := List.length_set.trans hlist
      have hroom' : i + 1 + js.length ≤ capMax := by omega
      obtain ⟨list', hrun, htake⟩ := ih hlist' htail hroom'
      have hkeep : (j :: js).filter (fun j => j ∉ members) = j :: js.filter fun j => j ∉ members :=
        List.filter_cons_of_pos (by simpa using hmem)
      have hcount : i + (j :: js.filter fun j => j ∉ members).length =
          i + 1 + (js.filter fun j => j ∉ members).length := by
        rw [List.length_cons]
        omega
      rw [hkeep, hcount]
      refine ⟨list', ?_, ?_⟩
      · show (read seen j).bind _ = _
        rw [hread, Option.bind_some, if_neg (by simpa using hmem), hwrite]
        exact hrun
      · rw [htake, List.take_add_one, List.getElem?_set_self hi,
          List.take_set_of_le (le_refl i), List.append_assoc]
        rfl

/-! ## The whole call -/

/-- The arrays before the first group. -/
lemma holds_nil (capMax : ℕ) :
    Holds capMax [] ⟨List.replicate capMax 0, List.replicate capMax false, Block.empty, fun _ => []⟩ where
  list := List.length_replicate
  seen := marks_replicate capMax
  exact := Block.empty_exact
  room h := absurd rfl h
  defs := rfl

/-- The text has a character that is no white space. -/
def NotBlank (buf : Bytes) : Prop := ∃ c ∈ buf, TextScan.isSpace c = false

lemma skipSpace_eq_nil_iff : skipSpace buf = [] ↔ ¬NotBlank buf := by
  unfold skipSpace NotBlank
  rw [List.dropWhile_eq_nil_iff]
  constructor
  · rintro h ⟨c, hc, hspace⟩
    rw [h c hc] at hspace
    cases hspace
  · intro h c hc
    by_contra hspace
    exact h ⟨c, hc, Bool.eq_false_iff.mpr hspace⟩

variable (capMax) in
/-- A list that is not blank is parsed into the groups of the abstract parser, unless it is refused. -/
lemma parseGroupIn_spec {alloc : ℕ → ℕ → Bool} (halloc : ∀ i n, alloc i n = true → n < 2 ^ 63)
    (hblank : NotBlank buf) :
    (∃ msg, parseGroupIn alloc capMax buf = some (.error msg)) ∨
    ∃ glist, parseGroupIn alloc capMax buf = some (.ok (glist.map (List.map Int.ofNat))) ∧
      parseGroup capMax buf = some (.ok glist) := by
  unfold parseGroupIn
  split_ifs
  · exact Or.inl ⟨_, rfl⟩
  · dsimp only
    obtain ⟨msg, hrun⟩ | ⟨glist, a, rest, hrun, hparse, hholds, -, hempty⟩ :=
      groupsLoop_spec (n := buf.length) halloc (holds_nil capMax) (Nat.lt_succ_self buf.length) (le_refl _)
    · have hrun' : groupsLoop alloc capMax (buf.length + 1) 0
          ⟨List.replicate capMax 0, List.replicate capMax false, Block.empty, fun _ => []⟩ buf =
          some (.error msg) := hrun
      rw [hrun']
      exact Or.inl ⟨msg, rfl⟩
    · have hrun' : groupsLoop alloc capMax (buf.length + 1) 0
          ⟨List.replicate capMax 0, List.replicate capMax false, Block.empty, fun _ => []⟩ buf =
          some (.ok (glist.length, a, rest)) := hrun
      rw [hrun']
      dsimp only
      by_cases hrest : rest ≠ []
      · rw [if_pos hrest]
        exact Or.inl ⟨_, rfl⟩
      rw [if_neg hrest]
      rw [not_not] at hrest
      have hsome : glist ≠ [] := by
        intro hnil
        rw [hempty hnil] at hrest
        exact skipSpace_eq_nil_iff.mp hrest hblank
      obtain ⟨list, hloop, htake⟩ := unseenLoop_spec (i := 0) hholds.seen hholds.list
        (fun j hj => List.mem_range.mp hj) (by rw [List.length_range, Nat.zero_add])
      rw [Nat.zero_add] at hloop htake
      have hunseen : (unseenLoop a.seen (List.range capMax) 0 a.list) =
          some (((List.range capMax).filter fun j => j ∉ glist.flatten).length, list) := hloop
      right
      unfold parseGroup
      rw [hparse, hunseen]
      dsimp only
      rw [if_neg (not_not.mpr hrest)]
      by_cases hall : ((List.range capMax).filter fun j => j ∉ glist.flatten) = []
      · rw [if_pos hall, hall]
        refine ⟨glist, ?_, rfl⟩
        rw [← hholds.defs]
        rfl
      · rw [if_neg hall, if_neg hsome]
        refine ⟨_, ?_, rfl⟩
        have hcount : ((List.range capMax).filter fun j => j ∉ glist.flatten).length ≠ 0 := by
          intro hzero
          exact hall (List.length_eq_zero_iff.mp hzero)
        show (if ((List.range capMax).filter fun j => j ∉ glist.flatten).length ≠ 0 then _ else _) = _
        rw [if_pos hcount, htake, writeGroup_of_lt hholds.exact (hholds.room hsome)]
        have hdefs := defs_update ((List.range capMax).filter fun j => j ∉ glist.flatten) hholds.defs
        rw [List.length_append, List.length_singleton] at hdefs
        exact congrArg some (congrArg Except.ok hdefs)

/-- A blank list is parsed into no group at all, and the final one is written through `NULL`. -/
lemma parseGroupIn_blank {alloc : ℕ → ℕ → Bool} (hlist : alloc 0 (capMax * 4) = true)
    (hseen : alloc 0 capMax = true) (hpos : 0 < capMax) (hblank : ¬NotBlank buf) :
    parseGroupIn alloc capMax buf = none := by
  have htext := skipSpace_eq_nil_iff.mpr hblank
  have hrun : ∀ a, groupsLoop alloc capMax (buf.length + 1) 0 a buf = some (.ok (0, a, [])) := by
    intro a
    rw [groupsLoop]
    by_cases hnil : buf = []
    · rw [if_pos hnil, hnil]
    · rw [if_neg hnil, htext]
      rfl
  obtain ⟨list, hloop, -⟩ := unseenLoop_spec (i := 0) (holds_nil capMax).seen (holds_nil capMax).list
    (fun j hj => List.mem_range.mp hj) (by rw [List.length_range, Nat.zero_add])
  have hloop' : unseenLoop (List.replicate capMax false) (List.range capMax) 0 (List.replicate capMax 0) =
      some (capMax, list) := by
    have hkeep : ((List.range capMax).filter fun j => j ∉ ([] : List (List ℕ)).flatten) = List.range capMax :=
      List.filter_eq_self.mpr fun j _ => by simp
    rw [hkeep, List.length_range, Nat.zero_add] at hloop
    exact hloop
  unfold parseGroupIn
  rw [hlist, hseen]
  dsimp only
  rw [hrun]
  show (unseenLoop (List.replicate capMax false) (List.range capMax) 0 (List.replicate capMax 0)).bind _ = _
  rw [hloop', Option.bind_some]
  dsimp only
  rw [if_pos hpos.ne']
  rfl

/-- The list is parsed within the arrays, and into groups of all variables and nothing else, if and only if it
is not blank. -/
theorem parseGroupIn_safe_iff {capMax : ℕ} (hpos : 0 < capMax) (hint : capMax ≤ intMax) (buf : Bytes) :
    (∀ alloc : ℕ → ℕ → Bool, (∀ i n, alloc i n = true → n < 2 ^ 63) →
      ∃ res, parseGroupIn alloc capMax buf = some res ∧ ∀ glist, res = .ok glist →
        (∀ group ∈ glist, ∀ idx ∈ group, 0 ≤ idx ∧ idx < capMax) ∧
        ∀ idx : ℤ, 0 ≤ idx → idx < capMax → ∃ group ∈ glist, idx ∈ group) ↔
    NotBlank buf := by
  constructor
  · intro h
    by_contra hblank
    have hsmall : capMax * 4 < 2 ^ 63 := by
      unfold intMax at hint
      omega
    obtain ⟨res, hrun, -⟩ := h (fun _ n => decide (n < 2 ^ 63)) fun i n hn => of_decide_eq_true hn
    rw [parseGroupIn_blank (decide_eq_true hsmall) (decide_eq_true (by omega)) hpos hblank] at hrun
    cases hrun
  · intro hblank alloc halloc
    obtain ⟨msg, hrun⟩ | ⟨groups, hrun, hparse⟩ := parseGroupIn_spec capMax halloc hblank
    · refine ⟨.error msg, hrun, ?_⟩
      intro glist herror
      cases herror
    · refine ⟨_, hrun, ?_⟩
      intro glist hok
      cases hok
      obtain ⟨hbounded, hunion⟩ := parseGroup_spec hparse
      constructor
      · intro group hgroup idx hidx
        obtain ⟨members, hmembers, rfl⟩ := List.mem_map.mp hgroup
        obtain ⟨k, hk, rfl⟩ := List.mem_map.mp hidx
        have hlt := hbounded members hmembers k hk
        exact ⟨Int.natCast_nonneg k, Int.ofNat_lt.mpr hlt⟩
      · intro idx hnonneg hlt
        obtain ⟨k, rfl⟩ := Int.eq_ofNat_of_zero_le hnonneg
        obtain ⟨members, hmembers, hk⟩ := hunion k (Int.ofNat_lt.mp hlt)
        exact ⟨_, List.mem_map_of_mem hmembers, List.mem_map_of_mem hk⟩

/-- Two groups, of which the second is what the first one leaves. -/
theorem parseGroupIn_safe_two :
    (∀ alloc : ℕ → ℕ → Bool, (∀ i n, alloc i n = true → n < 2 ^ 63) →
      ∃ res, parseGroupIn alloc 3 (cstr "(0, 2)") = some res ∧ ∀ glist, res = .ok glist →
        (∀ group ∈ glist, ∀ idx ∈ group, 0 ≤ idx ∧ idx < 3) ∧
        ∀ idx : ℤ, 0 ≤ idx → idx < 3 → ∃ group ∈ glist, idx ∈ group) ↔
    NotBlank (cstr "(0, 2)") :=
  parseGroupIn_safe_iff (by decide) (by decide) (cstr "(0, 2)")

/-- For a blank list, the final group is written through `NULL`. -/
theorem parseGroupIn_blank_list : parseGroupIn (fun _ n => decide (n < 2 ^ 63)) 2 (cstr " ") = none := by
  decide

end ActiveHarmony.Group

import ActiveHarmony.Config.Refinement
import ActiveHarmony.Lib.TextScan

/-!
# Merging two configurations

`hcfg_merge` inserts the entries of `src` whose keys `dst` does not have. In the order of the cells of `src`,
with `dst` growing underneath, the result is the map that asks `dst` first and `src` after it, as long as
the last table size has room for the keys of both.
-/

namespace ActiveHarmony

open LinearProbe

/-- `hcfg_copy`. -/
def hcfgCopy (src : Hcfg) : Hcfg where
  hash := src.hash.take (1 <<< src.logsize)
  count := src.count
  logsize := src.logsize

/-- The loop of `hcfg_merge`, for the cells of `src` that are left. -/
def hcfgMergeLoop (dst : Hcfg) : List (Option KeyVal) → Option (ℤ × Hcfg)
  | [] => some (0, dst)
  | none :: cells => hcfgMergeLoop dst cells
  | some entry :: cells =>
    match (hashFind dst entry.key).bind dst.cell with
    | some _ => hcfgMergeLoop dst cells
    | none =>
      match hashInsert dst entry.key entry.val with
      | none => none
      | some (ret, dst) => if ret < 0 then some (-1, dst) else hcfgMergeLoop dst cells

/-- `hcfg_merge`: the return value and the two tables. -/
def hcfgMerge (dst src : Hcfg) : Option (ℤ × Hcfg × Hcfg) :=
  (hcfgMergeLoop dst (src.hash.take (1 <<< src.logsize))).map fun (ret, dst) => (ret, dst, src)

variable {cfg dst src : Hcfg} {key val : Bytes} {e : KeyVal} {es : List KeyVal}
  {cells : List (Option KeyVal)}

/-! ## Looking up and counting -/

/-- Keys are looked up ignoring case. -/
lemma hcfgGet_congr (cfg : Hcfg) {a b : Bytes} (h : foldCase a = foldCase b) :
    hcfgGet cfg a = hcfgGet cfg b := by
  unfold hcfgGet
  rw [hashFind_congr h]

lemma hashFind_bind_cell (cfg : Hcfg) (key : Bytes) :
    ((hashFind cfg key).bind cfg.cell).map KeyVal.val = hcfgGet cfg key := by
  unfold hcfgGet
  cases hashFind cfg key <;> rfl

/-- The value of a key in a list of entries. -/
def lookupEntry (es : List KeyVal) (key : Bytes) : Option Bytes :=
  (es.find? fun e => e.fold = foldCase key).map KeyVal.val

lemma lookupEntry_cons (e : KeyVal) (es : List KeyVal) (key : Bytes) :
    lookupEntry (e :: es) key = if e.fold = foldCase key then some e.val else lookupEntry es key := by
  unfold lookupEntry
  rw [List.find?_cons]
  by_cases h : e.fold = foldCase key
  · simp [h]
  · simp [h]

/-- A valid store answers with its entries. -/
lemma Hcfg.Valid.get_eq_lookup (hv : cfg.Valid) (key : Bytes) :
    hcfgGet cfg key = lookupEntry cfg.entries key := by
  unfold lookupEntry
  cases hfind : cfg.entries.find? fun e => decide (e.fold = foldCase key) with
  | none =>
    rw [Option.map_none, ← Option.not_isSome_iff_eq_none, hv.get_isSome_iff]
    intro ⟨e, he⟩
    obtain ⟨hmem, hfold⟩ := (stored_iff_mem_entries hv.length_eq).mp he
    have hno := List.find?_eq_none.mp hfind e hmem
    simp [hfold] at hno
  | some e =>
    have hfold := List.find?_some hfind
    rw [Option.map_some, hv.get_eq_some_iff]
    refine ⟨e, ?_, rfl⟩
    rw [stored_iff_mem_entries hv.length_eq]
    exact ⟨List.mem_of_find?_eq_some hfind, by simpa using hfold⟩

lemma Hcfg.Valid.get_entry (hv : cfg.Valid) (he : e ∈ cfg.entries) : hcfgGet cfg e.key = some e.val := by
  rw [hv.get_eq_some_iff]
  exact ⟨e, (stored_iff_mem_entries hv.length_eq).mpr ⟨he, rfl⟩, rfl⟩

lemma Hcfg.Valid.count_le (hv : cfg.Valid) : cfg.count ≤ 2 ^ configMaxLogsize := by
  rw [hv.count_eq]
  exact (load_le _ _).trans (Nat.pow_le_pow_right (by omega) hv.logsize_le)

/-- A new key is one entry more. -/
lemma hashInsert_count {cfg' : Hcfg} (hv : cfg.Valid) (hget : hcfgGet cfg key = none)
    (hins : hashInsert cfg key val = some (0, cfg')) : cfg'.count = cfg.count + 1 := by
  have hle := hv.count_le
  unfold configMaxLogsize at hle
  have hmod : (cfg.count + 1) % 2 ^ 32 = cfg.count + 1 := Nat.mod_eq_of_lt (by omega)
  unfold hcfgGet at hget
  unfold hashInsert at hins
  cases hfind : hashFind cfg key with
  | none =>
    rw [hfind] at hins
    exact absurd (congrArg Prod.fst (Option.some.inj hins)) (by simp)
  | some idx =>
    rw [hfind] at hget hins
    have hfree : cfg.cell idx = none := Option.map_eq_none_iff.mp hget
    simp only [hfree, hmod] at hins
    split_ifs at hins
    · obtain ⟨cfg₁, hres, heq⟩ := Option.map_eq_some_iff.mp hins
      obtain rfl := (Prod.mk.inj heq).2
      exact (hashResize_fields hres).2
    · obtain rfl := (Prod.mk.inj (Option.some.inj hins)).2
      rfl

/-! ## The loop of `hcfg_merge` -/

/-- The entries that a merge adds to `dst`. -/
def Hcfg.newEntries (dst : Hcfg) (es : List KeyVal) : List KeyVal :=
  es.filter fun e => (hcfgGet dst e.key).isNone

/-- An entry whose key `dst` has is passed over. -/
lemma hcfgMergeLoop_skip (cells : List (Option KeyVal)) (es : List KeyVal) {v : Bytes}
    (hget : hcfgGet dst e.key = some v) :
    hcfgMergeLoop dst (some e :: cells) = hcfgMergeLoop dst cells ∧
      dst.newEntries (e :: es) = dst.newEntries es := by
  rw [← hashFind_bind_cell] at hget
  obtain ⟨f, hcell, -⟩ := Option.map_eq_some_iff.mp hget
  constructor
  · rw [hcfgMergeLoop, hcell]
  · rw [Hcfg.newEntries, List.filter_cons, if_neg (by rw [← hashFind_bind_cell, hget]; simp)]
    rfl

/-- An entry with a new key is inserted, if there is room for it. -/
lemma hcfgMergeLoop_insert (cells : List (Option KeyVal)) (hv : dst.Valid) (hget : hcfgGet dst e.key = none)
    (hroom : dst.count < 2 ^ configMaxLogsize) (hnew : e.fold ∉ es.map KeyVal.fold) :
    ∃ dst₁, dst₁.Valid ∧ dst₁.count = dst.count + 1 ∧
      (∀ key, hcfgGet dst₁ key = if foldCase key = e.fold then some e.val else hcfgGet dst key) ∧
      hcfgMergeLoop dst (some e :: cells) = hcfgMergeLoop dst₁ cells ∧
      dst.newEntries (e :: es) = e :: dst₁.newEntries es := by
  obtain ⟨dst₁, hins, hv₁, hget₁⟩ := hashInsert_spec hv (Or.inr hroom) e.val
  refine ⟨dst₁, hv₁, hashInsert_count hv hget hins, hget₁, ?_, ?_⟩
  · have hfree : (hashFind dst e.key).bind dst.cell = none := by
      rw [← hashFind_bind_cell] at hget
      exact Option.map_eq_none_iff.mp hget
    rw [hcfgMergeLoop, hfree, hins]
    rfl
  · unfold Hcfg.newEntries
    rw [List.filter_cons, if_pos (by rw [hget]; rfl)]
    congr 1
    apply List.filter_congr
    intro f hf
    have hne : foldCase f.key ≠ foldCase e.key := by
      intro heq
      exact hnew (List.mem_map.mpr ⟨f, hf, heq⟩)
    rw [hget₁, if_neg hne]

/-- Where there is room for all new keys, `dst` is asked first and the entries after it. -/
theorem hcfgMergeLoop_spec (hv : dst.Valid) (hnd : (cells.reduceOption.map KeyVal.fold).Nodup)
    (hroom : dst.count + (dst.newEntries cells.reduceOption).length ≤ 2 ^ configMaxLogsize) :
    ∃ dst', hcfgMergeLoop dst cells = some (0, dst') ∧ dst'.Valid ∧
      ∀ key, hcfgGet dst' key = (hcfgGet dst key).or (lookupEntry cells.reduceOption key) := by
  induction cells generalizing dst with
  | nil =>
    refine ⟨dst, rfl, hv, fun key => ?_⟩
    show _ = (hcfgGet dst key).or none
    rw [Option.or_none]
  | cons cell cells ih =>
    cases cell with
    | none =>
      rw [List.reduceOption_cons_of_none] at hnd hroom ⊢
      exact ih hv hnd hroom
    | some e =>
      rw [List.reduceOption_cons_of_some] at hnd hroom ⊢
      rw [List.map_cons, List.nodup_cons] at hnd
      cases hget : hcfgGet dst e.key with
      | some v =>
        obtain ⟨hloop, hentries⟩ := hcfgMergeLoop_skip cells cells.reduceOption hget
        rw [hentries] at hroom
        obtain ⟨dst', hmerge, hv', hget'⟩ := ih hv hnd.2 hroom
        refine ⟨dst', hloop.trans hmerge, hv', fun key => ?_⟩
        rw [hget', lookupEntry_cons]
        by_cases hkey : e.fold = foldCase key
        · rw [hcfgGet_congr dst (show foldCase key = foldCase e.key from hkey.symm), hget]
          rfl
        · rw [if_neg hkey]
      | none =>
        have hlen : (dst.newEntries (e :: cells.reduceOption)).length ≠ 0 := by
          have hmem : e ∈ dst.newEntries (e :: cells.reduceOption) :=
            List.mem_filter.mpr ⟨List.mem_cons_self, by rw [hget]; rfl⟩
          exact Nat.ne_of_gt (List.length_pos_of_mem hmem)
        obtain ⟨dst₁, hv₁, hcount₁, hget₁, hloop, hentries⟩ :=
          hcfgMergeLoop_insert cells hv hget (by omega) hnd.1
        rw [hentries, List.length_cons] at hroom
        obtain ⟨dst', hmerge, hv', hget'⟩ := ih hv₁ hnd.2 (by omega)
        refine ⟨dst', hloop.trans hmerge, hv', fun key => ?_⟩
        rw [hget', lookupEntry_cons, hget₁]
        by_cases hkey : e.fold = foldCase key
        · rw [if_pos hkey.symm, if_pos hkey,
            hcfgGet_congr dst (show foldCase key = foldCase e.key from hkey.symm), hget]
          rfl
        · rw [if_neg (Ne.symm hkey), if_neg hkey]

/-- Where there is not, some entry is missing in the end. -/
theorem hcfgMergeLoop_overfull (hv : dst.Valid) (hnd : (cells.reduceOption.map KeyVal.fold).Nodup)
    (hfull : 2 ^ configMaxLogsize < dst.count + (dst.newEntries cells.reduceOption).length) :
    ∃ dst', hcfgMergeLoop dst cells = some (-1, dst') ∧ ∃ e ∈ cells.reduceOption,
      hcfgGet dst e.key = none ∧ hcfgGet dst' e.key = none := by
  induction cells generalizing dst with
  | nil =>
    have := hv.count_le
    exact absurd hfull (not_lt.mpr this)
  | cons cell cells ih =>
    cases cell with
    | none =>
      rw [List.reduceOption_cons_of_none] at hnd hfull ⊢
      exact ih hv hnd hfull
    | some e =>
      rw [List.reduceOption_cons_of_some] at hnd hfull ⊢
      rw [List.map_cons, List.nodup_cons] at hnd
      cases hget : hcfgGet dst e.key with
      | some v =>
        obtain ⟨hloop, hentries⟩ := hcfgMergeLoop_skip cells cells.reduceOption hget
        rw [hentries] at hfull
        obtain ⟨dst', hmerge, f, hf, hmiss⟩ := ih hv hnd.2 hfull
        exact ⟨dst', hloop.trans hmerge, f, List.mem_cons_of_mem e hf, hmiss⟩
      | none =>
        by_cases hroom : dst.count < 2 ^ configMaxLogsize
        · obtain ⟨dst₁, hv₁, hcount₁, hget₁, hloop, hentries⟩ :=
            hcfgMergeLoop_insert cells hv hget hroom hnd.1
          rw [hentries, List.length_cons] at hfull
          obtain ⟨dst', hmerge, f, hf, hmiss, hmiss'⟩ := ih hv₁ hnd.2 (by omega)
          have hne : foldCase f.key ≠ e.fold := fun heq => hnd.1 (heq ▸ List.mem_map_of_mem hf)
          rw [hget₁, if_neg hne] at hmiss
          exact ⟨dst', hloop.trans hmerge, f, List.mem_cons_of_mem e hf, hmiss, hmiss'⟩
        · -- the last table size is full
          have hunsafe : ¬ SafeInsert dst e.key := by
            unfold SafeInsert
            rw [← hv.get_isSome_iff, hget]
            simpa using hroom
          refine ⟨dst, ?_, e, List.mem_cons_self, hget, hget⟩
          have hfree : (hashFind dst e.key).bind dst.cell = none := by
            rw [← hashFind_bind_cell] at hget
            exact Option.map_eq_none_iff.mp hget
          rw [hcfgMergeLoop, hfree, hashInsert_full hv hunsafe]
          rfl

/-! ## `hcfg_merge` -/

/-- After the merge, every key has its value in `dst`, or else that in `src`, nothing else is stored, and
`src` is as before. -/
def Hcfg.MergesOver (dst src : Hcfg) : Prop :=
  ∃ ret dst', hcfgMerge dst src = some (ret, dst', src) ∧
    (∀ key, hcfgGet dst' key = (hcfgGet dst key).or (hcfgGet src key)) ∧
    ∀ e ∈ dst'.entries, (hcfgGet dst e.key).isSome ∨ (hcfgGet src e.key).isSome

lemma hcfgMerge_eq (hv : src.Valid) (dst : Hcfg) :
    hcfgMerge dst src = (hcfgMergeLoop dst src.hash).map fun (ret, dst) => (ret, dst, src) := by
  unfold hcfgMerge
  rw [Nat.one_shiftLeft, ← hv.length_eq, List.take_length]

lemma not_mergesOver (hdst : dst.Valid) (hsrc : src.Valid)
    (hfull : 2 ^ configMaxLogsize < dst.count + (dst.newEntries src.entries).length) :
    ¬ dst.MergesOver src := by
  intro ⟨ret, dst₁, hmerge, hget, _⟩
  obtain ⟨dst', hloop, e, he, hmiss, hmiss'⟩ :=
    hcfgMergeLoop_overfull hdst (nodup_entries hsrc.length_eq hsrc.sound) hfull
  rw [hcfgMerge_eq hsrc, hloop] at hmerge
  obtain ⟨-, rfl, -⟩ := by simpa using hmerge
  have hkey := hget e.key
  rw [hmiss', hmiss, hsrc.get_entry he] at hkey
  cases hkey

/-- A merge gives `dst` precedence exactly where the keys of both fit into the last table size. -/
theorem hcfg_merge_precedence (hdst : InsertOnly dst) (hsrc : InsertOnly src) :
    dst.MergesOver src ↔ dst.count + (dst.newEntries src.entries).length ≤ 2 ^ configMaxLogsize := by
  have hv := hdst.valid.1
  have hs := hsrc.valid.1
  constructor
  · intro hover
    by_contra hfull
    exact not_mergesOver hv hs (not_le.mp hfull) hover
  · intro hroom
    obtain ⟨dst', hloop, hv', hget⟩ := hcfgMergeLoop_spec hv (nodup_entries hs.length_eq hs.sound) hroom
    have hboth : ∀ key, hcfgGet dst' key = (hcfgGet dst key).or (hcfgGet src key) := by
      intro key
      rw [hget, hs.get_eq_lookup]
      rfl
    refine ⟨0, dst', by rw [hcfgMerge_eq hs, hloop]; rfl, hboth, fun e he => ?_⟩
    have hkey := hboth e.key
    rw [hv'.get_entry he] at hkey
    cases hget₁ : hcfgGet dst e.key with
    | some v => exact Or.inl rfl
    | none =>
      rw [hget₁, Option.none_or] at hkey
      exact Or.inr (by rw [← hkey]; rfl)

/-! ### Small and full tables -/

/-- A configuration after one more setting. -/
def Hcfg.put (cfg : Hcfg) (setting : Bytes × Bytes) : Hcfg :=
  ((hcfgSet cfg setting.1 (some setting.2)).map Prod.snd).getD cfg

/-- The configuration that some settings make. -/
def cfgOf (settings : List (Bytes × Bytes)) : Hcfg := settings.foldl Hcfg.put hcfgAlloc

lemma InsertOnly.put (h : InsertOnly cfg) (setting : Bytes × Bytes) : InsertOnly (cfg.put setting) := by
  unfold Hcfg.put
  cases hset : hcfgSet cfg setting.1 (some setting.2) with
  | none => exact h
  | some result => exact h.set hset

lemma cfgOf_insertOnly (settings : List (Bytes × Bytes)) : InsertOnly (cfgOf settings) := by
  unfold cfgOf
  induction settings using List.reverseRecOn with
  | nil => exact .alloc
  | append_singleton settings setting ih =>
    rw [List.foldl_append]
    exact ih.put setting

/-- The settings of a session and those of its server, with one key in both. -/
theorem hcfg_merge_precedence_strategy :
    (cfgOf [(cstr "STRATEGY", cstr "nm.so")]).MergesOver
      (cfgOf [(cstr "strategy", cstr "pro.so"), (cstr "PASSES", cstr "2")]) :=
  (hcfg_merge_precedence (cfgOf_insertOnly _) (cfgOf_insertOnly _)).mpr (by decide +kernel)

lemma tolower_of_isDigit {c : UInt8} (hc : TextScan.isDigit c = true) : tolower c = c := by
  unfold TextScan.isDigit at hc
  unfold tolower
  rw [if_neg]
  simp only [Bool.and_eq_true, decide_eq_true_eq, UInt8.le_iff_toNat_le, UInt8.reduceToNat] at hc ⊢
  omega

lemma foldCase_decimal_inj {i j : ℕ} (h : foldCase (TextScan.decimal i) = foldCase (TextScan.decimal j)) :
    i = j := by
  have hfold : ∀ n, foldCase (TextScan.decimal n) = TextScan.decimal n := by
    intro n
    calc foldCase (TextScan.decimal n) = (TextScan.decimal n).map id :=
          List.map_congr_left fun c hc => tolower_of_isDigit (TextScan.decimal_isDigit n c hc)
      _ = TextScan.decimal n := List.map_id _
  have hend : TextScan.NoDigit [] := by
    intro c cs hnil
    cases hnil
  have hi := TextScan.digits_decimal i hend
  rw [hfold, hfold] at h
  rw [h, TextScan.digits_decimal j hend] at hi
  exact (Prod.mk.inj (Option.some.inj hi)).1.symm

/-- Tables with any number of entries up to the last table size. -/
lemma exists_numbered (n : ℕ) (hn : n ≤ 2 ^ configMaxLogsize) : ∃ cfg, InsertOnly cfg ∧ cfg.count = n ∧
    ∀ i, n ≤ i → hcfgGet cfg (TextScan.decimal i) = none := by
  induction n with
  | zero => exact ⟨hcfgAlloc, .alloc, rfl, fun i _ => hcfgGet_alloc _⟩
  | succ n ih =>
    obtain ⟨cfg, hcfg, hcount, hmiss⟩ := ih (by omega)
    obtain ⟨cfg', hins, hv', hget⟩ := hashInsert_spec hcfg.valid.1
      (show SafeInsert cfg (TextScan.decimal n) from Or.inr (by omega)) (cstr "1")
    have hset : hcfgSet cfg (TextScan.decimal n) (some (cstr "1")) = some (0, cfg') := hins
    refine ⟨cfg', hcfg.set hset, ?_, ?_⟩
    · rw [hashInsert_count hcfg.valid.1 (hmiss n (le_refl n)) hins, hcount]
    · intro i hi
      have hne : foldCase (TextScan.decimal i) ≠ foldCase (TextScan.decimal n) := by
        intro heq
        have := foldCase_decimal_inj heq
        omega
      rw [hget, if_neg hne]
      exact hmiss i (by omega)

/-- Into a full table of the last size, nothing is merged. -/
theorem merge_into_full : ¬ ∀ dst src : Hcfg, InsertOnly dst → InsertOnly src → dst.MergesOver src := by
  intro hclaim
  obtain ⟨dst, hdst, hcount, hmiss⟩ := exists_numbered (2 ^ configMaxLogsize) (le_refl _)
  obtain ⟨src, hins, hsrc, hget⟩ := hashInsert_spec hcfgAlloc_valid
    (show SafeInsert hcfgAlloc (TextScan.decimal (2 ^ configMaxLogsize)) from Or.inr (Nat.two_pow_pos _))
    (cstr "1")
  have hset : hcfgSet hcfgAlloc (TextScan.decimal (2 ^ configMaxLogsize)) (some (cstr "1")) = some (0, src) :=
    hins
  apply not_mergesOver hdst.valid.1 hsrc _ (hclaim dst src hdst (InsertOnly.alloc.set hset))
  have hhas : src.Has (TextScan.decimal (2 ^ configMaxLogsize)) := by
    rw [← hsrc.get_isSome_iff, hget, if_pos rfl]
    rfl
  obtain ⟨e, he⟩ := hhas
  obtain ⟨hmem, hfold⟩ := (stored_iff_mem_entries hsrc.length_eq).mp he
  have hnone : hcfgGet dst e.key = none := (hcfgGet_congr dst hfold).trans (hmiss _ (le_refl _))
  have hnew : e ∈ dst.newEntries src.entries := List.mem_filter.mpr ⟨hmem, by rw [hnone]; rfl⟩
  have := List.length_pos_of_mem hnew
  omega

end ActiveHarmony

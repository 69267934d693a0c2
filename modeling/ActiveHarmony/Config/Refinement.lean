import ActiveHarmony.Config.Hcfg
import ActiveHarmony.Lib.LinearProbe
import Mathlib.Algebra.Order.Ring.Nat
import Mathlib.Data.List.ReduceOption

/-!
# The configuration store refines a case-insensitive map

The table of `hcfg.c` is an instance of linear probing: an entry's key is its C string with
the letters folded to lower case, and its home is `hashFunction`. `Hcfg.Valid` is the invariant
of a store that answers correctly; the operations keep it as long as `SafeOp` holds, that is,
no deletion empties a cell that another entry's probe chain crosses and the last table size is
not overfilled.
-/

namespace ActiveHarmony

open LinearProbe

/-! ## The hash function and the probe loop -/

/-- The key of an entry as the store compares it. -/
def KeyVal.fold (entry : KeyVal) : Bytes := foldCase entry.key

/-- The home cell of a folded key. -/
def homeCell (logsize : ℕ) (k : Bytes) : ℕ := hashFunction k logsize

lemma tolower_tolower (c : UInt8) : tolower (tolower c) = tolower c := by
  unfold tolower
  by_cases hc : (65 ≤ c && c ≤ 90) = true
  · rw [if_pos hc]
    simp only [Bool.and_eq_true, decide_eq_true_eq, UInt8.le_iff_toNat_le] at hc
    rw [if_neg]
    simp only [Bool.and_eq_true, decide_eq_true_eq, UInt8.le_iff_toNat_le, UInt8.toNat_add]
    simp only [UInt8.toNat_ofNat] at hc ⊢
    omega
  · rw [if_neg hc, if_neg hc]

/-- The hash does not see the case of the letters. -/
lemma hashFunction_foldCase (key : Bytes) (logsize : ℕ) :
    hashFunction (foldCase key) logsize = hashFunction key logsize := by
  have hfold : ∀ init : ℕ, (foldCase key).foldl
      (fun hash c => (hash ^^^ charToUnsigned (tolower c)) * fnvPrime32 % 2 ^ 32) init
      = key.foldl (fun hash c => (hash ^^^ charToUnsigned (tolower c)) * fnvPrime32 % 2 ^ 32) init := by
    unfold foldCase
    intro init
    rw [List.foldl_map]
    simp only [tolower_tolower]
  unfold hashFunction
  rw [hfold]

lemma hashFunction_lt (key : Bytes) (logsize : ℕ) : hashFunction key logsize < 2 ^ logsize := by
  unfold hashFunction
  rw [Nat.one_shiftLeft, Nat.and_two_pow_sub_one_eq_mod]
  exact Nat.mod_lt _ (Nat.two_pow_pos logsize)

lemma homeCell_lt (logsize : ℕ) (k : Bytes) : homeCell logsize k < 2 ^ logsize :=
  hashFunction_lt k logsize

/-- `hash_find` stops the probe where the library's lookup stops it. The test against the
first cell ends the loop after one full round. -/
lemma hashFindLoop_eq_scan (cell : ℕ → Option KeyVal) (key : Bytes) {n h : ℕ} (hh : h < n) :
    ∀ fuel j, j + fuel = n → hashFindLoop cell key n h fuel (walk n h j)
      = scan (stopAt KeyVal.fold cell (foldCase key)) n fuel (walk n h j) := by
  intro fuel
  induction fuel with
  | zero => intro j _; rfl
  | succ fuel ih =>
    intro j hj
    cases hc : cell (walk n h j) with
    | none => simp [hashFindLoop, scan, stopAt, hc]
    | some entry =>
      by_cases hk : foldCase key = foldCase entry.key
      · have hk' : entry.fold = foldCase key := hk.symm
        simp [hashFindLoop, scan, stopAt, hc, hk, hk']
      · have hk' : ¬ entry.fold = foldCase key := fun heq => hk heq.symm
        have hnext : (walk n h j + 1) % n = walk n h (j + 1) := walk_succ hh (by omega)
        simp only [hashFindLoop, scan, stopAt, hc, strcaseEq_iff, hk, hk', if_false,
          decide_false, Bool.false_eq_true, hnext]
        by_cases hlast : j + 1 = n
        · have hround : walk n h (j + 1) = h := by
            unfold walk; split_ifs <;> omega
          rw [if_pos hround, show fuel = 0 by omega]
          rfl
        · have hround : walk n h (j + 1) ≠ h := by
            unfold walk; split_ifs <;> omega
          rw [if_neg hround]
          exact ih (j + 1) (by omega)

/-- `hash_find` is the library's probe. -/
theorem hashFind_eq_scan (cfg : Hcfg) (key : Bytes) :
    hashFind cfg key = scan (stopAt KeyVal.fold cfg.cell (foldCase key)) (2 ^ cfg.logsize)
      (2 ^ cfg.logsize) (homeCell cfg.logsize (foldCase key)) := by
  have hlt := hashFunction_lt key cfg.logsize
  have hloop := hashFindLoop_eq_scan cfg.cell key hlt (2 ^ cfg.logsize) 0 (by omega)
  rw [walk_zero hlt] at hloop
  unfold hashFind homeCell
  rw [Nat.one_shiftLeft, hashFunction_foldCase]
  exact hloop

/-- The case of the key makes no difference to a search. -/
lemma hashFind_congr {key key' : Bytes} (hfold : foldCase key = foldCase key') (cfg : Hcfg) :
    hashFind cfg key = hashFind cfg key' := by
  rw [hashFind_eq_scan, hashFind_eq_scan, hfold]

/-! ## The invariant of the store -/

/-- The largest table the store grows to: from there on `count * 100` overflows before the
growth threshold is reached. -/
def configMaxLogsize : ℕ := 27

/-- The entries stored in the table, in cell order. -/
def Hcfg.entries (cfg : Hcfg) : List KeyVal := cfg.hash.reduceOption

/-- The store is a sound table, counts its entries, and has room left until its last size. -/
structure Hcfg.Valid (cfg : Hcfg) : Prop where
  length_eq : cfg.hash.length = 2 ^ cfg.logsize
  logsize_le : cfg.logsize ≤ configMaxLogsize
  count_eq : cfg.count = load cfg.cell (2 ^ cfg.logsize)
  spare : cfg.logsize < configMaxLogsize →
    cfg.count * 100 < (hashGrowthThresh + 1) * 2 ^ cfg.logsize
  sound : Sound KeyVal.fold (homeCell cfg.logsize) cfg.cell (2 ^ cfg.logsize)

variable {cfg : Hcfg} {key val : Bytes}

/-- `key` is stored, ignoring case. -/
def Hcfg.Has (cfg : Hcfg) (key : Bytes) : Prop :=
  ∃ e, Stored KeyVal.fold cfg.cell (2 ^ cfg.logsize) (foldCase key) e

lemma cell_set {hash : List (Option KeyVal)} {idx : ℕ} (hidx : idx < hash.length)
    (x : Option KeyVal) :
    (fun i => (hash.set idx x).getD i none) = Function.update (fun i => hash.getD i none) idx x := by
  funext i
  by_cases hi : i = idx
  · subst hi
    rw [Function.update_self, List.getD_eq_getElem?_getD, List.getElem?_set_self hidx]
    rfl
  · rw [Function.update_of_ne hi, List.getD_eq_getElem?_getD, List.getD_eq_getElem?_getD,
      List.getElem?_set_ne (fun heq => hi heq.symm)]

lemma Hcfg.cell_eq (cfg : Hcfg) : cfg.cell = fun i => cfg.hash.getD i none := rfl

/-- Looking a key up in a valid store. -/
theorem Hcfg.Valid.get_eq_some_iff (hv : cfg.Valid) :
    hcfgGet cfg key = some val ↔
      ∃ e, Stored KeyVal.fold cfg.cell (2 ^ cfg.logsize) (foldCase key) e ∧ e.val = val := by
  have hhome := homeCell_lt cfg.logsize (foldCase key)
  constructor
  · intro hget
    unfold hcfgGet at hget
    rw [hashFind_eq_scan] at hget
    cases hf : scan (stopAt KeyVal.fold cfg.cell (foldCase key)) (2 ^ cfg.logsize)
        (2 ^ cfg.logsize) (homeCell cfg.logsize (foldCase key)) with
    | none => rw [hf] at hget; cases hget
    | some p =>
      rw [hf] at hget
      obtain ⟨hp, hnone | ⟨e, hce, hke⟩, -⟩ := find_spec hhome hf
      · simp [hnone] at hget
      · simp only [hce, Option.map_some, Option.some.injEq] at hget
        exact ⟨e, ⟨p, hp, hce, hke⟩, hget⟩
  · rintro ⟨e, ⟨p, hp, hce, hke⟩, rfl⟩
    have hf := find_eq_of_stored hv.sound hhome hp hce hke
    unfold hcfgGet
    rw [hashFind_eq_scan, hf]
    simp [hce]

lemma Hcfg.Valid.get_isSome_iff (hv : cfg.Valid) : (hcfgGet cfg key).isSome ↔ cfg.Has key := by
  rw [Option.isSome_iff_exists]
  constructor
  · rintro ⟨v, hget⟩
    obtain ⟨e, he, -⟩ := hv.get_eq_some_iff.mp hget
    exact ⟨e, he⟩
  · rintro ⟨e, he⟩
    exact ⟨e.val, hv.get_eq_some_iff.mpr ⟨e, he, rfl⟩⟩

/-- A store below its last size is not full. -/
lemma Hcfg.Valid.not_full (hv : cfg.Valid) (hlt : cfg.logsize < configMaxLogsize) :
    load cfg.cell (2 ^ cfg.logsize) < 2 ^ cfg.logsize := by
  have hspare := hv.spare hlt
  rw [hv.count_eq, hashGrowthThresh] at hspare
  omega

/-- The empty store is valid. -/
theorem hcfgAlloc_valid : hcfgAlloc.Valid := by
  have hcell : hcfgAlloc.cell = fun _ => none := by
    funext i
    unfold Hcfg.cell hcfgAlloc hashInit
    rw [List.getD_eq_getElem?_getD, List.getElem?_replicate]
    split_ifs <;> rfl
  refine ⟨?_, by decide, ?_, fun _ => by decide, ?_⟩
  · simp [hcfgAlloc, hashInit, Nat.one_shiftLeft]
  · rw [hcell, load_empty]; rfl
  · rw [hcell]; exact sound_empty

/-! ## Growing the table -/

/-- The search for a free cell is the library's probe. -/
lemma firstFree_eq_scan (newHash : List (Option KeyVal)) (newSize : ℕ) :
    ∀ fuel idx, firstFree newHash newSize fuel idx
      = scan (fun i => (newHash.getD i none).isNone) newSize fuel idx := by
  intro fuel
  induction fuel with
  | zero => intro idx; rfl
  | succ fuel ih => intro idx; rw [firstFree, scan, ih]

lemma firstFree_lt {newHash : List (Option KeyVal)} {logsize idx : ℕ} {k : Bytes}
    (hf : firstFree newHash (2 ^ logsize) (2 ^ logsize) (homeCell logsize k) = some idx) :
    idx < 2 ^ logsize := by
  rw [firstFree_eq_scan, scan_eq_some_iff _ (homeCell_lt logsize k)] at hf
  exact hf.1

/-- `hash_resize` places the stored entries one by one, in cell order. -/
lemma foldlM_hashResizeCell (logsize : ℕ) :
    ∀ (cells : List (Option KeyVal)) (newHash : List (Option KeyVal)) (cell' : ℕ → Option KeyVal),
      newHash.length = 2 ^ logsize →
      cells.reduceOption.foldlM (place KeyVal.fold (homeCell logsize) (2 ^ logsize))
        (fun i => newHash.getD i none) = some cell' →
      ∃ newHash', cells.foldlM (hashResizeCell logsize) newHash = some newHash' ∧
        newHash'.length = 2 ^ logsize ∧ (fun i => newHash'.getD i none) = cell' := by
  intro cells
  induction cells with
  | nil =>
    intro newHash cell' hlen hplace
    exact ⟨newHash, rfl, hlen, Option.some.inj hplace⟩
  | cons c cells ih =>
    intro newHash cell' hlen hplace
    cases c with
    | none =>
      rw [List.reduceOption_cons_of_none] at hplace
      exact ih newHash cell' hlen hplace
    | some e =>
      rw [List.reduceOption_cons_of_some, List.foldlM_cons] at hplace
      have hhash : hashFunction e.key logsize = homeCell logsize e.fold :=
        (hashFunction_foldCase e.key logsize).symm
      cases hf : firstFree newHash (2 ^ logsize) (2 ^ logsize) (homeCell logsize e.fold) with
      | none =>
        rw [firstFree_eq_scan] at hf
        rw [place, hf] at hplace
        cases hplace
      | some idx =>
        have hidx : idx < newHash.length := by rw [hlen]; exact firstFree_lt hf
        have hstep : hashResizeCell logsize newHash (some e)
            = some (newHash.set idx (some e)) := by
          simp only [hashResizeCell, Nat.one_shiftLeft, hhash, hf, Option.map_some]
        rw [firstFree_eq_scan] at hf
        simp only [place, hf, Option.map_some, Option.bind_eq_bind, Option.bind_some] at hplace
        rw [← cell_set hidx] at hplace
        obtain ⟨newHash', hfold, hlen', hcell'⟩ :=
          ih (newHash.set idx (some e)) cell' (by rw [List.length_set, hlen]) hplace
        refine ⟨newHash', ?_, hlen', hcell'⟩
        rw [List.foldlM_cons, hstep]
        exact hfold

/-- The number of entries is the number of taken cells. -/
lemma length_reduceOption_eq_load (hash : List (Option KeyVal)) :
    hash.reduceOption.length = load (fun i => hash.getD i none) hash.length := by
  induction hash using List.reverseRecOn with
  | nil => rfl
  | append_singleton hash c ih =>
    have hagree : ∀ i < hash.length, (hash ++ [c]).getD i none = hash.getD i none := by
      intro i hi
      rw [List.getD_eq_getElem?_getD, List.getD_eq_getElem?_getD, List.getElem?_append_left hi]
    have hlast : (hash ++ [c]).getD hash.length none = c := by
      simp [List.getD_eq_getElem?_getD]
    have hset : (Finset.range hash.length).filter (fun i => ((hash ++ [c]).getD i none).isSome)
        = (Finset.range hash.length).filter (fun i => (hash.getD i none).isSome) := by
      refine Finset.filter_congr fun i hi => ?_
      rw [hagree i (Finset.mem_range.mp hi)]
    unfold load at ih ⊢
    rw [List.reduceOption_append, List.length_append, List.length_append, List.length_singleton,
      Finset.range_add_one, Finset.filter_insert, hset, ih]
    simp only [hlast]
    cases c with
    | none => simp
    | some e => simp

lemma mem_entries_iff (hlen : cfg.hash.length = 2 ^ cfg.logsize) {e : KeyVal} :
    e ∈ cfg.entries ↔ ∃ p < 2 ^ cfg.logsize, cfg.cell p = some e := by
  unfold Hcfg.entries Hcfg.cell
  rw [List.reduceOption_mem_iff, List.mem_iff_getElem?]
  constructor
  · rintro ⟨p, hp⟩
    have hlt : p < cfg.hash.length := (List.getElem?_eq_some_iff.mp hp).1
    exact ⟨p, hlen ▸ hlt, by rw [List.getD_eq_getElem?_getD, hp]; rfl⟩
  · rintro ⟨p, hp, hc⟩
    have hlt : p < cfg.hash.length := by rw [hlen]; exact hp
    rw [List.getD_eq_getElem?_getD, List.getElem?_eq_getElem hlt, Option.getD_some] at hc
    exact ⟨p, by rw [List.getElem?_eq_getElem hlt, hc]⟩

/-- The entries are exactly what is stored. -/
lemma stored_iff_mem_entries (hlen : cfg.hash.length = 2 ^ cfg.logsize) {k : Bytes} {e : KeyVal} :
    Stored KeyVal.fold cfg.cell (2 ^ cfg.logsize) k e ↔ e ∈ cfg.entries ∧ e.fold = k := by
  rw [mem_entries_iff hlen]
  constructor
  · rintro ⟨p, hp, hc, hk⟩
    exact ⟨⟨p, hp, hc⟩, hk⟩
  · rintro ⟨⟨p, hp, hc⟩, hk⟩
    exact ⟨p, hp, hc, hk⟩

/-- The keys of the entries of a sound table are distinct. -/
lemma nodup_entries (hlen : cfg.hash.length = 2 ^ cfg.logsize)
    (hs : Sound KeyVal.fold (homeCell cfg.logsize) cfg.cell (2 ^ cfg.logsize)) :
    (cfg.entries.map KeyVal.fold).Nodup := by
  have hpair : cfg.hash.Pairwise
      fun c d => ∀ e, c = some e → ∀ f, d = some f → e.fold ≠ f.fold := by
    rw [List.pairwise_iff_getElem]
    intro i j hi hj hij e hce f hcf heq
    have hcell : ∀ p (hp : p < cfg.hash.length), cfg.cell p = cfg.hash[p] := by
      intro p hp
      unfold Hcfg.cell
      rw [List.getD_eq_getElem?_getD, List.getElem?_eq_getElem hp, Option.getD_some]
    have := hs.distinct i (hlen ▸ hi) j (hlen ▸ hj) e f (by rw [hcell i hi, hce])
      (by rw [hcell j hj, hcf]) heq
    omega
  unfold List.Nodup Hcfg.entries List.reduceOption
  rw [List.pairwise_map, List.pairwise_filterMap]
  refine hpair.imp fun hcd e hce f hcf => ?_
  exact hcd e hce f hcf

/-- The number of the entries is the load of the table. -/
lemma entries_length (hlen : cfg.hash.length = 2 ^ cfg.logsize) :
    cfg.entries.length = load cfg.cell (2 ^ cfg.logsize) := by
  have hload := length_reduceOption_eq_load cfg.hash
  rwa [hlen] at hload

/-- A new table is empty. -/
lemma hashInit_empty (logsize : ℕ) :
    (fun i => (hashInit logsize).getD i none) = fun _ => (none : Option KeyVal) := by
  funext i
  unfold hashInit
  rw [List.getD_eq_getElem?_getD, List.getElem?_replicate]
  split_ifs <;> rfl

/-- A table of another size with room for the entries holds exactly these. The probe chains of the old table
do not matter. -/
theorem hashResize_distinct {logsize : ℕ} (hlen : cfg.hash.length = 2 ^ cfg.logsize)
    (hdistinct : (cfg.entries.map KeyVal.fold).Nodup) (hne : logsize ≠ cfg.logsize)
    (hroom : cfg.entries.length ≤ 2 ^ logsize) :
    ∃ cfg', hashResize cfg logsize = some cfg' ∧ cfg'.hash.length = 2 ^ logsize ∧
      cfg'.logsize = logsize ∧ cfg'.count = cfg.count ∧
      Sound KeyVal.fold (homeCell logsize) cfg'.cell (2 ^ logsize) ∧
      load cfg'.cell (2 ^ logsize) = load cfg.cell (2 ^ cfg.logsize) ∧
      ∀ k e, Stored KeyVal.fold cfg'.cell (2 ^ logsize) k e ↔
        Stored KeyVal.fold cfg.cell (2 ^ cfg.logsize) k e := by
  have hload := entries_length hlen
  have hinit := hashInit_empty logsize
  obtain ⟨cell', hfold, hs', hload', hst⟩ := rehash_spec (homeCell_lt logsize) cfg.entries
    (fun _ => none) sound_empty hdistinct (fun e _ f hf => by simp [Stored] at hf)
    (by rw [load_empty]; omega)
  obtain ⟨newHash', hresize, hlen', hcell'⟩ := foldlM_hashResizeCell logsize cfg.hash
    (hashInit logsize) cell' (by simp [hashInit, Nat.one_shiftLeft]) (by rw [hinit]; exact hfold)
  have hc : ({ cfg with hash := newHash', logsize := logsize } : Hcfg).cell = cell' := hcell'
  refine ⟨{ cfg with hash := newHash', logsize := logsize }, ?_, hlen', rfl, rfl, ?_, ?_, ?_⟩
  · rw [hashResize, if_neg hne, hresize]
    rfl
  · rw [hc]; exact hs'
  · rw [hc, hload', load_empty, hload, Nat.zero_add]
  · intro k e
    rw [hc, hst, stored_iff_mem_entries hlen]
    constructor
    · rintro (hmem | ⟨p, _, hnone, _⟩)
      · exact hmem
      · cases hnone
    · exact Or.inl

/-- A larger table of a sound store holds the same entries. -/
theorem hashResize_spec {logsize : ℕ} (hlen : cfg.hash.length = 2 ^ cfg.logsize)
    (hs : Sound KeyVal.fold (homeCell cfg.logsize) cfg.cell (2 ^ cfg.logsize))
    (hlt : cfg.logsize < logsize) :
    ∃ cfg', hashResize cfg logsize = some cfg' ∧ cfg'.hash.length = 2 ^ logsize ∧
      cfg'.logsize = logsize ∧ cfg'.count = cfg.count ∧
      Sound KeyVal.fold (homeCell logsize) cfg'.cell (2 ^ logsize) ∧
      load cfg'.cell (2 ^ logsize) = load cfg.cell (2 ^ cfg.logsize) ∧
      ∀ k e, Stored KeyVal.fold cfg'.cell (2 ^ logsize) k e ↔
        Stored KeyVal.fold cfg.cell (2 ^ cfg.logsize) k e := by
  have hpow : 2 ^ cfg.logsize ≤ 2 ^ logsize := Nat.pow_le_pow_right (by omega) hlt.le
  have hle := load_le cfg.cell (2 ^ cfg.logsize)
  have hload := entries_length hlen
  exact hashResize_distinct hlen (nodup_entries hlen hs) (by omega) (by omega)

/-! ## One call -/

/-- A value is set under a key that is stored already, or while the last table size is not full. -/
def SafeInsert (cfg : Hcfg) (key : Bytes) : Prop :=
  cfg.Has key ∨ cfg.count < 2 ^ configMaxLogsize

/-- The cell of the deleted key, if it has one, is not crossed by another entry's probe chain. -/
def SafeDelete (cfg : Hcfg) (key : Bytes) : Prop :=
  ∀ p < 2 ^ cfg.logsize, ∀ e ∈ cfg.cell p, e.fold = foldCase key →
    ¬ Crossed KeyVal.fold (homeCell cfg.logsize) cfg.cell (2 ^ cfg.logsize) p

/-- Two stores of which one holds a new value for one key answer alike elsewhere. -/
lemma get_of_stored_update {cfg' : Hcfg} (hv : cfg.Valid) (hv' : cfg'.Valid) {e : KeyVal}
    (hst : ∀ k f, Stored KeyVal.fold cfg'.cell (2 ^ cfg'.logsize) k f ↔
      (f = e ∧ e.fold = k) ∨
        (k ≠ e.fold ∧ Stored KeyVal.fold cfg.cell (2 ^ cfg.logsize) k f)) (key : Bytes) :
    hcfgGet cfg' key = if foldCase key = e.fold then some e.val else hcfgGet cfg key := by
  by_cases hk : foldCase key = e.fold
  · rw [if_pos hk, hv'.get_eq_some_iff]
    exact ⟨e, (hst _ _).mpr (Or.inl ⟨rfl, hk.symm⟩), rfl⟩
  · rw [if_neg hk]
    apply Option.ext
    intro v
    rw [hv'.get_eq_some_iff, hv.get_eq_some_iff]
    constructor
    · rintro ⟨f, hf, hval⟩
      rcases (hst _ _).mp hf with ⟨-, heq⟩ | ⟨-, hold⟩
      · exact absurd heq.symm hk
      · exact ⟨f, hold, hval⟩
    · rintro ⟨f, hf, hval⟩
      exact ⟨f, (hst _ _).mpr (Or.inr ⟨hk, hf⟩), hval⟩

/-- The growth test does not wrap around below the last table size, and fails at it. -/
lemma growth_test (hle : cfg.logsize ≤ configMaxLogsize) {count : ℕ}
    (hspare : cfg.logsize < configMaxLogsize → count * 100 < 51 * 2 ^ cfg.logsize + 100) :
    count * 100 % 2 ^ 32 / 2 ^ cfg.logsize > hashGrowthThresh ↔
      cfg.logsize < configMaxLogsize ∧ 51 * 2 ^ cfg.logsize ≤ count * 100 := by
  have hpos : 0 < 2 ^ cfg.logsize := Nat.two_pow_pos _
  rw [gt_iff_lt, hashGrowthThresh, Nat.lt_iff_add_one_le, Nat.le_div_iff_mul_le hpos]
  by_cases hlt : cfg.logsize < configMaxLogsize
  · have hpow : 2 ^ cfg.logsize ≤ 2 ^ 26 :=
      Nat.pow_le_pow_right (by omega) (by unfold configMaxLogsize at hlt; omega)
    have hsp := hspare hlt
    rw [Nat.mod_eq_of_lt (by omega)]
    exact ⟨fun h => ⟨hlt, h⟩, fun h => h.2⟩
  · have heq : cfg.logsize = 27 := by unfold configMaxLogsize at hle hlt; omega
    have hmod : count * 100 % 2 ^ 32 < 2 ^ 32 := Nat.mod_lt _ (by omega)
    rw [heq]
    constructor
    · intro h
      omega
    · intro h
      exact absurd h.1 (by rw [configMaxLogsize]; omega)

/-- The store counts its entries and has room left until its last size, wherever they are. -/
structure Hcfg.Fits (cfg : Hcfg) : Prop where
  length_eq : cfg.hash.length = 2 ^ cfg.logsize
  logsize_le : cfg.logsize ≤ configMaxLogsize
  count_eq : cfg.count = load cfg.cell (2 ^ cfg.logsize)
  spare : cfg.logsize < configMaxLogsize →
    cfg.count * 100 < (hashGrowthThresh + 1) * 2 ^ cfg.logsize

lemma Hcfg.Valid.fits (hv : cfg.Valid) : cfg.Fits :=
  ⟨hv.length_eq, hv.logsize_le, hv.count_eq, hv.spare⟩

lemma Hcfg.Fits.valid (h : cfg.Fits)
    (hs : Sound KeyVal.fold (homeCell cfg.logsize) cfg.cell (2 ^ cfg.logsize)) : cfg.Valid :=
  ⟨h.length_eq, h.logsize_le, h.count_eq, h.spare, hs⟩

/-- A table with room for the entries takes them all. -/
lemma hashResize_load {logsize : ℕ} (hlen : cfg.hash.length = 2 ^ cfg.logsize)
    (hne : logsize ≠ cfg.logsize) (hroom : load cfg.cell (2 ^ cfg.logsize) ≤ 2 ^ logsize) :
    ∃ cfg', hashResize cfg logsize = some cfg' ∧ cfg'.hash.length = 2 ^ logsize ∧
      cfg'.logsize = logsize ∧ cfg'.count = cfg.count ∧
      load cfg'.cell (2 ^ logsize) = load cfg.cell (2 ^ cfg.logsize) := by
  have hload := entries_length hlen
  have hinit := hashInit_empty logsize
  obtain ⟨cell', hfold, hload'⟩ := rehash_load KeyVal.fold (homeCell_lt logsize) cfg.entries
    (fun _ => none) (by rw [load_empty, hload]; omega)
  obtain ⟨newHash', hresize, hlen', hcell'⟩ := foldlM_hashResizeCell logsize cfg.hash
    (hashInit logsize) cell' (by simp [hashInit, Nat.one_shiftLeft]) (by rw [hinit]; exact hfold)
  have hc : ({ cfg with hash := newHash', logsize := logsize } : Hcfg).cell = cell' := hcell'
  refine ⟨{ cfg with hash := newHash', logsize := logsize }, ?_, hlen', rfl, rfl, ?_⟩
  · rw [hashResize, if_neg hne, hresize]
    rfl
  · rw [hc, hload', load_empty, hload, Nat.zero_add]

/-- The store right after a new entry was written. -/
def Hcfg.fill (cfg : Hcfg) (p : ℕ) (e : KeyVal) : Hcfg :=
  { cfg with hash := cfg.hash.set p (some e), count := cfg.count + 1 }

lemma Hcfg.Fits.cell_fill (h : cfg.Fits) {p : ℕ} (hp : p < 2 ^ cfg.logsize) (e : KeyVal) :
    (cfg.fill p e).cell = Function.update cfg.cell p (some e) :=
  cell_set (by rw [h.length_eq]; exact hp) _

/-- `hash_insert` of a new key. -/
lemma Hcfg.Fits.insert_free (h : cfg.Fits) (val : Bytes) {p : ℕ} (hp : p < 2 ^ cfg.logsize)
    (hf : hashFind cfg key = some p) (hfree : cfg.cell p = none) :
    ∃ cfg', hashInsert cfg key val = some (0, cfg') ∧ cfg'.Fits ∧
      (cfg' = cfg.fill p ⟨key, val⟩ ∨ hashResize (cfg.fill p ⟨key, val⟩) (cfg.logsize + 1) = some cfg') := by
  have hcell := h.cell_fill hp ⟨key, val⟩
  have hlen : (cfg.fill p ⟨key, val⟩).hash.length = 2 ^ cfg.logsize := by
    show (cfg.hash.set p _).length = _
    rw [List.length_set, h.length_eq]
  have hload : load (cfg.fill p ⟨key, val⟩).cell (2 ^ cfg.logsize) = cfg.count + 1 := by
    rw [hcell, load_put hp hfree, h.count_eq]
  have hcountLe : cfg.count + 1 ≤ 2 ^ cfg.logsize := by
    rw [← hload]
    exact load_le _ _
  have hpow : 2 ^ cfg.logsize ≤ 2 ^ 27 := Nat.pow_le_pow_right (by omega) h.logsize_le
  have hcount : (cfg.count + 1) % 2 ^ 32 = cfg.count + 1 := Nat.mod_eq_of_lt (by omega)
  have hspare : cfg.logsize < configMaxLogsize →
      (cfg.count + 1) * 100 < 51 * 2 ^ cfg.logsize + 100 := by
    intro hlt
    have hsp := h.spare hlt
    rw [hashGrowthThresh] at hsp
    omega
  have hgrow := growth_test h.logsize_le hspare
  by_cases hg : (cfg.count + 1) * 100 % 2 ^ 32 / 2 ^ cfg.logsize > hashGrowthThresh
  · obtain ⟨hlt, hge⟩ := hgrow.mp hg
    obtain ⟨cfg', hres, hlen', hls', hcnt', hload'⟩ :=
      hashResize_load hlen (Nat.succ_ne_self cfg.logsize)
        (by rw [show (cfg.fill p ⟨key, val⟩).logsize = cfg.logsize from rfl, hload, pow_succ]; omega)
    refine ⟨cfg', ?_, ⟨by rw [hlen', hls'], by rw [hls']; omega, ?_, fun _ => ?_⟩, Or.inr hres⟩
    · rw [hashInsert, hf]
      simp only [hfree, hcount, Nat.one_shiftLeft, hg, if_true]
      change (hashResize (cfg.fill p ⟨key, val⟩) (cfg.logsize + 1)).map _ = _
      rw [hres]
      rfl
    · rw [hls', hload', hcnt']
      exact hload.symm
    · rw [hcnt', hls', hashGrowthThresh, pow_succ]
      have := hspare hlt
      show (cfg.count + 1) * 100 < _
      omega
  · refine ⟨cfg.fill p ⟨key, val⟩, ?_, ⟨hlen, h.logsize_le, hload.symm, fun hlt => ?_⟩, Or.inl rfl⟩
    · rw [hashInsert, hf]
      simp only [hfree, hcount, Nat.one_shiftLeft, hg, if_false]
      rfl
    · have hnot : ¬ 51 * 2 ^ cfg.logsize ≤ (cfg.count + 1) * 100 := fun hge =>
        hg (hgrow.mpr ⟨hlt, hge⟩)
      show (cfg.count + 1) * 100 < (hashGrowthThresh + 1) * 2 ^ cfg.logsize
      rw [hashGrowthThresh]
      omega

/-- `hash_insert` over an entry. -/
lemma Hcfg.Fits.insert_over (h : cfg.Fits) (val : Bytes) {p : ℕ} {e : KeyVal} (hp : p < 2 ^ cfg.logsize)
    (hf : hashFind cfg key = some p) (hce : cfg.cell p = some e) :
    ∃ cfg', hashInsert cfg key val = some (0, cfg') ∧ cfg'.Fits ∧ cfg'.logsize = cfg.logsize ∧
      cfg'.cell = Function.update cfg.cell p (some { e with val := val }) := by
  have hcell : ({ cfg with hash := cfg.hash.set p (some { e with val := val }) } : Hcfg).cell
      = Function.update cfg.cell p (some { e with val := val }) :=
    cell_set (by rw [h.length_eq]; exact hp) _
  refine ⟨{ cfg with hash := cfg.hash.set p (some { e with val := val }) }, ?_,
    ⟨?_, h.logsize_le, ?_, h.spare⟩, rfl, hcell⟩
  · rw [hashInsert, hf]
    simp only [hce]
  · show (cfg.hash.set p _).length = _
    rw [List.length_set, h.length_eq]
  · rw [hcell]
    show cfg.count = load _ (2 ^ cfg.logsize)
    rw [load_replace hce, h.count_eq]

/-- `hash_insert` of a new key at the free cell that ends its probe chain. -/
lemma hashInsert_new (hv : cfg.Valid) {p : ℕ} (hp : p < 2 ^ cfg.logsize)
    (hf : hashFind cfg key = some p) (hfree : cfg.cell p = none)
    (hchain : ∀ q < 2 ^ cfg.logsize,
      dist (2 ^ cfg.logsize) (homeCell cfg.logsize (foldCase key)) q
        < dist (2 ^ cfg.logsize) (homeCell cfg.logsize (foldCase key)) p → cfg.cell q ≠ none)
    (hmiss : ∀ e, ¬ Stored KeyVal.fold cfg.cell (2 ^ cfg.logsize) (foldCase key) e) :
    ∃ cfg', hashInsert cfg key val = some (0, cfg') ∧ cfg'.Valid ∧
      ∀ key', hcfgGet cfg' key' = if foldCase key' = foldCase key then some val
        else hcfgGet cfg key' := by
  have hput := hv.sound.put (e := KeyVal.mk key val) hfree hchain hmiss
  have hcell := hv.fits.cell_fill hp ⟨key, val⟩
  have hlen : (cfg.fill p ⟨key, val⟩).hash.length = 2 ^ cfg.logsize := by
    show (cfg.hash.set p _).length = _
    rw [List.length_set, hv.length_eq]
  have hstored : ∀ k f, Stored KeyVal.fold (cfg.fill p ⟨key, val⟩).cell (2 ^ cfg.logsize) k f ↔
      (f = ⟨key, val⟩ ∧ foldCase key = k) ∨
        (k ≠ foldCase key ∧ Stored KeyVal.fold cfg.cell (2 ^ cfg.logsize) k f) := by
    intro k f
    rw [hcell]
    exact hv.sound.stored_write (e := KeyVal.mk key val) hp (by simp [hfree]) (fun _ => hmiss)
  obtain ⟨cfg', hins, hfits, rfl | hres⟩ := hv.fits.insert_free val hp hf hfree
  · have hv' := hfits.valid (by rw [hcell]; exact hput)
    refine ⟨_, hins, hv', fun key' => ?_⟩
    exact get_of_stored_update (e := KeyVal.mk key val) hv hv' hstored key'
  · -- the table has grown
    obtain ⟨cfg₁, hres₁, -, hls', -, hs', -, hst'⟩ :=
      hashResize_spec hlen (show Sound _ _ (cfg.fill p ⟨key, val⟩).cell _ by rw [hcell]; exact hput)
        (Nat.lt_succ_self cfg.logsize)
    obtain rfl := Option.some.inj (hres.symm.trans hres₁)
    have hv' := hfits.valid (by rw [hls']; exact hs')
    refine ⟨_, hins, hv', fun key' => ?_⟩
    refine get_of_stored_update (e := KeyVal.mk key val) hv hv' (fun k f => ?_) key'
    rw [hls', hst']
    exact hstored k f

/-- `hash_insert` over an entry of the same key. -/
lemma hashInsert_old (hv : cfg.Valid) {p : ℕ} {e : KeyVal} (hp : p < 2 ^ cfg.logsize)
    (hf : hashFind cfg key = some p) (hce : cfg.cell p = some e) (hke : e.fold = foldCase key) :
    ∃ cfg', hashInsert cfg key val = some (0, cfg') ∧ cfg'.Valid ∧
      ∀ key', hcfgGet cfg' key' = if foldCase key' = foldCase key then some val
        else hcfgGet cfg key' := by
  obtain ⟨cfg', hins, hfits, hls, hcell⟩ := hv.fits.insert_over val hp hf hce
  have hv' : cfg'.Valid := by
    apply hfits.valid
    rw [hls, hcell]
    exact hv.sound.replace hp hce rfl
  refine ⟨cfg', hins, hv', fun key' => ?_⟩
  have hget := get_of_stored_update (e := { e with val := val }) hv hv' (fun k f => ?_) key'
  · rw [hget, ← hke]
    rfl
  · rw [hls, hcell]
    exact hv.sound.stored_write (e := { e with val := val }) hp
      (fun g hg => by rw [hce] at hg; cases hg; rfl) (fun hnone => by rw [hce] at hnone; cases hnone)

/-- A safe `hash_insert` returns 0 and changes the answer for its key only. -/
theorem hashInsert_spec (hv : cfg.Valid) (hsafe : SafeInsert cfg key) (val : Bytes) :
    ∃ cfg', hashInsert cfg key val = some (0, cfg') ∧ cfg'.Valid ∧
      ∀ key', hcfgGet cfg' key' = if foldCase key' = foldCase key then some val
        else hcfgGet cfg key' := by
  have hhome := homeCell_lt cfg.logsize (foldCase key)
  by_cases hhas : cfg.Has key
  · obtain ⟨e, p, hp, hce, hke⟩ := hhas
    have hf := find_eq_of_stored hv.sound hhome hp hce hke
    rw [← hashFind_eq_scan] at hf
    exact hashInsert_old hv hp hf hce hke
  · have hmiss : ∀ e, ¬ Stored KeyVal.fold cfg.cell (2 ^ cfg.logsize) (foldCase key) e :=
      fun e he => hhas ⟨e, he⟩
    have hroom : load cfg.cell (2 ^ cfg.logsize) < 2 ^ cfg.logsize := by
      rcases Nat.lt_or_ge cfg.logsize configMaxLogsize with hlt | hge
      · exact hv.not_full hlt
      · have heq : cfg.logsize = configMaxLogsize := le_antisymm hv.logsize_le hge
        have hlt := hsafe.resolve_left hhas
        rwa [hv.count_eq, ← heq] at hlt
    obtain ⟨p, hp, hf, hfree⟩ := find_free hhome (exists_free hroom) hmiss
    have hchain := (find_spec hhome hf).2.2
    rw [← hashFind_eq_scan] at hf
    exact hashInsert_new hv hp hf hfree hchain hmiss

/-- `hash_delete` of an entry. -/
lemma Hcfg.Fits.delete (h : cfg.Fits) {p : ℕ} {e : KeyVal} (hp : p < 2 ^ cfg.logsize)
    (hf : hashFind cfg key = some p) (hce : cfg.cell p = some e) :
    ∃ cfg', hashDelete cfg key = (0, cfg') ∧ cfg'.Fits ∧ cfg'.logsize = cfg.logsize ∧
      cfg'.cell = Function.update cfg.cell p none := by
  have hload := load_clear hp hce
  have hpow : 2 ^ cfg.logsize ≤ 2 ^ 27 := Nat.pow_le_pow_right (by omega) h.logsize_le
  have hle := load_le cfg.cell (2 ^ cfg.logsize)
  have hcnt := h.count_eq
  have hcount : (cfg.count + 2 ^ 32 - 1) % 2 ^ 32 = cfg.count - 1 := by omega
  have hcell : ({ cfg with hash := cfg.hash.set p none, count := cfg.count - 1 } : Hcfg).cell
      = Function.update cfg.cell p none := cell_set (by rw [h.length_eq]; exact hp) _
  refine ⟨{ cfg with hash := cfg.hash.set p none, count := cfg.count - 1 }, ?_,
    ⟨?_, h.logsize_le, ?_, fun hlt => ?_⟩, rfl, hcell⟩
  · rw [hashDelete, hf]
    simp only [hce, hcount]
  · show (cfg.hash.set p _).length = _
    rw [List.length_set, h.length_eq]
  · rw [hcell]
    show cfg.count - 1 = load _ (2 ^ cfg.logsize)
    omega
  · have hsp := h.spare hlt
    show (cfg.count - 1) * 100 < _
    exact lt_of_le_of_lt (Nat.mul_le_mul_right 100 (Nat.sub_le _ 1)) hsp

/-- `hash_delete` of a stored key at a cell no other chain crosses. -/
lemma hashDelete_old (hv : cfg.Valid) {p : ℕ} {e : KeyVal} (hp : p < 2 ^ cfg.logsize)
    (hf : hashFind cfg key = some p) (hce : cfg.cell p = some e) (hke : e.fold = foldCase key)
    (hcross : ¬ Crossed KeyVal.fold (homeCell cfg.logsize) cfg.cell (2 ^ cfg.logsize) p) :
    (hashDelete cfg key).2.Valid ∧ ∀ key', hcfgGet (hashDelete cfg key).2 key' =
      if foldCase key' = foldCase key then none else hcfgGet cfg key' := by
  obtain ⟨cfg', hdel, hfits, hls, hcell⟩ := hv.fits.delete hp hf hce
  have hv' : cfg'.Valid := by
    apply hfits.valid
    rw [hls, hcell]
    exact hv.sound.clear hcross
  have hstored : ∀ k f, Stored KeyVal.fold cfg'.cell (2 ^ cfg'.logsize) k f ↔
      k ≠ foldCase key ∧ Stored KeyVal.fold cfg.cell (2 ^ cfg.logsize) k f := by
    intro k f
    rw [hls, hcell, stored_update_none]
    constructor
    · rintro ⟨q, hq, hqp, hc, hk⟩
      refine ⟨fun heq => hqp ?_, q, hq, hc, hk⟩
      exact hv.sound.distinct q hq p hp f e hc hce (by rw [hk, heq, hke])
    · rintro ⟨hne, q, hq, hc, hk⟩
      refine ⟨q, hq, ?_, hc, hk⟩
      rintro rfl
      rw [hce] at hc
      cases hc
      exact hne (hk.symm.trans hke)
  rw [hdel]
  refine ⟨hv', fun key' => ?_⟩
  show hcfgGet cfg' key' = _
  apply Option.ext
  intro v
  rw [hv'.get_eq_some_iff]
  by_cases hk : foldCase key' = foldCase key
  · rw [if_pos hk]
    constructor
    · rintro ⟨f, hf', -⟩
      exact absurd hk ((hstored _ _).mp hf').1
    · intro hnone
      cases hnone
  · rw [if_neg hk, hv.get_eq_some_iff]
    constructor
    · rintro ⟨f, hf', hval⟩
      exact ⟨f, ((hstored _ _).mp hf').2, hval⟩
    · rintro ⟨f, hf', hval⟩
      exact ⟨f, (hstored _ _).mpr ⟨hk, hf'⟩, hval⟩

/-- A safe `hash_delete` changes the answer for its key only. -/
theorem hashDelete_spec (hv : cfg.Valid) (hsafe : SafeDelete cfg key) :
    (hashDelete cfg key).2.Valid ∧ ∀ key', hcfgGet (hashDelete cfg key).2 key' =
      if foldCase key' = foldCase key then none else hcfgGet cfg key' := by
  have hhome := homeCell_lt cfg.logsize (foldCase key)
  by_cases hhas : cfg.Has key
  · obtain ⟨e, p, hp, hce, hke⟩ := hhas
    have hf := find_eq_of_stored hv.sound hhome hp hce hke
    rw [← hashFind_eq_scan] at hf
    exact hashDelete_old hv hp hf hce hke (hsafe p hp e hce hke)
  · -- nothing is stored under the key, so nothing is deleted
    have hmiss : hcfgGet cfg key = none := by
      rw [← Option.not_isSome_iff_eq_none, hv.get_isSome_iff]
      exact hhas
    have hsame : (hashDelete cfg key).2 = cfg := by
      unfold hashDelete
      cases hf : hashFind cfg key with
      | none => rfl
      | some p =>
        have hcp : cfg.cell p = none := by simpa [hcfgGet, hf] using hmiss
        simp only [hcp]
    rw [hsame]
    refine ⟨hv, fun key' => ?_⟩
    by_cases hk : foldCase key' = foldCase key
    · rw [if_pos hk, ← hmiss]
      unfold hcfgGet
      rw [hashFind_eq_scan, hashFind_eq_scan, hk]
    · rw [if_neg hk]

/-! ## Stores built by inserts only -/

lemma hashResize_fields {logsize : ℕ} {cfg' : Hcfg} (h : hashResize cfg logsize = some cfg') :
    cfg'.logsize = logsize ∧ cfg'.count = cfg.count := by
  unfold hashResize at h
  by_cases heq : logsize = cfg.logsize
  · rw [if_pos heq] at h
    cases h
    exact ⟨heq.symm, rfl⟩
  · rw [if_neg heq] at h
    rcases Option.map_eq_some_iff.mp h with ⟨newHash, -, rfl⟩
    exact ⟨rfl, rfl⟩

/-- An insert adds at most one entry and never shrinks the table. -/
lemma hashInsert_fields {cfg' : Hcfg} {ret : ℤ} (h : hashInsert cfg key val = some (ret, cfg')) :
    cfg.logsize ≤ cfg'.logsize ∧ cfg'.count ≤ cfg.count + 1 := by
  have hmod : (cfg.count + 1) % 2 ^ 32 ≤ cfg.count + 1 := Nat.mod_le _ _
  unfold hashInsert at h
  cases hf : hashFind cfg key with
  | none =>
    rw [hf] at h
    cases h
    exact ⟨le_refl _, Nat.le_succ _⟩
  | some idx =>
    rw [hf] at h
    cases hc : cfg.cell idx with
    | some entry =>
      simp only [hc] at h
      cases h
      exact ⟨le_refl _, Nat.le_succ _⟩
    | none =>
      simp only [hc] at h
      split_ifs at h with hgrow
      · rcases Option.map_eq_some_iff.mp h with ⟨cfg₁, hres, heq⟩
        cases heq
        have hfields := hashResize_fields hres
        rw [hfields.1, hfields.2]
        exact ⟨Nat.le_succ _, hmod⟩
      · cases h
        exact ⟨le_refl _, hmod⟩

/-- An insert into a full table of the last size fails and changes nothing. -/
lemma hashInsert_full (hv : cfg.Valid) (hsafe : ¬ SafeInsert cfg key) :
    hashInsert cfg key val = some (-1, cfg) := by
  unfold SafeInsert at hsafe
  rw [not_or, not_lt] at hsafe
  have hpow : 2 ^ cfg.logsize ≤ 2 ^ configMaxLogsize :=
    Nat.pow_le_pow_right (by omega) hv.logsize_le
  have hle := load_le cfg.cell (2 ^ cfg.logsize)
  have hcount := hv.count_eq
  have hfull : load cfg.cell (2 ^ cfg.logsize) = 2 ^ cfg.logsize := by omega
  have hf := find_full (homeCell_lt cfg.logsize (foldCase key)) (load_eq_iff_full.mp hfull)
    (fun e he => hsafe.1 ⟨e, he⟩)
  rw [← hashFind_eq_scan] at hf
  rw [hashInsert, hf]

/-- The stores reached from `hcfg_alloc` by setting values. -/
inductive InsertOnly : Hcfg → Prop where
  | alloc : InsertOnly hcfgAlloc
  | set {cfg cfg' : Hcfg} {key val : Bytes} {ret : ℤ} : InsertOnly cfg →
      hcfgSet cfg key (some val) = some (ret, cfg') → InsertOnly cfg'

theorem InsertOnly.valid (h : InsertOnly cfg) :
    cfg.Valid ∧ configInitialLogsize ≤ cfg.logsize := by
  induction h with
  | alloc => exact ⟨hcfgAlloc_valid, le_refl _⟩
  | @set cfg cfg' key val ret _ hset ih =>
    have hins : hashInsert cfg key val = some (ret, cfg') := hset
    refine ⟨?_, le_trans ih.2 (hashInsert_fields hins).1⟩
    by_cases hsafe : SafeInsert cfg key
    · rcases hashInsert_spec ih.1 hsafe val with ⟨cfg₁, hins₁, hv₁, -⟩
      rw [hins] at hins₁
      cases hins₁
      exact hv₁
    · rw [hashInsert_full ih.1 hsafe] at hins
      cases hins
      exact ih.1

/-- The entry of a key in a list of entries without duplicate keys. -/
lemma foldl_entries (key : Bytes) : ∀ (es : List KeyVal) (cur : Option Bytes),
    (es.map KeyVal.fold).Nodup → (∀ e ∈ es, e.fold = foldCase key → cur = none) → ∀ v,
      es.foldl (fun cur e => if e.fold = foldCase key then some e.val else cur) cur = some v ↔
        cur = some v ∨ ∃ e ∈ es, e.fold = foldCase key ∧ e.val = v := by
  intro es
  induction es with
  | nil => intro cur _ _ v; simp
  | cons e es ih =>
    intro cur hnd hcur v
    rw [List.map_cons, List.nodup_cons] at hnd
    rw [List.foldl_cons]
    by_cases hk : e.fold = foldCase key
    · have hother : ∀ f ∈ es, f.fold ≠ foldCase key := fun f hf hkf =>
        hnd.1 (List.mem_map.mpr ⟨f, hf, hkf.trans hk.symm⟩)
      rw [if_pos hk, ih _ hnd.2 (fun f hf hkf => absurd hkf (hother f hf)) v,
        hcur e List.mem_cons_self hk]
      constructor
      · rintro (hv | ⟨f, hf, hkf, -⟩)
        · exact Or.inr ⟨e, List.mem_cons_self, hk, Option.some.inj hv⟩
        · exact absurd hkf (hother f hf)
      · rintro (hv | ⟨f, hf, hkf, hv⟩)
        · cases hv
        · rcases List.mem_cons.mp hf with rfl | hf
          · exact Or.inl (by rw [hv])
          · exact absurd hkf (hother f hf)
    · rw [if_neg hk, ih _ hnd.2 (fun f hf => hcur f (List.mem_cons_of_mem e hf)) v]
      constructor
      · rintro (hv | ⟨f, hf, hkf⟩)
        · exact Or.inl hv
        · exact Or.inr ⟨f, List.mem_cons_of_mem e hf, hkf⟩
      · rintro (hv | ⟨f, hf, hkf, hv⟩)
        · exact Or.inl hv
        · rcases List.mem_cons.mp hf with rfl | hf
          · exact absurd hkf hk
          · exact Or.inr ⟨f, hf, hkf, hv⟩

/-- What a valid store answers, in terms of its entries. -/
theorem Hcfg.Valid.get_eq_foldl (hv : cfg.Valid) (key : Bytes) :
    hcfgGet cfg key = cfg.entries.foldl
      (fun cur e => if e.fold = foldCase key then some e.val else cur) none := by
  apply Option.ext
  intro v
  rw [foldl_entries key cfg.entries none (nodup_entries hv.length_eq hv.sound)
    (fun _ _ _ => rfl), hv.get_eq_some_iff]
  simp only [stored_iff_mem_entries hv.length_eq, reduceCtorEq, false_or, and_assoc]

lemma Hcfg.Valid.length_entries (hv : cfg.Valid) : cfg.entries.length = cfg.count := by
  have hload := length_reduceOption_eq_load cfg.hash
  rw [hv.length_eq] at hload
  rw [hv.count_eq]
  exact hload

lemma hcfgGet_alloc (key : Bytes) : hcfgGet hcfgAlloc key = none := by
  rw [← Option.not_isSome_iff_eq_none, hcfgAlloc_valid.get_isSome_iff]
  rintro ⟨e, p, _, hc, _⟩
  unfold Hcfg.cell hcfgAlloc hashInit at hc
  rw [List.getD_eq_getElem?_getD, List.getElem?_replicate] at hc
  split_ifs at hc <;> cases hc

/-- The empty store, enlarged, is a valid store without entries. -/
lemma hashResize_alloc {logsize : ℕ} (hge : configInitialLogsize ≤ logsize)
    (hle : logsize ≤ configMaxLogsize) : ∃ cfg', hashResize hcfgAlloc logsize = some cfg' ∧
      cfg'.Valid ∧ cfg'.count = 0 ∧ ∀ key, hcfgGet cfg' key = none := by
  rcases Nat.eq_or_lt_of_le hge with rfl | hlt
  · exact ⟨hcfgAlloc, rfl, hcfgAlloc_valid, rfl, hcfgGet_alloc⟩
  · rcases hashResize_spec hcfgAlloc_valid.length_eq hcfgAlloc_valid.sound hlt with
      ⟨cfg', hres, hlen, hls, hcnt, hs, hload, hst⟩
    have hv : cfg'.Valid := by
      refine ⟨by rw [hlen, hls], by rw [hls]; exact hle, ?_, fun _ => ?_, by rw [hls]; exact hs⟩
      · rw [hls, hload, hcnt, hcfgAlloc_valid.count_eq]
      · rw [hcnt, show hcfgAlloc.count = 0 from rfl, hashGrowthThresh]
        have hpos := Nat.two_pow_pos cfg'.logsize
        omega
    refine ⟨cfg', hres, hv, hcnt, fun key => ?_⟩
    rw [← Option.not_isSome_iff_eq_none, hv.get_isSome_iff]
    rintro ⟨e, he⟩
    rw [hls, hst] at he
    have hget := hcfgAlloc_valid.get_eq_some_iff.mpr ⟨e, he, rfl⟩
    rw [hcfgGet_alloc] at hget
    cases hget

/-! ## Sequences of calls -/

/-- A call of the store's interface. -/
inductive CfgOp where
  | set (key : Bytes) (val : Option Bytes)
  | unset (key : Bytes)
  | get (key : Bytes)
deriving DecidableEq, Repr

/-- The store after a call. -/
def CfgOp.apply (cfg : Hcfg) : CfgOp → Option Hcfg
  | set key val => (hcfgSet cfg key val).map Prod.snd
  | unset key => some (hcfgUnset cfg key).2
  | get _ => some cfg

/-- The abstract store: what a call does to the value of `key`, ignoring case. -/
def CfgOp.effect (key : Bytes) (cur : Option Bytes) : CfgOp → Option Bytes
  | set key' val => if foldCase key' = foldCase key then val else cur
  | unset key' => if foldCase key' = foldCase key then none else cur
  | get _ => cur

/-- The condition under which a call keeps the probe chains intact. -/
def SafeOp (cfg : Hcfg) : CfgOp → Prop
  | .set key (some _) => SafeInsert cfg key
  | .set key none => SafeDelete cfg key
  | .unset key => SafeDelete cfg key
  | .get _ => True

/-- Every call of the sequence is safe in the store it meets. -/
def SafeOps (cfg : Hcfg) : List CfgOp → Prop
  | [] => True
  | op :: ops => SafeOp cfg op ∧ ∀ cfg' ∈ op.apply cfg, SafeOps cfg' ops

instance (cfg : Hcfg) (key : Bytes) : Decidable (cfg.Has key) :=
  decidable_of_iff (∃ p < 2 ^ cfg.logsize, ∃ e ∈ cfg.cell p, e.fold = foldCase key)
    ⟨fun ⟨p, hp, e, hc, hk⟩ => ⟨e, p, hp, hc, hk⟩, fun ⟨e, p, hp, hc, hk⟩ => ⟨p, hp, e, hc, hk⟩⟩

instance (cfg : Hcfg) (key : Bytes) : Decidable (SafeInsert cfg key) :=
  inferInstanceAs (Decidable (_ ∨ _))

instance (cfg : Hcfg) (key : Bytes) : Decidable (SafeDelete cfg key) :=
  inferInstanceAs (Decidable (∀ p < 2 ^ cfg.logsize, ∀ e ∈ cfg.cell p, e.fold = foldCase key →
    ¬ Crossed KeyVal.fold (homeCell cfg.logsize) cfg.cell (2 ^ cfg.logsize) p))

instance (cfg : Hcfg) : DecidablePred (SafeOp cfg)
  | .set key (some _) => inferInstanceAs (Decidable (SafeInsert cfg key))
  | .set key none => inferInstanceAs (Decidable (SafeDelete cfg key))
  | .unset key => inferInstanceAs (Decidable (SafeDelete cfg key))
  | .get _ => inferInstanceAs (Decidable True)

instance decidableSafeOps : ∀ (ops : List CfgOp) (cfg : Hcfg), Decidable (SafeOps cfg ops)
  | [], _ => inferInstanceAs (Decidable True)
  | op :: ops, cfg =>
    have : ∀ cfg', Decidable (SafeOps cfg' ops) := decidableSafeOps ops
    inferInstanceAs (Decidable (SafeOp cfg op ∧ ∀ cfg' ∈ op.apply cfg, SafeOps cfg' ops))

/-- One safe call keeps the invariant and acts on every key as the abstract store does. -/
theorem CfgOp.apply_spec (hv : cfg.Valid) {op : CfgOp} (hsafe : SafeOp cfg op) :
    ∃ cfg', op.apply cfg = some cfg' ∧ cfg'.Valid ∧
      ∀ key, hcfgGet cfg' key = op.effect key (hcfgGet cfg key) := by
  have hdelete : ∀ key, SafeDelete cfg key → (hashDelete cfg key).2.Valid ∧
      ∀ key', hcfgGet (hashDelete cfg key).2 key' =
        if foldCase key = foldCase key' then none else hcfgGet cfg key' := by
    intro key hs
    obtain ⟨hv', hget⟩ := hashDelete_spec hv hs
    refine ⟨hv', fun key' => ?_⟩
    rw [hget]
    simp only [eq_comm]
  cases op with
  | set key val =>
    cases val with
    | none =>
      obtain ⟨hv', hget⟩ := hdelete key hsafe
      exact ⟨_, rfl, hv', hget⟩
    | some val =>
      obtain ⟨cfg', hins, hv', hget⟩ := hashInsert_spec hv hsafe val
      refine ⟨cfg', ?_, hv', fun key' => ?_⟩
      · simp only [CfgOp.apply, hcfgSet, hins, Option.map_some]
      · rw [hget]
        simp only [CfgOp.effect, eq_comm]
  | unset key =>
    obtain ⟨hv', hget⟩ := hdelete key hsafe
    exact ⟨_, rfl, hv', hget⟩
  | get key => exact ⟨cfg, rfl, hv, fun _ => rfl⟩

end ActiveHarmony

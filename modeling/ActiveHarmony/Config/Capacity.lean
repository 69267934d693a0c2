import ActiveHarmony.Config.Merge
import ActiveHarmony.Wire.Deserialize

/-!
# The configuration store does not fill up

However a store came about, with deletions in the middle of probe chains and with several entries of one key,
it counts its entries, and at most half of its cells are taken until the last table size. So every probe
loop ends at a matching or an empty cell.
-/

namespace ActiveHarmony

open LinearProbe TextScan

variable {cfg cfg' dst src : Hcfg} {key val : Bytes} {ret : ℤ}

/-! ## The stores of a program -/

/-- What `hcfg_deserialize` reads first: the number of entries and `logsize`. -/
def hcfgHeader : Scanner (ℕ × ℕ) := do
  literal (cstr "hcfg:")
  let kcount ← scanU
  let logsize ← scanU
  return (kcount, logsize)

/-- The stores that the operations of `hcfg.c` make. A store that `hcfg_deserialize` has left after some of
the entries is one, whether it reads the others or fails. -/
inductive Hcfg.Built : Hcfg → Prop where
  | alloc : Built hcfgAlloc
  | set {cfg cfg' : Hcfg} {key : Bytes} {val : Option Bytes} {ret : ℤ} (h : Built cfg)
      (hset : hcfgSet cfg key val = some (ret, cfg')) : Built cfg'
  | unset {cfg : Hcfg} {key : Bytes} (h : Built cfg) : Built (hcfgUnset cfg key).2
  | merge {dst src dst' src' : Hcfg} {ret : ℤ} (hdst : Built dst) (hsrc : Built src)
      (hmerge : hcfgMerge dst src = some (ret, dst', src')) : Built dst'
  | copy {src : Hcfg} (h : Built src) : Built (hcfgCopy src)
  | deserialize {buf body rest : Text} {kcount logsize k : ℕ} {cfg cfg' : Hcfg}
      (hhead : hcfgHeader buf = some ((kcount, logsize), body)) (hlog : logsize ≤ 24)
      (hresize : hashResize hcfgAlloc logsize = some cfg) (hk : k ≤ kcount)
      (hloop : hcfgDeserializeLoop k cfg body = some (cfg', rest)) : Built cfg'

/-! ## One operation -/

/-- Where `hash_find` stops. -/
lemma hashFind_cases (cfg : Hcfg) (key : Bytes) :
    hashFind cfg key = none ∨ ∃ p < 2 ^ cfg.logsize, hashFind cfg key = some p ∧
      (cfg.cell p = none ∨ ∃ e, cfg.cell p = some e ∧ strcaseEq key e.key = true) := by
  cases hf : hashFind cfg key with
  | none => exact Or.inl rfl
  | some p =>
    refine Or.inr ⟨p, ?_⟩
    rw [hashFind_eq_scan] at hf
    obtain ⟨hp, hcell, -⟩ := find_spec (homeCell_lt cfg.logsize (foldCase key)) hf
    refine ⟨hp, rfl, hcell.imp_right ?_⟩
    intro ⟨e, hce, hke⟩
    exact ⟨e, hce, strcaseEq_iff.mpr hke.symm⟩

/-- A store that is not full has a cell for every key. -/
lemma hashFind_ne_none (hroom : load cfg.cell (2 ^ cfg.logsize) < 2 ^ cfg.logsize) (key : Bytes) :
    hashFind cfg key ≠ none := by
  obtain ⟨q, hq, hfree⟩ := exists_free hroom
  obtain ⟨p, hscan⟩ := scan_isSome (stopAt KeyVal.fold cfg.cell (foldCase key))
    (homeCell_lt cfg.logsize (foldCase key)) hq (by simp [stopAt, hfree])
  rw [hashFind_eq_scan, hscan]
  simp

/-- An insert finds no cell and changes nothing, or it succeeds. -/
lemma Hcfg.Fits.insert (h : cfg.Fits) (key val : Bytes) :
    (hashFind cfg key = none ∧ hashInsert cfg key val = some (-1, cfg)) ∨
      ∃ cfg', hashInsert cfg key val = some (0, cfg') ∧ cfg'.Fits := by
  obtain hnone | ⟨p, hp, hf, hfree | ⟨e, hce, -⟩⟩ := hashFind_cases cfg key
  · exact Or.inl ⟨hnone, by rw [hashInsert, hnone]⟩
  · obtain ⟨cfg', hins, hfits, -⟩ := h.insert_free val hp hf hfree
    exact Or.inr ⟨cfg', hins, hfits⟩
  · obtain ⟨cfg', hins, hfits, -⟩ := h.insert_over val hp hf hce
    exact Or.inr ⟨cfg', hins, hfits⟩

/-- So does a deletion. -/
lemma Hcfg.Fits.deletion (h : cfg.Fits) (key : Bytes) :
    (hashFind cfg key = none ∧ hashDelete cfg key = (-1, cfg)) ∨
      ∃ cfg', hashDelete cfg key = (0, cfg') ∧ cfg'.Fits := by
  obtain hnone | ⟨p, hp, hf, hfree | ⟨e, hce, -⟩⟩ := hashFind_cases cfg key
  · exact Or.inl ⟨hnone, by rw [hashDelete, hnone]⟩
  · refine Or.inr ⟨cfg, ?_, h⟩
    rw [hashDelete, hf]
    simp only [hfree]
  · obtain ⟨cfg', hdel, hfits, -⟩ := h.delete hp hf hce
    exact Or.inr ⟨cfg', hdel, hfits⟩

lemma Hcfg.Fits.set (h : cfg.Fits) (key : Bytes) (val : Option Bytes) :
    (hashFind cfg key = none ∧ hcfgSet cfg key val = some (-1, cfg)) ∨
      ∃ cfg', hcfgSet cfg key val = some (0, cfg') ∧ cfg'.Fits := by
  cases val with
  | some val => exact h.insert key val
  | none =>
    obtain ⟨hnone, hdel⟩ | ⟨cfg', hdel, hfits⟩ := h.deletion key
    · exact Or.inl ⟨hnone, congrArg some hdel⟩
    · exact Or.inr ⟨cfg', congrArg some hdel, hfits⟩

/-- Whatever a call returns, the store fits. -/
lemma Hcfg.Fits.of_set {val : Option Bytes} (h : cfg.Fits) (hset : hcfgSet cfg key val = some (ret, cfg')) :
    cfg'.Fits := by
  obtain ⟨-, hsame⟩ | ⟨cfg₁, hset₁, hfits⟩ := h.set key val
  · rw [hset] at hsame
    obtain ⟨-, rfl⟩ := Prod.mk.inj (Option.some.inj hsame)
    exact h
  · rw [hset] at hset₁
    obtain ⟨-, rfl⟩ := Prod.mk.inj (Option.some.inj hset₁)
    exact hfits

lemma Hcfg.Fits.of_merge (h : dst.Fits) {cells : List (Option KeyVal)} {dst' : Hcfg}
    (hmerge : hcfgMergeLoop dst cells = some (ret, dst')) : dst'.Fits := by
  induction cells generalizing dst with
  | nil =>
    obtain ⟨-, rfl⟩ := Prod.mk.inj (Option.some.inj hmerge)
    exact h
  | cons cell cells ih =>
    cases cell with
    | none => exact ih h hmerge
    | some e =>
      rw [hcfgMergeLoop] at hmerge
      cases hfree : (hashFind dst e.key).bind dst.cell with
      | some f =>
        rw [hfree] at hmerge
        exact ih h hmerge
      | none =>
        rw [hfree] at hmerge
        obtain ⟨-, hins⟩ | ⟨dst₁, hins, hfits⟩ := h.insert e.key e.val
        · simp only [hins] at hmerge
          rw [if_pos (by decide)] at hmerge
          obtain ⟨-, rfl⟩ := Prod.mk.inj (Option.some.inj hmerge)
          exact h
        · simp only [hins] at hmerge
          rw [if_neg (by decide)] at hmerge
          exact ih hfits hmerge

/-- A copy equals its original. -/
lemma Hcfg.Fits.copy_eq (h : src.Fits) : hcfgCopy src = src := by
  unfold hcfgCopy
  rw [Nat.one_shiftLeft, ← h.length_eq, List.take_length]

/-- The store that `hcfg_deserialize` starts with. -/
lemma hashResize_fresh {logsize : ℕ} (hlog : logsize ≤ configMaxLogsize)
    (hresize : hashResize hcfgAlloc logsize = some cfg) : cfg.Fits := by
  by_cases hsame : logsize = hcfgAlloc.logsize
  · rw [hashResize, if_pos hsame] at hresize
    obtain rfl := Option.some.inj hresize
    exact hcfgAlloc_valid.fits
  · obtain ⟨cfg₁, hres₁, hlen, hls, hcount, hload⟩ := hashResize_load hcfgAlloc_valid.length_eq hsame
      (by rw [← hcfgAlloc_valid.count_eq]; exact Nat.zero_le _)
    obtain rfl := Option.some.inj (hresize.symm.trans hres₁)
    have hzero : cfg.count = 0 := hcount
    refine ⟨by rw [hlen, hls], by rw [hls]; exact hlog, ?_, fun _ => ?_⟩
    · rw [hls, hload, ← hcfgAlloc_valid.count_eq, hzero]
      rfl
    · rw [hzero, hashGrowthThresh]
      have hpos := Nat.two_pow_pos cfg.logsize
      omega

lemma Hcfg.Fits.of_loop (h : cfg.Fits) {k : ℕ} {body rest : Text}
    (hloop : hcfgDeserializeLoop k cfg body = some (cfg', rest)) : cfg'.Fits := by
  induction k generalizing cfg body with
  | zero =>
    obtain ⟨rfl, -⟩ := Prod.mk.inj (Option.some.inj hloop)
    exact h
  | succ k ih =>
    rw [hcfgDeserializeLoop] at hloop
    obtain ⟨⟨keyStr, body₁⟩, hkey, hloop⟩ := Option.bind_eq_some_iff.mp hloop
    obtain ⟨⟨valStr, body₂⟩, hval, hloop⟩ := Option.bind_eq_some_iff.mp hloop
    cases keyStr with
    | none => cases hloop
    | some keyStr =>
      dsimp only at hloop
      cases hset : hcfgSet cfg keyStr valStr with
      | none =>
        rw [hset] at hloop
        cases hloop
      | some result =>
        rw [hset] at hloop
        dsimp only at hloop
        split_ifs at hloop
        · cases hloop
        · exact ih (h.of_set hset) hloop

/-! ## All operations -/

theorem Hcfg.Built.fits (h : cfg.Built) : cfg.Fits := by
  induction h with
  | alloc => exact hcfgAlloc_valid.fits
  | set h hset ih => exact ih.of_set hset
  | @unset cfg key h ih =>
    have hset : hcfgSet cfg key none = some ((hcfgUnset cfg key).1, (hcfgUnset cfg key).2) := rfl
    exact ih.of_set hset
  | merge hdst hsrc hmerge ihdst ihsrc =>
    obtain ⟨⟨ret, dst'⟩, hloop, heq⟩ := Option.map_eq_some_iff.mp hmerge
    obtain ⟨-, rfl, -⟩ := by simpa using heq
    exact ihdst.of_merge hloop
  | copy h ih =>
    rw [ih.copy_eq]
    exact ih
  | deserialize hhead hlog hresize hk hloop =>
    exact (hashResize_fresh (hlog.trans (by decide)) hresize).of_loop hloop

/-- A successful `hcfg_deserialize` builds a store. -/
lemma Hcfg.Built.of_deserialize {buf body rest : Text} {kcount logsize : ℕ}
    (hhead : hcfgHeader buf = some ((kcount, logsize), body)) (hlog : logsize ≤ 24)
    (hread : hcfgDeserialize hcfgAlloc buf = some (cfg, rest)) : cfg.Built := by
  have hhead₀ := hhead
  unfold hcfgHeader at hhead
  obtain ⟨⟨⟨⟩, buf₁⟩, hlit, hhead⟩ := Option.bind_eq_some_iff.mp hhead
  obtain ⟨⟨kcount', buf₂⟩, hkcount, hhead⟩ := Option.bind_eq_some_iff.mp hhead
  obtain ⟨⟨logsize', buf₃⟩, hlogsize, hhead⟩ := Option.bind_eq_some_iff.mp hhead
  obtain ⟨heq, rfl⟩ := Prod.mk.inj (Option.some.inj hhead)
  obtain ⟨rfl, rfl⟩ := Prod.mk.inj heq
  unfold hcfgDeserialize at hread
  rw [bind_eq_of_eq_some hlit, bind_eq_of_eq_some hkcount, bind_eq_of_eq_some hlogsize] at hread
  cases hresize : hashResize hcfgAlloc logsize' with
  | none =>
    rw [hresize] at hread
    cases hread
  | some cfg₀ =>
    rw [hresize] at hread
    exact .deserialize hhead₀ hlog hresize (le_refl _) hread

/-- In every store of at most `2 ^ 25` entries, `count` is the number of occupied cells, at most half of the
cells are occupied, `hash_find` stops at an empty or a matching cell, and `hcfg_set` succeeds. -/
theorem hcfg_never_full (h : cfg.Built) (hcount : cfg.count ≤ 2 ^ 25) :
    cfg.count = cfg.hash.countP Option.isSome ∧ 100 * cfg.count / 2 ^ cfg.logsize ≤ 50 ∧
      (∀ key, ∃ p < cfg.hash.length, hashFind cfg key = some p ∧
        (cfg.cell p = none ∨ ∃ e, cfg.cell p = some e ∧ strcaseEq key e.key = true)) ∧
      ∀ key val, ∃ cfg', hcfgSet cfg key val = some (0, cfg') := by
  have hfits := h.fits
  have hpos := Nat.two_pow_pos cfg.logsize
  have hhalf : 100 * cfg.count < 51 * 2 ^ cfg.logsize := by
    obtain hlt | hge := Nat.lt_or_ge cfg.logsize configMaxLogsize
    · have hspare := hfits.spare hlt
      unfold hashGrowthThresh at hspare
      omega
    · have hlast := le_antisymm hfits.logsize_le hge
      rw [hlast, configMaxLogsize]
      omega
  have hroom : load cfg.cell (2 ^ cfg.logsize) < 2 ^ cfg.logsize := by
    rw [← hfits.count_eq]
    omega
  refine ⟨?_, ?_, ?_, ?_⟩
  · have hload := length_reduceOption_eq_load cfg.hash
    rw [hfits.length_eq] at hload
    rw [List.countP_eq_length_filter, ← List.reduceOption_length_eq, hload]
    exact hfits.count_eq
  · have := Nat.div_lt_of_lt_mul (show 100 * cfg.count < 2 ^ cfg.logsize * 51 by omega)
    omega
  · intro key
    rw [hfits.length_eq]
    exact (hashFind_cases cfg key).resolve_left (hashFind_ne_none hroom key)
  · intro key val
    obtain ⟨hnone, -⟩ | ⟨cfg', hset, -⟩ := hfits.set key val
    · exact absurd hnone (hashFind_ne_none hroom key)
    · exact ⟨cfg', hset⟩

/-- A decoded store of one cell that has grown once. -/
theorem hcfg_never_full_one_cell : ∃ cfg rest,
    hcfgDeserialize hcfgAlloc (cstr "hcfg:1 0 4\"PORT\" 4\"1979\" ") = some (cfg, rest) ∧
      100 * cfg.count / 2 ^ cfg.logsize = 50 ∧ hashFind cfg (cstr "PORT") ≠ none ∧
      ∃ cfg', hcfgSet cfg (cstr "PASSES") (some (cstr "2")) = some (0, cfg') := by
  have hview : (hcfgDeserialize hcfgAlloc (cstr "hcfg:1 0 4\"PORT\" 4\"1979\" ")).map
      (fun r => (r.1.count, r.1.logsize)) = some (1, 1) := by decide +kernel
  have hhead : (hcfgHeader (cstr "hcfg:1 0 4\"PORT\" 4\"1979\" ")).map Prod.fst = some (1, 0) := by
    decide +kernel
  obtain ⟨⟨cfg, rest⟩, hread, hfields⟩ := Option.map_eq_some_iff.mp hview
  obtain ⟨⟨numbers, body⟩, hnumbers, rfl⟩ := Option.map_eq_some_iff.mp hhead
  obtain ⟨hcount, hlogsize⟩ := Prod.mk.inj hfields
  have hbuilt := Hcfg.Built.of_deserialize hnumbers (by decide) hread
  obtain ⟨-, -, hfind, hset⟩ := hcfg_never_full hbuilt (by rw [hcount]; decide)
  have hload : 100 * cfg.count / 2 ^ cfg.logsize = 50 := by
    rw [show cfg.count = 1 from hcount, show cfg.logsize = 1 from hlogsize]
    norm_num
  refine ⟨cfg, rest, hread, hload, ?_, hset _ _⟩
  obtain ⟨p, -, hp, -⟩ := hfind (cstr "PORT")
  rw [hp]
  simp

end ActiveHarmony

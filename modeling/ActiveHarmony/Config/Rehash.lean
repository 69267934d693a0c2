import ActiveHarmony.Config.Refinement

/-!
# Rehashing repairs a table

A deletion in the middle of a probe chain leaves entries behind that no search reaches. `hash_resize` looks
at the cells of the old table one after the other and never searches in it, so where the entries were makes
no difference: a table whose keys are distinct ignoring case becomes a sound one, whether it grows or
shrinks, and every entry is found again.
-/

namespace ActiveHarmony

open LinearProbe

variable {cfg : Hcfg} {logsize : ℕ}

/-- The keys of the table are pairwise distinct ignoring case. Where the entries are is left open. -/
structure Hcfg.Distinct (cfg : Hcfg) : Prop where
  length_eq : cfg.hash.length = 2 ^ cfg.logsize
  count_eq : cfg.count = cfg.entries.length
  distinct : cfg.entries.Pairwise fun e f => strcaseEq e.key f.key = false

lemma strcaseEq_eq_false_iff {a b : Bytes} : strcaseEq a b = false ↔ foldCase a ≠ foldCase b := by
  rw [← Bool.not_eq_true, strcaseEq_iff]

lemma nodup_fold_iff {entries : List KeyVal} :
    (entries.map KeyVal.fold).Nodup ↔ entries.Pairwise fun e f => strcaseEq e.key f.key = false := by
  unfold List.Nodup
  rw [List.pairwise_map]
  simp only [strcaseEq_eq_false_iff]
  rfl

/-- A store that answers correctly has distinct keys. -/
lemma Hcfg.Valid.distinct (hv : cfg.Valid) : cfg.Distinct :=
  ⟨hv.length_eq, hv.count_eq.trans (entries_length hv.length_eq).symm,
    nodup_fold_iff.mp (nodup_entries hv.length_eq hv.sound)⟩

/-- The table that `hash_resize` makes. -/
lemma Hcfg.Distinct.resize (h : cfg.Distinct) (hne : logsize ≠ cfg.logsize)
    (hroom : cfg.count ≤ 2 ^ logsize) :
    ∃ cfg', hashResize cfg logsize = some cfg' ∧ cfg'.Distinct ∧ cfg'.logsize = logsize ∧
      cfg'.count = cfg.count ∧ Sound KeyVal.fold (homeCell logsize) cfg'.cell (2 ^ logsize) ∧
      ∀ e, e ∈ cfg'.entries ↔ e ∈ cfg.entries := by
  obtain ⟨cfg', hres, hlen, rfl, hcount, hs, hload, hst⟩ :=
    hashResize_distinct h.length_eq (nodup_fold_iff.mpr h.distinct) hne (by rw [← h.count_eq]; exact hroom)
  refine ⟨cfg', hres, ⟨hlen, ?_, nodup_fold_iff.mp (nodup_entries hlen hs)⟩, rfl, hcount, hs, fun e => ?_⟩
  · rw [hcount, h.count_eq, entries_length hlen, hload, entries_length h.length_eq]
  · have hiff := hst e.fold e
    rw [stored_iff_mem_entries hlen, stored_iff_mem_entries h.length_eq] at hiff
    simpa using hiff

/-- A table that is large enough for its entries becomes a valid store again. -/
theorem Hcfg.Distinct.resize_valid (h : cfg.Distinct) (hne : logsize ≠ cfg.logsize)
    (hle : logsize ≤ configMaxLogsize) (hroom : cfg.count ≤ 2 ^ logsize)
    (hspare : logsize < configMaxLogsize → cfg.count * 100 < (hashGrowthThresh + 1) * 2 ^ logsize) :
    ∃ cfg', hashResize cfg logsize = some cfg' ∧ cfg'.Valid := by
  obtain ⟨cfg', hres, h', rfl, hcount, hs, -⟩ := h.resize hne hroom
  refine ⟨cfg', hres, h'.length_eq, hle, ?_, ?_, hs⟩
  · rw [h'.count_eq, entries_length h'.length_eq]
  · rw [hcount]
    exact hspare

/-- In a sound table a search with any spelling of a stored key ends at its entry. -/
lemma hashFind_of_mem (hlen : cfg.hash.length = 2 ^ cfg.logsize)
    (hs : Sound KeyVal.fold (homeCell cfg.logsize) cfg.cell (2 ^ cfg.logsize)) {e : KeyVal}
    (he : e ∈ cfg.entries) {key : Bytes} (hkey : strcaseEq key e.key = true) :
    ∃ idx, hashFind cfg key = some idx ∧ cfg.cell idx = some e := by
  obtain ⟨p, hp, hc⟩ := (mem_entries_iff hlen).mp he
  have hfold : e.fold = foldCase key := (strcaseEq_iff.mp hkey).symm
  refine ⟨p, ?_, hc⟩
  rw [hashFind_eq_scan]
  exact find_eq_of_stored hs (homeCell_lt cfg.logsize _) hp hc hfold

/-- A search for a key that is not stored ends at an empty cell, where the table has one. -/
lemma hashFind_of_not_mem (hlen : cfg.hash.length = 2 ^ cfg.logsize)
    (hroom : cfg.entries.length < 2 ^ cfg.logsize) {key : Bytes}
    (hmiss : ∀ e ∈ cfg.entries, strcaseEq key e.key = false) :
    ∃ idx, hashFind cfg key = some idx ∧ cfg.cell idx = none := by
  have hfree := exists_free (by rw [← entries_length hlen]; exact hroom)
  have hnone : ∀ e, ¬ Stored KeyVal.fold cfg.cell (2 ^ cfg.logsize) (foldCase key) e := by
    intro e he
    rw [stored_iff_mem_entries hlen] at he
    exact strcaseEq_eq_false_iff.mp (hmiss e he.1) he.2.symm
  obtain ⟨p, -, hscan, hc⟩ := find_free (homeCell_lt cfg.logsize _) hfree hnone
  exact ⟨p, by rw [hashFind_eq_scan, hscan], hc⟩

/-- After `hash_resize` to another size with more cells than entries, every spelling of a stored key leads to
its entry, and every other key to an empty cell. (Up to 30 the source's `1 << new_logsize` and the size of
the new array are exact.) -/
theorem hashResize_reaches (h : cfg.Distinct) (hne : logsize ≠ cfg.logsize)
    (hroom : cfg.count < 2 ^ logsize) :
    ∃ cfg', hashResize cfg logsize = some cfg' ∧ cfg'.Distinct ∧ cfg'.logsize = logsize ∧
      cfg'.count = cfg.count ∧ (∀ e, e ∈ cfg'.entries ↔ e ∈ cfg.entries) ∧
      (∀ e ∈ cfg.entries, ∀ key, strcaseEq key e.key = true →
        ∃ idx, hashFind cfg' key = some idx ∧ cfg'.cell idx = some e) ∧
      ∀ key, (∀ e ∈ cfg.entries, strcaseEq key e.key = false) →
        ∃ idx, hashFind cfg' key = some idx ∧ cfg'.cell idx = none := by
  obtain ⟨cfg', hres, h', rfl, hcount, hs, hmem⟩ := h.resize hne hroom.le
  refine ⟨cfg', hres, h', rfl, hcount, hmem, ?_, ?_⟩
  · intro e he key hkey
    exact hashFind_of_mem h'.length_eq hs ((hmem e).mpr he) hkey
  · intro key hmiss
    have hlt : cfg'.entries.length < 2 ^ cfg'.logsize := by rw [← h'.count_eq, hcount]; exact hroom
    exact hashFind_of_not_mem h'.length_eq hlt fun e he => hmiss e ((hmem e).mp he)

/-- A table of two cells whose entry is not at its home. -/
def strayTable : Hcfg := ⟨[some ⟨cstr "PORT", cstr "1979"⟩, none], 1, 1⟩

/-- The search for the entry ends at the empty cell. In a table of four cells the entry is found. -/
theorem hashResize_reaches_stray :
    hashFind strayTable (cstr "PORT") = some 1 ∧ strayTable.cell 1 = none ∧
    ∃ cfg' idx, hashResize strayTable 2 = some cfg' ∧
      hashFind cfg' (cstr "port") = some idx ∧ cfg'.cell idx = some ⟨cstr "PORT", cstr "1979"⟩ := by
  refine ⟨by decide, by decide, ?_⟩
  have hdistinct : strayTable.Distinct := ⟨by decide, by decide, by decide⟩
  have hne : 2 ≠ strayTable.logsize := by decide
  obtain ⟨cfg', hres, -, -, -, -, hfind, -⟩ := hashResize_reaches hdistinct hne (by decide)
  obtain ⟨idx, hidx, hcell⟩ := hfind ⟨cstr "PORT", cstr "1979"⟩ (by decide) (cstr "port") (by decide)
  exact ⟨cfg', idx, hres, hidx, hcell⟩

end ActiveHarmony

import ActiveHarmony.Config.Capacity
import ActiveHarmony.Config.SaveFile

/-!
# Malformed requests to set a value

`handle_setcfg` does not look at what `hcfg_parse` returns, but only at the key that it leaves.
`malformed_setcfg_iff` says for which requests that are not of the form `key=value` the handler refuses and
changes nothing.
-/

namespace ActiveHarmony

/-! ## The handler -/

/-- A `setcfg` hook of a plug-in: its return value and the configuration after it. When a key is deleted,
no plug-in changes the configuration. -/
structure SetcfgHook where
  run : Bytes → Option Bytes → Hcfg → ℤ × Hcfg
  keeps : ∀ key cfg, (run key none cfg).2 = cfg

/-- The hooks of the strategy and of the layers, in order. -/
def runSetcfgHooks (key : Bytes) (val : Option Bytes) : List SetcfgHook → Hcfg → ℤ × Hcfg
  | [], cfg => (0, cfg)
  | hook :: hooks, cfg =>
    let (ret, cfg) := hook.run key val cfg
    if ret ≠ 0 then (-1, cfg) else runSetcfgHooks key val hooks cfg

/-- `session_setcfg` -/
def sessionSetcfgHooks (hooks : List SetcfgHook) (cfg : Hcfg) (key : Bytes) (val : Option Bytes) :
    Option (ℤ × Hcfg) :=
  (hcfgSet cfg key val).map fun (ret, cfg) =>
    -- Make sure setcfg callbacks are triggered after the configuration has been set.
    if ret ≠ 0 then (-1, cfg) else runSetcfgHooks key val hooks cfg

/-- `handle_setcfg` -/
def handleSetcfgHooks (hooks : List SetcfgHook) (cfg : Hcfg) (buf : Bytes) : Option (ℤ × Hcfg) :=
  match hcfgParse buf with
  | none => none
  | some (none, _) => some (-1, cfg)
  | some (some key, val) =>
    (sessionSetcfgHooks hooks cfg key val).map fun (ret, cfg) => (if ret ≠ 0 then -1 else 0, cfg)

/-- Without hooks this is `handleSetcfg`. -/
lemma handleSetcfgHooks_nil (cfg : Hcfg) (buf : Bytes) :
    handleSetcfgHooks [] cfg buf = handleSetcfg cfg buf := by
  unfold handleSetcfgHooks handleSetcfg
  cases hparse : hcfgParse buf with
  | none => rfl
  | some out =>
    obtain ⟨_ | key, val⟩ := out
    · rfl
    · simp only [sessionSetcfgHooks, Option.map_map]
      congr 1
      funext res
      by_cases hret : res.1 ≠ 0
      · simp [hret]
      · simp [not_not.mp hret, runSetcfgHooks]

/-! ## Malformed requests -/

/-- An error of the parser leaves no value. -/
lemma hcfgParse_null {buf : Bytes} (h : hcfgNext buf = none) :
    ∃ key, hcfgParse buf = some (key, none) := by
  unfold hcfgNext at h
  unfold hcfgParse
  cases hdrop : buf.dropWhile isBlank with
  | nil => exact ⟨none, rfl⟩
  | cons c t =>
    rw [hdrop] at h
    dsimp only at h ⊢
    split_ifs at h with hskip hkeyChar
    · rw [if_pos (by tauto)]
      exact ⟨none, rfl⟩
    · -- No `=`, so the parser finds no value either.
      have hsep : ∀ rest, ((c :: t).dropWhile isKeyChar).dropWhile isBlank ≠ 61 :: rest := by
        intro rest hrest
        rw [hrest] at h
        cases h
      rw [if_neg (by tauto)]
      split
      · next rest hrest => exact absurd hrest (hsep rest)
      · exact ⟨_, rfl⟩

/-- The hooks refuse a deletion exactly if one of them does. -/
lemma runSetcfgHooks_delete (hooks : List SetcfgHook) (key : Bytes) (cfg : Hcfg) :
    (runSetcfgHooks key none hooks cfg).2 = cfg ∧
      ((runSetcfgHooks key none hooks cfg).1 ≠ 0 ↔ ∃ hook ∈ hooks, (hook.run key none cfg).1 ≠ 0) := by
  induction hooks with
  | nil => exact ⟨rfl, by simp [runSetcfgHooks]⟩
  | cons hook hooks ih =>
    have hkeeps := hook.keeps key cfg
    have hstep : runSetcfgHooks key none (hook :: hooks) cfg =
        if (hook.run key none cfg).1 ≠ 0 then (-1, (hook.run key none cfg).2)
        else runSetcfgHooks key none hooks (hook.run key none cfg).2 := rfl
    rw [hstep, hkeeps]
    by_cases hret : (hook.run key none cfg).1 ≠ 0
    · rw [if_pos hret]
      exact ⟨rfl, by simp [hret]⟩
    · rw [if_neg hret]
      refine ⟨ih.1, ih.2.trans ?_⟩
      simp only [List.mem_cons, exists_eq_or_imp, hret, false_or]

/-- A deletion leaves the table as it is exactly if the key has no entry. -/
lemma hashDelete_unchanged_iff {cfg : Hcfg} (h : cfg.Fits) (key : Bytes) :
    (hashDelete cfg key).2 = cfg ↔ hcfgGet cfg key = none := by
  unfold hashDelete hcfgGet
  obtain hnone | ⟨p, hp, hf, hfree | ⟨e, hce, -⟩⟩ := hashFind_cases cfg key
  · rw [hnone]
    simp
  · rw [hf]
    simp [hfree]
  · rw [hf]
    simp only [hce, Option.map_some, reduceCtorEq, iff_false]
    intro hsame
    have hcell := congrArg (fun c : Hcfg => c.cell p) hsame
    have hlen : p < cfg.hash.length := by
      rw [h.length_eq]
      exact hp
    rw [hce] at hcell
    simp [Hcfg.cell, hlen] at hcell

/-- A request that `hcfg_parse` returns `NULL` for is refused, and changes nothing, exactly if the parser has
left no key, or a key without an entry that a hook refuses to delete or that a full table has no cell for. -/
theorem malformed_setcfg_iff (hooks : List SetcfgHook) {cfg : Hcfg} (hcfg : cfg.Built) {buf : Bytes}
    (hnull : hcfgNext buf = none) :
    handleSetcfgHooks hooks cfg buf = some (-1, cfg) ↔
      ∀ key val, hcfgParse buf = some (some key, val) →
        hcfgGet cfg key = none ∧
          (hashFind cfg key = none ∨ ∃ hook ∈ hooks, (hook.run key none cfg).1 ≠ 0) := by
  obtain ⟨key, hparse⟩ := hcfgParse_null hnull
  unfold handleSetcfgHooks
  rw [hparse]
  cases key with
  | none =>
    refine ⟨fun _ key val h => ?_, fun _ => rfl⟩
    cases h
  | some key =>
    have hunchanged := hashDelete_unchanged_iff hcfg.fits key
    have hgoal : (∀ key' val, some (some key, (none : Option Bytes)) = some (some key', val) →
        hcfgGet cfg key' = none ∧
          (hashFind cfg key' = none ∨ ∃ hook ∈ hooks, (hook.run key' none cfg).1 ≠ 0)) ↔
        hcfgGet cfg key = none ∧
          (hashFind cfg key = none ∨ ∃ hook ∈ hooks, (hook.run key none cfg).1 ≠ 0) := by
      refine ⟨fun h => h key none rfl, ?_⟩
      intro h key' val heq
      cases heq
      exact h
    rw [hgoal]
    show (Option.map _ (Option.map _ (some (hashDelete cfg key)))) = _ ↔ _
    rw [Option.map_some, Option.map_some]
    obtain ⟨hkeeps, hrefuse⟩ := runSetcfgHooks_delete hooks key (hashDelete cfg key).2
    obtain ⟨hnone, hdel⟩ | ⟨cfg', hdel, -⟩ := hcfg.fits.deletion key
    · have hget : hcfgGet cfg key = none := hunchanged.mp (by rw [hdel])
      rw [hdel]
      simp [hget, hnone]
    · have hfound : hashFind cfg key ≠ none := by
        intro hnone
        rw [hashDelete, hnone] at hdel
        cases hdel
      rw [hdel] at hkeeps hrefuse hunchanged ⊢
      dsimp only at hkeeps hrefuse hunchanged ⊢
      rw [if_neg (not_not.mpr rfl)]
      set res := runSetcfgHooks key none hooks cfg' with hres
      constructor
      · intro h
        obtain ⟨hret, hcfg'⟩ := Prod.mk.inj (Option.some.inj h)
        have hsame : cfg' = cfg := hkeeps.symm.trans hcfg'
        have hfail : res.1 ≠ 0 := by
          intro hzero
          rw [if_neg (not_not.mpr hzero)] at hret
          cases hret
        refine ⟨hunchanged.mp hsame, Or.inr ?_⟩
        rw [← hsame]
        exact hrefuse.mp hfail
      · rintro ⟨hget, hcase⟩
        have hsame : cfg' = cfg := hunchanged.mpr hget
        have hfail : res.1 ≠ 0 := by
          apply hrefuse.mpr
          rw [hsame]
          exact hcase.resolve_left hfound
        rw [if_pos hfail, hkeeps, hsame]

/-- A hook that refuses every change. -/
def refusingHook : SetcfgHook where
  run := fun _ _ cfg => (-1, cfg)
  keeps := fun _ _ => rfl

/-- A request without a separator is refused where there is no entry and a hook refuses it. -/
theorem malformed_setcfg_refused :
    hcfgNext (cstr "TITLE") = none ∧
      handleSetcfgHooks [refusingHook] hcfgAlloc (cstr "TITLE") = some (-1, hcfgAlloc) :=
  ⟨by decide, (malformed_setcfg_iff [refusingHook] .alloc (by decide)).mpr fun key _ _ =>
    ⟨hcfgGet_alloc key, Or.inr ⟨refusingHook, List.mem_singleton.mpr rfl, by simp [refusingHook]⟩⟩⟩

/-- A request with a key only deletes its entry, and the client is told that it was set. -/
theorem setcfg_without_separator_deletes :
    ¬ ∀ (hooks : List SetcfgHook) (cfg : Hcfg) (buf : Bytes), cfg.Built → hcfgNext buf = none →
      ∃ ret, handleSetcfgHooks hooks cfg buf = some (ret, cfg) ∧ ret ≠ 0 := by
  intro h
  have hbuilt : (titleCfg (cstr "x")).Built := .set .alloc (titleCfg_set _)
  obtain ⟨ret, hset, hret⟩ := h [] (titleCfg (cstr "x")) (cstr "TITLE") hbuilt (by decide)
  have hzero : (handleSetcfgHooks [] (titleCfg (cstr "x")) (cstr "TITLE")).map
      (fun res => (res.1, hcfgGet res.2 (cstr "TITLE"))) = some (0, none) := by decide +kernel
  rw [hset] at hzero
  exact hret (Prod.mk.inj (Option.some.inj hzero)).1

end ActiveHarmony

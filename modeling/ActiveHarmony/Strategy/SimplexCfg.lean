import ActiveHarmony.Layer.CacheLog
import ActiveHarmony.Strategy.InitialSimplex
import ActiveHarmony.Strategy.Nemo
import ActiveHarmony.Strategy.NelderMeadBounds
import ActiveHarmony.Strategy.ProBounds

/-!
# The configuration of `nm.c` and `pro.c`

`strategy_cfg` checks each key of the session that is set. That the expansion goes further than the
reflection is only checked when `EXPAND` is set, so the coefficients are those that the search relies on
exactly when it is, or `REFLECT` is below the default of `EXPAND`.
-/

namespace ActiveHarmony

/-! ## The keys of `defaults.h` -/

/-- `CFGKEY_INIT_METHOD`. -/
def cfgkeyInitMethod : Bytes := cstr "INIT_METHOD"

/-- `CFGKEY_INIT_PERCENT`. -/
def cfgkeyInitPercent : Bytes := cstr "INIT_PERCENT"

/-- `CFGKEY_REJECT_METHOD`. -/
def cfgkeyRejectMethod : Bytes := cstr "REJECT_METHOD"

/-- `CFGKEY_REFLECT`. -/
def cfgkeyReflect : Bytes := cstr "REFLECT"

/-- `CFGKEY_EXPAND`. -/
def cfgkeyExpand : Bytes := cstr "EXPAND"

/-- `CFGKEY_CONTRACT`. -/
def cfgkeyContract : Bytes := cstr "CONTRACT"

/-- `CFGKEY_SHRINK`. -/
def cfgkeyShrink : Bytes := cstr "SHRINK"

/-- `CFGKEY_FVAL_TOL`. -/
def cfgkeyFvalTol : Bytes := cstr "FVAL_TOL"

/-- `CFGKEY_SIZE_TOL`. -/
def cfgkeySizeTol : Bytes := cstr "SIZE_TOL"

/-! ## The parts of `strategy_cfg` -/

/-- The message about a value that is not one of its key. -/
def invalidValue (key : Bytes) : Bytes := cstr "Invalid value for " ++ key ++ cstr " configuration key."

/-- `init_method`. -/
def initMethodCfg (cfg : Hcfg) : Except Bytes SimplexInit := do
  let method ← match hcfgGet cfg cfgkeyInitMethod with
    | none => pure .center
    | some cfgval =>
      if strcaseEq cfgval (cstr "center") then pure .center
      else if strcaseEq cfgval (cstr "random") then pure .random
      else if strcaseEq cfgval (cstr "point") then pure .point
      else throw (invalidValue cfgkeyInitMethod)
  return if (hcfgGet cfg cfgkeyInitPoint).isSome then .point else method

/-- `reject_type`. -/
def rejectMethodCfg (cfg : Hcfg) : Except Bytes RejectMethod :=
  match hcfgGet cfg cfgkeyRejectMethod with
  | none => pure .penalty
  | some cfgval =>
    if strcaseEq cfgval (cstr "penalty") then pure .penalty
    else if strcaseEq cfgval (cstr "random") then pure .random
    else throw (invalidValue cfgkeyRejectMethod)

section

variable {K : Type} [Field K] [LinearOrder K]

/-- A key with a number, which keeps its value `old` when it is not set. The message about what is not a number
names the key `named`; `wrong` is the range check, and `must` is what its message says. -/
def numberCfg (strtod : Bytes → K × Bytes) (cfg : Hcfg) (key named : Bytes) (old : K) (wrong : K → Bool)
    (must : Bytes) : Except Bytes K :=
  match hcfgGet cfg key with
  | none => pure old
  | some cfgval =>
    let (x, endp) := strtod cfgval
    if endp ≠ [] then throw (invalidValue named)
    else if wrong x then throw (cstr "Configuration key " ++ key ++ must)
    else pure x

/-- The message about a fraction. -/
def mustBeFraction : Bytes := cstr " must be between 0.0 and 1.0 (exclusive)."

variable (strtod : Bytes → K × Bytes) (cfg : Hcfg)

/-- `init_percent`. -/
def initPercentCfg : Except Bytes K :=
  numberCfg strtod cfg cfgkeyInitPercent cfgkeyInitPercent ((35 : ℕ) / (100 : ℕ)) (fun x => x ≤ 0 ∨ x > 1)
    mustBeFraction

/-- `reflect`. -/
def reflectCfg : Except Bytes K :=
  numberCfg strtod cfg cfgkeyReflect cfgkeyReflect 1 (fun x => x ≤ 0) (cstr " must be positive.")

/-- `expand`. -/
def expandCfg (reflect : K) : Except Bytes K :=
  numberCfg strtod cfg cfgkeyExpand cfgkeyExpand (2 : ℕ) (fun x => x ≤ reflect)
    (cstr " must be greater than the reflect coefficient.")

/-- `contract` and `shrink`. -/
def fractionCfg (key : Bytes) : Except Bytes K :=
  numberCfg strtod cfg key key ((1 : ℕ) / (2 : ℕ)) (fun x => x ≤ 0 ∨ x ≥ 1) mustBeFraction

/-- `fval_tol` and `size_tol`. -/
def toleranceCfg (key named : Bytes) (old : K) : Except Bytes K :=
  numberCfg strtod cfg key named old (fun _ => false) []

/-- `strategy_cfg` of `nm.c`; `dist` is the distance of `vmin` and `vmax`. The messages about the tolerances name
another key. -/
def nmStrategyCfg (dist : K) : Except Bytes (SimplexInit × K × NmCfg K) := do
  let initMethod ← initMethodCfg cfg
  let initPercent ← initPercentCfg strtod cfg
  let rejectType ← rejectMethodCfg cfg
  let reflect ← reflectCfg strtod cfg
  let expand ← expandCfg strtod cfg reflect
  let contract ← fractionCfg strtod cfg cfgkeyContract
  let shrink ← fractionCfg strtod cfg cfgkeyShrink
  let fvalTol ← toleranceCfg strtod cfg cfgkeyFvalTol cfgkeyReflect ((1 : ℕ) / (10000 : ℕ))
  let sizeTol ← toleranceCfg strtod cfg cfgkeySizeTol cfgkeyReflect (dist * ((5 : ℕ) / (1000 : ℕ)))
  return (initMethod, initPercent, { rejectType, reflect, expand, contract, shrink, fvalTol, sizeTol })

/-- `strategy_cfg` of `pro.c`. -/
def proStrategyCfg (dist : K) : Except Bytes (SimplexInit × K × ProCfg K) := do
  let initMethod ← initMethodCfg cfg
  let initPercent ← initPercentCfg strtod cfg
  let rejectType ← rejectMethodCfg cfg
  let reflect ← reflectCfg strtod cfg
  let expand ← expandCfg strtod cfg reflect
  let shrink ← fractionCfg strtod cfg cfgkeyShrink
  let fvalTol ← toleranceCfg strtod cfg cfgkeyFvalTol cfgkeyFvalTol ((1 : ℕ) / (10000 : ℕ))
  let sizeTol ← toleranceCfg strtod cfg cfgkeySizeTol cfgkeySizeTol (dist * ((5 : ℕ) / (1000 : ℕ)))
  return (initMethod, initPercent, { rejectType, reflect, expand, shrink, fvalTol, sizeTol })

end

/-! ## What is accepted -/

section

variable {K : Type} [Field K] [LinearOrder K] {strtod : Bytes → K × Bytes} {cfg : Hcfg}

omit [Field K] [LinearOrder K] in
/-- A key that is not set keeps its value, and the value of one that is set has passed the check. -/
lemma numberCfg_cases {key named : Bytes} {old x : K} {wrong : K → Bool} {must : Bytes}
    (h : numberCfg strtod cfg key named old wrong must = .ok x) :
    (hcfgGet cfg key).isNone ∧ x = old ∨ (hcfgGet cfg key).isSome ∧ wrong x = false := by
  unfold numberCfg at h
  cases hget : hcfgGet cfg key with
  | none =>
    rw [hget] at h
    exact Or.inl ⟨rfl, (Except.ok.inj h).symm⟩
  | some cfgval =>
    rw [hget] at h
    dsimp only at h
    by_cases hendp : (strtod cfgval).2 ≠ []
    · rw [if_pos hendp] at h
      cases h
    · rw [if_neg hendp] at h
      cases hwrong : wrong (strtod cfgval).1 with
      | true =>
        rw [hwrong, if_pos rfl] at h
        cases h
      | false =>
        rw [hwrong, if_neg Bool.false_ne_true] at h
        rw [← Except.ok.inj h]
        exact Or.inr ⟨rfl, hwrong⟩

variable [IsStrictOrderedRing K]

lemma initPercentCfg_ok {x : K} (h : initPercentCfg strtod cfg = .ok x) : 0 < x ∧ x ≤ 1 := by
  obtain ⟨-, rfl⟩ | ⟨-, hright⟩ := numberCfg_cases h
  · norm_num
  · simpa using hright

lemma reflectCfg_ok {x : K} (h : reflectCfg strtod cfg = .ok x) : 0 < x := by
  obtain ⟨-, rfl⟩ | ⟨-, hright⟩ := numberCfg_cases h
  · exact zero_lt_one
  · simpa using hright

omit [IsStrictOrderedRing K] in
/-- The check of `EXPAND` is left out when it is not set. -/
lemma expandCfg_ok {reflect x : K} (h : expandCfg strtod cfg reflect = .ok x) :
    reflect < x ↔ (hcfgGet cfg cfgkeyExpand).isSome ∨ reflect < 2 := by
  obtain ⟨hnone, rfl⟩ | ⟨hsome, hright⟩ := numberCfg_cases h
  · have hnot : ¬(hcfgGet cfg cfgkeyExpand).isSome := by
      rw [Option.isNone_iff_eq_none.mp hnone]
      exact Bool.false_ne_true
    rw [or_iff_right hnot, Nat.cast_ofNat]
  · have hlt : reflect < x := by simpa using hright
    exact ⟨fun _ => Or.inl hsome, fun _ => hlt⟩

lemma fractionCfg_ok {key : Bytes} {x : K} (h : fractionCfg strtod cfg key = .ok x) : 0 < x ∧ x < 1 := by
  obtain ⟨-, rfl⟩ | ⟨-, hright⟩ := numberCfg_cases h
  · norm_num
  · simpa using hright

/-- An accepted configuration of `nm.c`. -/
lemma nmStrategyCfg_ok {dist percent : K} {method : SimplexInit} {coeffs : NmCfg K}
    (h : nmStrategyCfg strtod cfg dist = .ok (method, percent, coeffs)) :
    (0 < percent ∧ percent ≤ 1) ∧ reflectCfg strtod cfg = .ok coeffs.reflect ∧
      (coeffs.Admitted ↔ (hcfgGet cfg cfgkeyExpand).isSome ∨ coeffs.reflect < 2) := by
  obtain ⟨method', -, h⟩ := bind_eq_ok.mp h
  obtain ⟨percent', hpercent, h⟩ := bind_eq_ok.mp h
  obtain ⟨rejectType, -, h⟩ := bind_eq_ok.mp h
  obtain ⟨reflect, hreflect, h⟩ := bind_eq_ok.mp h
  obtain ⟨expand, hexpand, h⟩ := bind_eq_ok.mp h
  obtain ⟨contract, hcontract, h⟩ := bind_eq_ok.mp h
  obtain ⟨shrink, hshrink, h⟩ := bind_eq_ok.mp h
  obtain ⟨fvalTol, -, h⟩ := bind_eq_ok.mp h
  obtain ⟨sizeTol, -, h⟩ := bind_eq_ok.mp h
  obtain ⟨-, hrest⟩ := Prod.mk.inj (Except.ok.inj h)
  obtain ⟨rfl, rfl⟩ := Prod.mk.inj hrest
  refine ⟨initPercentCfg_ok hpercent, hreflect, ?_⟩
  rw [← expandCfg_ok hexpand]
  obtain ⟨hcontract, hcontract'⟩ := fractionCfg_ok hcontract
  obtain ⟨hshrink, hshrink'⟩ := fractionCfg_ok hshrink
  exact ⟨fun hadmitted => hadmitted.expand_gt,
    fun hlt => ⟨reflectCfg_ok hreflect, hlt, hcontract, hcontract', hshrink, hshrink'⟩⟩

/-- An accepted configuration of `pro.c`. -/
lemma proStrategyCfg_ok {dist percent : K} {method : SimplexInit} {coeffs : ProCfg K}
    (h : proStrategyCfg strtod cfg dist = .ok (method, percent, coeffs)) :
    (0 < percent ∧ percent ≤ 1) ∧ reflectCfg strtod cfg = .ok coeffs.reflect ∧
      (coeffs.Admitted ↔ (hcfgGet cfg cfgkeyExpand).isSome ∨ coeffs.reflect < 2) := by
  obtain ⟨method', -, h⟩ := bind_eq_ok.mp h
  obtain ⟨percent', hpercent, h⟩ := bind_eq_ok.mp h
  obtain ⟨rejectType, -, h⟩ := bind_eq_ok.mp h
  obtain ⟨reflect, hreflect, h⟩ := bind_eq_ok.mp h
  obtain ⟨expand, hexpand, h⟩ := bind_eq_ok.mp h
  obtain ⟨shrink, hshrink, h⟩ := bind_eq_ok.mp h
  obtain ⟨fvalTol, -, h⟩ := bind_eq_ok.mp h
  obtain ⟨sizeTol, -, h⟩ := bind_eq_ok.mp h
  obtain ⟨-, hrest⟩ := Prod.mk.inj (Except.ok.inj h)
  obtain ⟨rfl, rfl⟩ := Prod.mk.inj hrest
  refine ⟨initPercentCfg_ok hpercent, hreflect, ?_⟩
  rw [← expandCfg_ok hexpand]
  obtain ⟨hshrink, hshrink'⟩ := fractionCfg_ok hshrink
  exact ⟨fun hadmitted => hadmitted.expand_gt,
    fun hlt => ⟨reflectCfg_ok hreflect, hlt, hshrink, hshrink'⟩⟩

end

end ActiveHarmony

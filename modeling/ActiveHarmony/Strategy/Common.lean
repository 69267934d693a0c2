import ActiveHarmony.Session.Core
import Mathlib.Order.WithBot

/-!
# What the search strategies share

The functions of `hperf.c` that strategies call, `session_setcfg`, and the keys of `defaults.h`.
`W` stands for performances, with infinity as its largest element.
-/

namespace ActiveHarmony

variable {σ V W : Type}

/-- `hperf_unify`. -/
def hperfUnify [Add W] [Zero W] (perf : HPerf W) : W := perf.p.foldl (· + ·) 0

/-- `hperf_cmp`. -/
def hperfCmp [Add W] [Zero W] [LT W] [DecidableLT W] (a b : HPerf W) : ℤ :=
  if a.p.length ≠ b.p.length then a.p.length - b.p.length
  else (if hperfUnify b < hperfUnify a then 1 else 0) - (if hperfUnify a < hperfUnify b then 1 else 0)

/-- `atoi`, for numbers that fit. -/
def atoi (s : Bytes) : ℤ :=
  let number (digits : Bytes) : ℤ :=
    (digits.takeWhile fun c => 48 ≤ c ∧ c ≤ 57).foldl (fun n c => 10 * n + (c.toNat - 48)) 0
  match s.dropWhile fun c => c = 32 ∨ (9 ≤ c ∧ c ≤ 13) with
  | 45 :: digits => -number digits
  | 43 :: digits => number digits
  | digits => number digits

/-- `CFGKEY_STRATEGY_CONVERGED`. -/
def cfgkeyStrategyConverged : Bytes := cstr "STRATEGY_CONVERGED"

/-- `session_setcfg` in a session whose plug-ins have no `setcfg` hooks. -/
def sessionSetcfg (world : World σ) (key val : Bytes) : ℤ × World σ :=
  match hcfgSet world.cfg key (some val) with
  | none => (-1, world)
  | some (ret, cfg) => (if ret ≠ 0 then -1 else 0, { world with cfg := cfg })

/-- `CFGKEY_INIT_POINT`. -/
def cfgkeyInitPoint : Bytes := cstr "INIT_POINT"

/-- `session_error`. -/
def sessionError (world : World σ) (msg : Bytes) : World σ := { world with errmsg := some msg }

lemma sessionSetcfg_plug (world : World σ) (key val : Bytes) :
    (sessionSetcfg world key val).2.plug = world.plug := by
  unfold sessionSetcfg
  cases hcfgSet world.cfg key (some val) <;> rfl

lemma hpointCopy_id (orig : HPoint V) : (hpointCopy orig).id = orig.id := by
  unfold hpointCopy
  split_ifs with h
  · rw [h]
    rfl
  · rfl

end ActiveHarmony

import ActiveHarmony.Strategy.Common
import Mathlib.Algebra.Field.Defs
import Mathlib.Order.Defs.LinearOrder

/-!
# The strategy `exhaustive.c`

The search steps through the points of the space like an odometer. `K` stands for the values of
REAL variables, with exact arithmetic, and `nextafter` for the function of the C library. The parse
of `CFGKEY_INIT_POINT` into values and indices is a parameter.
-/

namespace ActiveHarmony

/-- The variables of `exhaustive.c`; `allocated` tells whether `idx` is not `NULL`. -/
structure Exhaustive (K W : Type) where
  best : HPoint K
  bestPerf : W
  range : List (HRange K)
  curr : HPoint K
  idx : List ℕ
  allocated : Bool
  remainingPasses : ℤ
  finalId : ℤ
  outstandingPoints : ℤ
  finalPointReceived : Bool

variable {K W : Type} [Field K] [LinearOrder K]

/-- A `long` stored in an `int`. -/
def intOfLong (x : ℤ) : ℤ := (x + 2 ^ 31) % 2 ^ 32 - 2 ^ 31

variable (nextafter : K → K)

/-- One round of the loop of `increment`: whether the variable overflows, its value and its
index. -/
def wheel (range : HRange K) (val : HVal K) (idx : ℕ) : Option (Bool × HVal K × ℕ) :=
  let idx := idx + 1
  match range.bounds, val with
  | .int min max step, .int i =>
    let i := i + step
    if i > max then some (true, .int min, 0) else some (false, .int i, idx)
  | .real min max step, .real r =>
    let r := if step > 0 then min + idx * step else nextafter r
    if r > max then some (true, .real min, 0) else some (false, .real r, idx)
  | .str set, .str _ =>
    if idx ≥ set.length then some (true, .str set[0]?, 0) else some (false, .str set[idx]?, idx)
  | _, _ => none

/-- The loop of `increment`: whether it met a variable without overflow. -/
def turn : List (HRange K) → List (HVal K) → List ℕ → Option (Bool × List (HVal K) × List ℕ)
  | range :: ranges, val :: vals, idx :: idxs => do
    let (overflow, val, idx) ← wheel nextafter range val idx
    if overflow then
      let (stopped, vals, idxs) ← turn ranges vals idxs
      some (stopped, val :: vals, idx :: idxs)
    else some (true, val :: vals, idx :: idxs)
  | [], [], [] => some (false, [], [])
  | _, _, _ => none

/-- Whether the look-ahead of `increment` expects the variable to overflow. -/
def overflowsNext (range : HRange K) (val : HVal K) (idx : ℕ) : Option Bool :=
  match range.bounds, val with
  | .int _ max step, .int i =>
    let nextI := intOfLong (i + step)
    some (nextI > max)
  | .real min max step, .real r =>
    let nextR := if step > 0 then min + idx * step else nextafter r
    some (nextR > max)
  | .str set, .str _ => some (idx + 1 ≥ set.length)
  | _, _ => none

/-- `n_overflows`. -/
def countOverflows : List (HRange K) → List (HVal K) → List ℕ → Option ℕ
  | range :: ranges, val :: vals, idx :: idxs => do
    let overflow ← overflowsNext nextafter range val idx
    let n ← countOverflows ranges vals idxs
    some (if overflow then n + 1 else n)
  | [], [], [] => some 0
  | _, _, _ => none

/-- `increment`. -/
def increment (s : Exhaustive K W) : ℤ × Exhaustive K W :=
  if s.remainingPasses ≤ 0 then (0, s)
  else
    match turn nextafter s.range s.curr.val s.idx with
    | none => (-1, s)
    | some (true, vals, idx) =>
      let s := { s with curr := { s.curr with val := vals }, idx := idx }
      -- Look ahead one point, to figure out the final point id before it's generated.
      match countOverflows nextafter s.range s.curr.val s.idx with
      | none => (-1, s)
      | some nOverflows =>
        if s.remainingPasses - 1 ≤ 0 ∧ nOverflows ≥ s.range.length then
          (0, { s with finalId := s.curr.id })
        else (0, s)
    | some (false, vals, idx) =>
      let s := { s with
        curr := { s.curr with val := vals }, idx := idx, remainingPasses := s.remainingPasses - 1 }
      -- All values overflowed.
      if s.remainingPasses ≤ 0 then (0, { s with finalId := s.curr.id - 1 }) else (0, s)

/-- The value of a variable at the start of a pass. -/
def HRange.first (range : HRange K) : Option (HVal K) :=
  match range.bounds with
  | .int min _ _ => some (.int min)
  | .real min _ _ => some (.real min)
  | .str set => some (.str set[0]?)
  | .unknown => none

/-- `CFGKEY_PASSES`. -/
def cfgkeyPasses : Bytes := cstr "PASSES"

/-- `strategy_cfg`. -/
def exCfg (pointOf : Bytes → Option (List (HVal K) × List ℕ)) (world : World (Exhaustive K W)) :
    ℤ × World (Exhaustive K W) :=
  let s := world.plug
  let s := match hcfgGet world.cfg cfgkeyPasses with
    | some cfgstr => { s with remainingPasses := atoi cfgstr }
    | none => s
  match hcfgGet world.cfg cfgkeyInitPoint with
  | some cfgstr =>
    match pointOf cfgstr with
    | none => (-1, sessionError { world with plug := s }
        (cstr "Error parsing point from INIT_POINT."))
    | some (vals, idx) =>
      (0, { world with plug := { s with curr := { s.curr with val := vals }, idx := idx } })
  | none =>
    match s.range.mapM HRange.first with
    | none => (-1, sessionError { world with plug := s }
        (cstr "Invalid range detected during strategy init."))
    | some vals =>
      let idx := List.replicate s.range.length 0
      (0, { world with plug := { s with curr := { s.curr with val := vals }, idx := idx } })

/-- `strategy_init`. -/
def exInit [Top W] (pointOf : Bytes → Option (List (HVal K) × List ℕ)) (sig : HSignature K)
    (world : World (Exhaustive K W)) : ℤ × World (Exhaustive K W) :=
  let s := { world.plug with range := sig.range }
  -- One time initialization: kept across a restart.
  let s := if s.allocated then s else
    { s with
      allocated := true
      best := hpointInitializer K
      bestPerf := ⊤
      curr := { s.curr with id := 1 } }
  let (ret, world) := exCfg pointOf { world with plug := s }
  if ret ≠ 0 then (-1, world)
  else
    let (ret, world) := sessionSetcfg world cfgkeyStrategyConverged (cstr "0")
    if ret ≠ 0 then (-1, sessionError world
      (cstr "Could not set STRATEGY_CONVERGED config variable."))
    else (0, world)

/-- `strategy_generate`. -/
def exGenerate (world : World (Exhaustive K W)) (flow : Flow K) (point : HPoint K) :
    ℤ × World (Exhaustive K W) × Flow K × HPoint K :=
  let s := world.plug
  let (ret, s, copy) :=
    if s.remainingPasses > 0 then
      let copy := hpointCopy s.curr
      let (ret, s) := increment nextafter s
      if ret ≠ 0 then (ret, s, point)
      else (0, { s with curr := { s.curr with id := s.curr.id + 1 } }, copy)
    else (0, s, hpointCopy s.best)
  if ret ≠ 0 then (-1, { world with plug := s }, flow, point)
  else
    let s := if s.finalId = 0 ∨ s.curr.id ≤ s.finalId then
      { s with outstandingPoints := s.outstandingPoints + 1 } else s
    (0, { world with plug := s }, { flow with status := .accept }, copy)

/-- `strategy_rejected`. -/
def exRejected (world : World (Exhaustive K W)) (flow : Flow K) (point : HPoint K) :
    ℤ × World (Exhaustive K W) × Flow K × HPoint K :=
  let s := world.plug
  let accepted := { flow with status := .accept }
  if flow.point.id ≠ -1 then (0, world, accepted, { hpointCopy flow.point with id := point.id })
  else
    let copy := hpointCopy s.curr
    let (ret, s) := increment nextafter s
    if ret ≠ 0 then (-1, { world with plug := s }, flow, copy)
    else (0, { world with plug := s }, accepted, { copy with id := point.id })

/-- `strategy_analyze` keeps the best point. -/
def exRecord [Add W] [Zero W] [LT W] [DecidableLT W] (s : Exhaustive K W) (trial : HTrial K W) :
    Exhaustive K W :=
  let perf := hperfUnify trial.perf
  if perf < s.bestPerf then { s with bestPerf := perf, best := hpointCopy trial.point } else s

/-- `strategy_analyze` counts the trials it waits for. -/
def exCount (s : Exhaustive K W) (id : ℤ) : Exhaustive K W :=
  let s := if s.finalId = 0 ∨ id ≤ s.finalId then
    { s with outstandingPoints := s.outstandingPoints - 1 } else s
  if id = s.finalId then { s with finalPointReceived := true } else s

/-- `strategy_analyze` sets `CFGKEY_STRATEGY_CONVERGED`. -/
def exConverge (world : World (Exhaustive K W)) : ℤ × World (Exhaustive K W) :=
  let (ret, world) := sessionSetcfg world cfgkeyStrategyConverged (cstr "1")
  if ret ≠ 0 then
    (-1, sessionError world (cstr "Internal error: Could not set convergence status."))
  else (0, world)

/-- `strategy_analyze`. -/
def exAnalyze [Add W] [Zero W] [LT W] [DecidableLT W] (world : World (Exhaustive K W))
    (trial : HTrial K W) : ℤ × World (Exhaustive K W) :=
  let s := exRecord world.plug trial
  let world := { world with plug := s }
  let (ret, world) := if trial.point.id = s.finalId then exConverge world else (0, world)
  if ret ≠ 0 then (-1, world)
  else
    let s := exCount s trial.point.id
    let world := { world with plug := s }
    -- Converged when the final point has been received, and there are no outstanding points.
    if s.outstandingPoints ≤ 0 ∧ s.finalPointReceived then exConverge world else (0, world)

/-- `strategy_best`. -/
def exBest (world : World (Exhaustive K W)) (_ : HPoint K) :
    ℤ × World (Exhaustive K W) × HPoint K :=
  (0, world, hpointCopy world.plug.best)

/-- The variables of `exhaustive.c` when it is loaded. -/
def Exhaustive.loaded [Top W] : Exhaustive K W where
  best := hpointInitializer K
  bestPerf := ⊤
  range := []
  curr := hpointInitializer K
  idx := []
  allocated := false
  remainingPasses := 1
  finalId := 0
  outstandingPoints := 0
  finalPointReceived := false

end ActiveHarmony

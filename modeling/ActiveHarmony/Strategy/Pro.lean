import ActiveHarmony.Strategy.NelderMead

/-!
# The strategy `pro.c`

The Parallel Rank Order search. All vertices of the simplex `test` are sent before one round of the
algorithm looks at them. As for `nm.c`, the arithmetic of `libvertex.c`, the initial simplex and the
values that `strategy_cfg` reads are parameters.
-/

namespace ActiveHarmony

/-- `simplex_state_t`. -/
inductive ProState where
  | init | reflect | expandOne | expandAll | shrink | converged
deriving DecidableEq, Repr

/-- What `strategy_cfg` reads. -/
structure ProCfg (K : Type) where
  rejectType : RejectMethod
  reflect : K
  expand : K
  shrink : K
  fvalTol : K
  sizeTol : K

/-- The functions of `libvertex.c` and `strategy_cfg` for one signature. -/
structure ProLib (K T V W ρ : Type) where
  strategyCfg : Hcfg → Option (ProCfg K)
  /-- `CFGKEY_SIMPLEX_SIZE`, but at least the number of variables and one. -/
  simplexSize : Hcfg → ℕ
  perfCount : ℕ
  /-- The initial point and `simplex_from_vertex`. -/
  initial : ρ → Hcfg → ℕ → List T × ρ
  vertexRand : ρ → T × ρ
  vertexToHpoint : T → List (HVal V)
  vertexFromHpoint : List (HVal V) → T
  vertexTransform : T → T → K → T
  vertexOutofbounds : T → Bool
  /-- `check_convergence`. -/
  hasConverged : ProCfg K → List (Vertex T W) → Bool

/-- The variables of `pro.c`. Before the first call of `strategy_init`, `base` is empty. -/
structure Pro (K T V W ρ : Type) where
  best : HPoint V
  bestPerf : W
  cfg : ProCfg K
  simplexSize : ℕ
  state : ProState
  base : List (Vertex T W)
  test : List (Vertex T W)
  bestBase : ℕ
  bestTest : ℕ
  bestStash : ℕ
  nextId : ℤ
  sendIdx : ℕ
  reported : ℕ
  rand : ρ

variable {K T V W ρ : Type} [Neg K] [Add W] [Zero W] [LT W] [DecidableLT W] [Top W]

variable (lib : ProLib K T V W ρ)

/-- The test of `pro_next_state`: the vertex `i` of `test` is better than the best of `base`. -/
def Pro.improves (m : Pro K T V W ρ) (i : ℕ) : Option Bool := do
  let new ← m.test[i]?
  let best ← m.base[m.bestBase]?
  some (hperfCmp new.perf best.perf < 0)

/-- `pro_next_state`. -/
def proNextState (m : Pro K T V W ρ) : Option (Pro K T V W ρ) :=
  match m.state with
  | .init | .shrink =>
    -- Simply accept the candidate simplex and prepare to reflect.
    some { m with base := m.test, bestBase := m.bestTest, state := .reflect }
  | .reflect => do
    if ← m.improves m.bestTest then
      some { m with base := m.test, bestStash := m.bestTest, state := .expandOne }
    else some { m with state := .shrink }
  | .expandOne => do
    if ← m.improves 0 then some { m with state := .expandAll }
    else some { m with bestBase := m.bestStash, state := .reflect }
  | .expandAll => do
    if ← m.improves m.bestTest then
      some { m with base := m.test, bestBase := m.bestTest, state := .reflect }
    else some { m with state := .reflect }
  | .converged => none

/-- `simplex_transform` of `base` with respect to its best vertex, into `test`. -/
def Pro.transformBase (m : Pro K T V W ρ) (coefficient : K) : Option (Pro K T V W ρ) := do
  let best ← m.base[m.bestBase]?
  let test := (m.base.zip m.test).mapIdx fun i v =>
    if i = m.bestBase then v.1
    else { v.2 with term := lib.vertexTransform v.1.term best.term coefficient }.resetPerf
  some { m with test := test }

/-- `pro_next_simplex`. -/
def proNextSimplex (m : Pro K T V W ρ) : Option (Pro K T V W ρ) :=
  match m.state with
  | .init => some { m with test := m.base }
  | .reflect => m.transformBase lib (-m.cfg.reflect)
  | .expandOne => do
    -- One vertex extends the best. The rest are copies of the best known vertex.
    let src ← m.test[m.bestTest]?
    let best ← m.base[m.bestBase]?
    let test := m.test.mapIdx fun i v =>
      if i = 0 then { v with term := lib.vertexTransform src.term best.term m.cfg.expand }.resetPerf
      else best
    some { m with test := test }
  | .expandAll => m.transformBase lib m.cfg.expand
  | .shrink => m.transformBase lib m.cfg.shrink
  | .converged => some m

/-- `simplex_outofbounds`. -/
def simplexOutofbounds (s : List (Vertex T W)) : Bool := s.any fun v => lib.vertexOutofbounds v.term

/-- The state of the search in the session. -/
abbrev ProWorld (K T V W ρ : Type) := World (Pro K T V W ρ)

/-- `check_convergence`. -/
def proCheckConvergence (world : ProWorld K T V W ρ) : ProWorld K T V W ρ :=
  let m := world.plug
  if lib.hasConverged m.cfg m.base then
    let world := { world with plug := { m with state := .converged } }
    (sessionSetcfg world cfgkeyStrategyConverged (cstr "1")).2
  else world

/-- `pro_algorithm`, for at most `fuel` rounds of its loop. -/
def proAlgorithm : ℕ → ProWorld K T V W ρ → ℤ × ProWorld K T V W ρ
  | 0, world => (-1, world)
  | fuel + 1, world =>
    if world.plug.state = .converged then (0, world)
    else
      match proNextState world.plug with
      | none => (-1, world)
      | some m =>
        let world := { world with plug := m }
        let world := if m.state = .reflect then proCheckConvergence lib world else world
        match proNextSimplex lib world.plug with
        | none => (-1, world)
        | some m =>
          let world := { world with plug := m }
          if simplexOutofbounds lib m.test then proAlgorithm fuel world else (0, world)

/-- `vertex_to_hpoint`. -/
def Vertex.proToHpoint (v : Vertex T W) : HPoint V := { id := v.id, val := lib.vertexToHpoint v.term }

/-- `strategy_init`. -/
def proInit (world : ProWorld K T V W ρ) : ℤ × ProWorld K T V W ρ :=
  let m := world.plug
  -- One time initialization.
  let m :=
    if m.base = [] then
      { m with
        simplexSize := lib.simplexSize world.cfg
        best := hpointInitializer V
        bestPerf := ⊤
        nextId := 1 }
    else m
  let m := { m with reported := 0, sendIdx := 0 }
  match lib.strategyCfg world.cfg with
  | none => (-1, { world with plug := m })
  | some cfg =>
    let (terms, rand) := lib.initial m.rand world.cfg m.simplexSize
    let base := terms.map fun term =>
      { id := 0, perf := { p := List.replicate lib.perfCount ⊤ }, term := term }
    let m := { m with cfg := cfg, base := base, rand := rand }
    let (ret, world) := sessionSetcfg { world with plug := m } cfgkeyStrategyConverged (cstr "0")
    if ret ≠ 0 then (-1, world)
    else
      match proNextSimplex lib { world.plug with state := .init } with
      | none => (-1, world)
      | some m => (0, { world with plug := m })

/-- The point of the vertex `send_idx`, which gets a new id. -/
def Pro.send (m : Pro K T V W ρ) : Option (HPoint V × Pro K T V W ρ) := do
  let v ← m.test[m.sendIdx]?
  let v := { v with id := m.nextId }
  some (v.proToHpoint lib,
    { m with test := m.test.set m.sendIdx v, nextId := m.nextId + 1, sendIdx := m.sendIdx + 1 })

/-- `strategy_generate`. -/
def proGenerate (world : ProWorld K T V W ρ) (flow : Flow V) (point : HPoint V) :
    ℤ × ProWorld K T V W ρ × Flow V × HPoint V :=
  let m := world.plug
  if m.sendIdx = m.simplexSize ∨ m.state = .converged then
    (0, world, { flow with status := .wait }, point)
  else
    match m.send lib with
    | none => (-1, world, flow, point)
    | some (point, m) => (0, { world with plug := m }, { flow with status := .accept }, point)

/-- The loops that look for the vertex with a given id. -/
def Pro.find (m : Pro K T V W ρ) (id : ℤ) : Option ℕ := m.test.findIdx? fun v => v.id = id

/-- A round of the algorithm once all vertices have been reported, and what follows it. -/
def proRound (fuel : ℕ) (world : ProWorld K T V W ρ) : ℤ × ProWorld K T V W ρ :=
  if world.plug.reported = world.plug.simplexSize then
    let (ret, world) := proAlgorithm lib fuel world
    if ret ≠ 0 then (-1, world)
    else (0, { world with plug := { world.plug with reported := 0, sendIdx := 0 } })
  else (0, world)

/-- `strategy_rejected`. -/
def proRejected (fuel : ℕ) (world : ProWorld K T V W ρ) (flow : Flow V) (point : HPoint V) :
    ℤ × ProWorld K T V W ρ × Flow V × HPoint V :=
  let m := world.plug
  let accepted := { flow with status := .accept }
  -- Find the rejected vertex.
  match m.find point.id with
  | none => (-1, sessionError world (cstr "Internal error: Could not find rejected point."), flow, point)
  | some i =>
    if flow.point.id ≠ -1 then
      -- Update our state to include the hint point.
      let term := lib.vertexFromHpoint flow.point.val
      let world := { world with plug := { m with test := m.test.modify i fun v => { v with term := term } } }
      (0, world, accepted, { flow.point with id := point.id })
    else
      match m.cfg.rejectType with
      | .penalty =>
        -- Apply an infinite penalty to the invalid point.
        let m := { m with test := m.test.modify i Vertex.resetPerf, reported := m.reported + 1 }
        let (ret, world) := proRound lib fuel { world with plug := m }
        if ret ≠ 0 then (-1, world, flow, point)
        else if world.plug.sendIdx = world.plug.simplexSize then
          (0, world, { flow with status := .wait }, point)
        else
          match world.plug.send lib with
          | none => (-1, world, flow, point)
          | some (point, m) => (0, { world with plug := m }, accepted, point)
      | .random =>
        -- Replace the rejected point with a random point.
        let (term, rand) := lib.vertexRand m.rand
        let test := m.test.modify i fun v => { v with term := term }.resetPerf
        match test[i]? with
        | none => (-1, world, flow, point)
        | some v => (0, { world with plug := { m with test := test, rand := rand } }, accepted, v.proToHpoint lib)

/-- The report is recorded in vertex `i`. -/
def Pro.record (m : Pro K T V W ρ) (i : ℕ) (perf : HPerf W) : Pro K T V W ρ :=
  let m := { m with reported := m.reported + 1, test := m.test.modify i fun v => { v with perf := perf } }
  match m.test[i]?, m.test[m.bestTest]? with
  | some v, some best => if hperfCmp v.perf best.perf < 0 then { m with bestTest := i } else m
  | _, _ => m

/-- `strategy_analyze`. -/
def proAnalyze (fuel : ℕ) (world : ProWorld K T V W ρ) (trial : HTrial V W) :
    ℤ × ProWorld K T V W ρ :=
  let m := world.plug
  let perf := hperfUnify trial.perf
  match m.find trial.point.id with
  -- Ignore rouge vertex reports.
  | none => (0, world)
  | some i =>
    let (ret, world) := proRound lib fuel { world with plug := m.record i trial.perf }
    if ret ≠ 0 then (-1, world)
    else
      -- Update the best performing point, if necessary.
      let m := world.plug
      let m := if perf < m.bestPerf then
        { m with bestPerf := perf, best := hpointCopy trial.point } else m
      (0, { world with plug := m })

/-- `strategy_best`. -/
def proBest (world : ProWorld K T V W ρ) (_ : HPoint V) : ℤ × ProWorld K T V W ρ × HPoint V :=
  (0, world, hpointCopy world.plug.best)

/-- A session with this strategy and without layers. -/
def parallelRankOrder (fuel : ℕ) : Plugins (Pro K T V W ρ) V W where
  strategyGenerate := proGenerate lib
  strategyRejected := proRejected lib fuel
  strategyAnalyze := proAnalyze lib fuel
  strategyBest := proBest
  strategyInit := some (proInit lib)
  lstack := []
  cb := []
  cb_index := by simp

end ActiveHarmony

import ActiveHarmony.Strategy.Common

/-!
# The strategy `nm.c`

The Nelder-Mead search with its state machine. The arithmetic on the coordinates of a vertex is
that of `libvertex.c` and is a parameter, as are the initial simplex and the values that
`strategy_cfg` reads: `T` stands for the coordinates of a vertex, `K` for coefficients and `ρ` for
the random generator.

`next` is a pointer into the simplex or to the vertex `test`; writing through it changes the vertex
it points to.
-/

namespace ActiveHarmony

/-- `simplex_state_t`. -/
inductive SimplexState where
  | init | reflect | expand | contract | shrink | converged
deriving DecidableEq, Repr

/-- `reject_method_t`. -/
inductive RejectMethod where
  | penalty | random
deriving DecidableEq, Repr

/-- `vertex_t`. -/
structure Vertex (T W : Type) where
  id : ℤ
  perf : HPerf W
  term : T

/-- What `strategy_cfg` reads. -/
structure NmCfg (K : Type) where
  rejectType : RejectMethod
  reflect : K
  expand : K
  contract : K
  shrink : K
  fvalTol : K
  sizeTol : K

/-- The functions of `libvertex.c` and `strategy_cfg` for one signature. -/
structure NmLib (K T V W ρ : Type) where
  strategyCfg : Hcfg → Option (NmCfg K)
  /-- `CFGKEY_SIMPLEX_SIZE`, or the number of variables and one. -/
  simplexSize : Hcfg → ℕ
  perfCount : ℕ
  /-- The initial point and `simplex_from_vertex`. -/
  initial : ρ → Hcfg → ℕ → List T × ρ
  vertexRand : ρ → T × ρ
  vertexToHpoint : T → List (HVal V)
  vertexFromHpoint : List (HVal V) → T
  vertexTransform : T → T → K → T
  vertexOutofbounds : T → Bool
  simplexCentroid : List (Vertex T W) → T × HPerf W
  /-- `check_convergence`. -/
  hasConverged : NmCfg K → List (Vertex T W) → Vertex T W → Bool

/-- What `next` points to. -/
inductive NmNext where
  | base (i : ℕ)
  | test
deriving DecidableEq, Repr

/-- The variables of `nm.c`. Before the first call of `strategy_init`, `base` is empty. -/
structure Nm (K T V W ρ : Type) where
  best : HPoint V
  bestPerf : W
  cfg : NmCfg K
  simplexSize : ℕ
  state : SimplexState
  centroid : Vertex T W
  test : Vertex T W
  base : List (Vertex T W)
  next : NmNext
  indexBest : ℕ
  indexWorst : ℕ
  indexCurr : ℤ
  nextId : ℤ
  rand : ρ

variable {K T V W ρ : Type} [Neg K] [Add W] [Zero W] [LT W] [DecidableLT W] [Top W]

/-- The vertex that `next` points to. -/
def Nm.nextVertex (m : Nm K T V W ρ) : Option (Vertex T W) :=
  match m.next with
  | .base i => m.base[i]?
  | .test => some m.test

/-- Write through `next`. -/
def Nm.modifyNext (m : Nm K T V W ρ) (f : Vertex T W → Vertex T W) : Nm K T V W ρ :=
  match m.next with
  | .base i => { m with base := m.base.modify i f }
  | .test => { m with test := f m.test }

/-- `simplex_update_index`. -/
def simplexUpdateIndex (m : Nm K T V W ρ) : Nm K T V W ρ :=
  (List.range m.simplexSize).foldl (fun m i =>
    match m.base[i]?, m.base[m.indexBest]?, m.base[m.indexWorst]? with
    | some v, some best, some worst =>
      let m := if hperfCmp v.perf best.perf < 0 then { m with indexBest := i } else m
      if hperfCmp v.perf worst.perf > 0 then { m with indexWorst := i } else m
    | _, _, _ => m) { m with indexBest := 0, indexWorst := 0 }

variable (lib : NmLib K T V W ρ)

/-- `simplex_update_centroid`: the worst vertex does not count. -/
def simplexUpdateCentroid (m : Nm K T V W ρ) : Nm K T V W ρ :=
  let m := simplexUpdateIndex m
  let others := (m.base.modify m.indexWorst fun v => { v with id := -1 }).filter (0 ≤ ·.id)
  let (term, perf) := lib.simplexCentroid others
  { m with centroid := { m.centroid with term := term, perf := perf } }

/-- `vertex_copy` of `test` over the worst vertex. -/
def Nm.replaceWorst (m : Nm K T V W ρ) : Nm K T V W ρ :=
  { m with base := m.base.set m.indexWorst m.test }

/-- `nm_state_transition`. -/
def nmStateTransition (m : Nm K T V W ρ) : Option (Nm K T V W ρ) :=
  match m.state with
  | .init | .shrink =>
    -- Simplex vertex performance value.
    let m := { m with indexCurr := m.indexCurr + 1 }
    if m.indexCurr = m.simplexSize then
      some { simplexUpdateCentroid lib m with state := .reflect }
    else some m
  | .reflect => do
    let best ← m.base[m.indexBest]?
    let worst ← m.base[m.indexWorst]?
    if hperfCmp m.test.perf best.perf < 0 then
      some { m.replaceWorst with state := .expand }
    else if hperfCmp m.test.perf worst.perf < 0 then
      let prevWorst := m.indexWorst
      let m := simplexUpdateCentroid lib m.replaceWorst
      -- The test vertex may have become the new worst performing point.
      some { m with state := if prevWorst = m.indexWorst then .contract else .reflect }
    else some { simplexUpdateCentroid lib m with state := .contract }
  | .expand => do
    let best ← m.base[m.indexBest]?
    let m := if hperfCmp m.test.perf best.perf < 0 then m.replaceWorst else m
    some { simplexUpdateCentroid lib m with state := .reflect }
  | .contract => do
    let worst ← m.base[m.indexWorst]?
    if hperfCmp m.test.perf worst.perf < 0 then
      some { simplexUpdateCentroid lib m.replaceWorst with state := .reflect }
    else some { m with indexCurr := -1, state := .shrink }
  | .converged => none

/-- `hperf_reset` of a vertex. -/
def Vertex.resetPerf (v : Vertex T W) : Vertex T W := { v with perf := hperfReset v.perf }

/-- `vertex_transform` of the worst vertex through the centroid, into `test`. -/
def Nm.transformWorst (m : Nm K T V W ρ) (coefficient : K) : Option (Nm K T V W ρ) := do
  let worst ← m.base[m.indexWorst]?
  let term := lib.vertexTransform worst.term m.centroid.term coefficient
  some { m with test := { m.test with term := term }.resetPerf, next := .test }

/-- `nm_next_vertex`. -/
def nmNextVertex (m : Nm K T V W ρ) : Option (Nm K T V W ρ) :=
  match m.state with
  | .init => some { m with next := .base m.indexCurr.toNat }
  | .reflect => m.transformWorst lib (-m.cfg.reflect)
  | .expand => m.transformWorst lib m.cfg.expand
  | .contract => m.transformWorst lib m.cfg.contract
  | .shrink =>
    if m.indexCurr = -1 then do
      -- Shrink the entire simplex towards the best known vertex thus far.
      let best ← m.base[m.indexBest]?
      let base := m.base.mapIdx fun i v =>
        if i = m.indexBest then v
        else { v with term := lib.vertexTransform v.term best.term m.cfg.shrink }.resetPerf
      some { m with base := base, indexCurr := 0, next := .base 0 }
    else some { m with next := .base m.indexCurr.toNat }
  | .converged => some { m with next := .base m.indexBest }

/-- The state of the search in the session. -/
abbrev NmWorld (K T V W ρ : Type) := World (Nm K T V W ρ)

/-- `check_convergence`. -/
def checkConvergence (world : NmWorld K T V W ρ) : NmWorld K T V W ρ :=
  let m := world.plug
  if lib.hasConverged m.cfg m.base m.centroid then
    let world := { world with plug := { m with state := .converged } }
    (sessionSetcfg world cfgkeyStrategyConverged (cstr "1")).2
  else world

/-- `nm_algorithm`, for at most `fuel` rounds of its loop. -/
def nmAlgorithm : ℕ → NmWorld K T V W ρ → ℤ × NmWorld K T V W ρ
  | 0, world => (-1, world)
  | fuel + 1, world =>
    if world.plug.state = .converged then (0, world)
    else
      match nmStateTransition lib world.plug with
      | none => (-1, world)
      | some m =>
        let world := { world with plug := m }
        let world := if m.state = .reflect then checkConvergence lib world else world
        match nmNextVertex lib world.plug with
        | none => (-1, world)
        | some m =>
          let world := { world with plug := m }
          match m.nextVertex with
          | none => (-1, world)
          | some next => if lib.vertexOutofbounds next.term then nmAlgorithm fuel world else (0, world)

/-- `vertex_to_hpoint`. -/
def Vertex.toHpoint (v : Vertex T W) : HPoint V := { id := v.id, val := lib.vertexToHpoint v.term }

omit [Neg K] [Add W] [Zero W] [LT W] [DecidableLT W] in
/-- `vertex_reset` of a vertex with the memory that `vertex_alloc` gives it. -/
def Vertex.reset (v : Vertex T W) : Vertex T W :=
  { v with id := 0, perf := { p := List.replicate lib.perfCount ⊤ } }

/-- `strategy_init`. -/
def nmInit (world : NmWorld K T V W ρ) : ℤ × NmWorld K T V W ρ :=
  let m := world.plug
  -- One time initialization.
  let m :=
    if m.base = [] then
      { m with
        simplexSize := lib.simplexSize world.cfg
        best := hpointInitializer V
        bestPerf := ⊤
        nextId := 1 }
    else m
  let m := { m with centroid := m.centroid.reset lib, test := m.test.reset lib }
  match lib.strategyCfg world.cfg with
  | none => (-1, { world with plug := m })
  | some cfg =>
    let (terms, rand) := lib.initial m.rand world.cfg m.simplexSize
    let base := terms.map fun term =>
      { id := 0, perf := { p := List.replicate lib.perfCount ⊤ }, term := term }
    let m := { m with cfg := cfg, base := base, rand := rand }
    let (ret, world) := sessionSetcfg { world with plug := m } cfgkeyStrategyConverged (cstr "0")
    if ret ≠ 0 then (-1, world)
    else
      match nmNextVertex lib { world.plug with indexCurr := 0, state := .init } with
      | none => (-1, world)
      | some m => (0, { world with plug := m })

/-- `strategy_generate`. -/
def nmGenerate (world : NmWorld K T V W ρ) (flow : Flow V) (point : HPoint V) :
    ℤ × NmWorld K T V W ρ × Flow V × HPoint V :=
  let m := world.plug
  match m.nextVertex with
  | none => (-1, world, flow, point)
  | some next =>
    if next.id = m.nextId then (0, world, { flow with status := .wait }, point)
    else
      let next := { next with id := m.nextId }
      (0, { world with plug := m.modifyNext fun _ => next }, { flow with status := .accept },
        next.toHpoint lib)

/-- `strategy_rejected`. -/
def nmRejected (fuel : ℕ) (world : NmWorld K T V W ρ) (flow : Flow V) (point : HPoint V) :
    ℤ × NmWorld K T V W ρ × Flow V × HPoint V :=
  let m := world.plug
  let accepted := { flow with status := .accept }
  if flow.point.id ≠ -1 then
    -- Update our state to include the hint point.
    let term := lib.vertexFromHpoint flow.point.val
    let world := { world with plug := m.modifyNext fun v => { v with term := term } }
    (0, world, accepted, { flow.point with id := point.id })
  else
    match m.cfg.rejectType with
    | .penalty =>
      -- Apply an infinite penalty to the invalid point.
      let (ret, world) := nmAlgorithm lib fuel { world with plug := m.modifyNext Vertex.resetPerf }
      if ret ≠ 0 then (-1, world, flow, point)
      else
        let m := world.plug.modifyNext fun v => { v with id := world.plug.nextId }
        match m.nextVertex with
        | none => (-1, world, flow, point)
        | some next => (0, { world with plug := m }, accepted, next.toHpoint lib)
    | .random =>
      -- Replace the rejected point with a random point.
      let (term, rand) := lib.vertexRand m.rand
      let m := ({ m with rand := rand }).modifyNext fun v => { v with term := term }.resetPerf
      match m.nextVertex with
      | none => (-1, world, flow, point)
      | some next => (0, { world with plug := m }, accepted, next.toHpoint lib)

/-- `strategy_analyze`. -/
def nmAnalyze (fuel : ℕ) (world : NmWorld K T V W ρ) (trial : HTrial V W) :
    ℤ × NmWorld K T V W ρ :=
  let m := world.plug
  let perf := hperfUnify trial.perf
  match m.nextVertex with
  | none => (-1, world)
  | some next =>
    if trial.point.id ≠ next.id then (0, world)
    else
      let m := m.modifyNext fun v => { v with perf := trial.perf }
      let (ret, world) := nmAlgorithm lib fuel { world with plug := m }
      if ret ≠ 0 then (-1, world)
      else
        -- Update the best performing point, if necessary.
        let m := world.plug
        let m := if perf < m.bestPerf then
          { m with bestPerf := perf, best := hpointCopy trial.point } else m
        let m := if m.state ≠ .converged then { m with nextId := m.nextId + 1 } else m
        (0, { world with plug := m })

/-- `strategy_best`. -/
def nmBest (world : NmWorld K T V W ρ) (_ : HPoint V) : ℤ × NmWorld K T V W ρ × HPoint V :=
  (0, world, hpointCopy world.plug.best)

/-- A session with this strategy and without layers. -/
def nelderMead (fuel : ℕ) : Plugins (Nm K T V W ρ) V W where
  strategyGenerate := nmGenerate lib
  strategyRejected := nmRejected lib fuel
  strategyAnalyze := nmAnalyze lib fuel
  strategyBest := nmBest
  strategyInit := some (nmInit lib)
  lstack := []
  cb := []
  cb_index := by simp

end ActiveHarmony

import ActiveHarmony.Lib.BoundedBuffer
import ActiveHarmony.Lib.TextScan
import ActiveHarmony.Strategy.NelderMead

/-!
# The strategy `nemo.c`

The search for several objectives: one Nelder-Mead search for each of them, in phases. Past objectives have
thresholds, and a point that misses one of them gets a penalty. The arithmetic on the coordinates of a vertex
is that of `libvertex.c` and is a parameter, as are the coefficients that `strategy_cfg` reads. `W` stands for
`double`, `T` for the coordinates of a vertex and `ρ` for the random generator.

The vectors that are indexed by a phase are checked: an access outside of one, or to a threshold that has no
value, has no result.
-/

namespace ActiveHarmony

open TextScan (isSpace decimalInt)

/-- `value_range_t`. -/
structure ValueRange (W : Type) where
  min : W
  max : W
deriving DecidableEq, Repr

/-- What `strategy_cfg` reads, without the leeway and the numbers of objectives and vertices. -/
structure NemoCfg (W : Type) extends NmCfg W where
  loose : Bool
  mult : W
  anchor : Bool
  samesimplex : Bool

/-- The functions of `libvertex.c` and `strategy_cfg` for one signature. -/
structure NemoLib (T V W ρ : Type) where
  /-- Without the leeway; an error message otherwise. -/
  strategyCfg : Hcfg → Except Bytes (NemoCfg W)
  strtod : Bytes → W × Bytes
  /-- The number of variables. -/
  rangeLen : ℕ
  /-- `CFGKEY_PERF_COUNT`. -/
  perfCount : ℕ
  /-- The return value and the vertices of `nemo_init_simplex`. -/
  initSimplex : ρ → NemoCfg W → ℕ → ℤ × (ℕ → T) × ρ
  vertexRand : ρ → T × ρ
  vertexToHpoint : T → List (HVal V)
  vertexFromHpoint : List (HVal V) → T
  vertexTransform : T → T → W → T
  vertexOutofbounds : T → Bool
  vertexDist : T → T → W
  simplexCentroid : List (Vertex T W) → T × (ℕ → W)
  simplexCollapsed : List (Vertex T W) → Bool
  /-- What a variable on the stack holds before it is written. -/
  stale : ℕ

/-- What a run does to the phase, the thresholds and `CFGKEY_STRATEGY_CONVERGED`. -/
inductive NemoEvent where
  | threshold (phase : ℤ)
  | phase (phase : ℤ)
  | converged (value : Bool)
deriving DecidableEq, Repr

/-- The variables of `nemo.c`. A threshold that is not written yet is `none`; nothing reads `history`. -/
structure Nemo (T V W ρ : Type) where
  best : HPoint V
  bestPerf : HPerf W
  cfg : NemoCfg W
  simplexSize : ℕ
  state : SimplexState
  centroid : Vertex T W
  test : Vertex T W
  base : List (Vertex T W)
  init : List (Vertex T W)
  next : Option NmNext
  phase : ℤ
  simplexBest : Option ℕ
  simplexWorst : Option ℕ
  currIdx : ℤ
  nextId : ℤ
  thresh : List (Option W)
  range : List (ValueRange W)
  leeway : List W
  rand : ρ
  history : List NemoEvent

/-- `CFGKEY_SIMPLEX_SIZE`. -/
def cfgkeySimplexSize : Bytes := cstr "SIMPLEX_SIZE"

/-! ## Checked accesses -/

/-- Read `l[i]`. -/
def readAt {α : Type} (l : List α) (i : ℤ) : Option α :=
  if i < 0 then none else BoundedBuffer.read l i.toNat

/-- Write `l[i]`. -/
def writeAt {α : Type} (l : List α) (i : ℤ) (x : α) : Option (List α) :=
  if i < 0 then none else BoundedBuffer.write l i.toNat x

variable {T V W ρ : Type}

/-- `v->perf->p[i]` -/
def Vertex.perfAt (v : Vertex T W) (i : ℤ) : Option W := readAt v.perf.p i

/-- The vertex that `next` points to. -/
def Nemo.nextVertex (m : Nemo T V W ρ) : Option (Vertex T W) :=
  match m.next with
  | none => none
  | some (.base i) => m.base[i]?
  | some .test => some m.test

/-- `next = base->vertex[i]` -/
def Nemo.setNext (m : Nemo T V W ρ) (i : ℕ) : Nemo T V W ρ := { m with next := some (.base i) }

/-- Write through `next`. -/
def Nemo.modifyNext (m : Nemo T V W ρ) (f : Vertex T W → Vertex T W) : Nemo T V W ρ :=
  match m.next with
  | none => m
  | some (.base i) => { m with base := m.base.modify i f }
  | some .test => { m with test := f m.test }

/-- The vertex `simplex_best`. -/
def Nemo.bestVertex (m : Nemo T V W ρ) : Option (Vertex T W) := m.simplexBest.bind fun i => m.base[i]?

/-- The vertex `simplex_worst`. -/
def Nemo.worstVertex (m : Nemo T V W ρ) : Option (Vertex T W) := m.simplexWorst.bind fun i => m.base[i]?

/-- `vertex_copy` of `test` over `simplex_worst`. -/
def Nemo.replaceWorst (m : Nemo T V W ρ) : Nemo T V W ρ :=
  match m.simplexWorst with
  | none => m
  | some i => { m with base := m.base.set i m.test }

/-- The state of the search in the session. -/
abbrev NemoWorld (T V W ρ : Type) := World (Nemo T V W ρ)

variable [Add W] [Sub W] [Neg W] [Mul W] [Div W] [Zero W] [NatCast W] [LT W] [DecidableLT W] [Top W] [Bot W]

/-! ## Phases -/

variable (lib : NemoLib T V W ρ)

/-- The vertices of `nemo_init_simplex`. -/
def nemoInitSimplex (m : Nemo T V W ρ) : ℤ × Nemo T V W ρ :=
  let (ret, term, rand) := lib.initSimplex m.rand m.cfg m.simplexSize
  let init := (List.range m.simplexSize).map fun i =>
    { id := 0, perf := { p := List.replicate lib.perfCount ⊤ }, term := term i }
  (ret, { m with init := init, rand := rand })

/-- The part of `nemo_phase_incr` that puts the best point of the last phase into the simplex. -/
def nemoAnchor (m : Nemo T V W ρ) : Nemo T V W ρ :=
  let test := { m.test with term := lib.vertexFromHpoint m.best.val }
  let near := m.base.zipIdx.foldl (fun near v =>
    let dist := lib.vertexDist test.term v.1.term
    if dist < near.1 then (dist, v.2) else near) (⊤, lib.stale)
  { m with test := test, base := m.base.set near.2 test }

/-- The part of `nemo_phase_incr` that calculates the threshold for the previous phase. -/
def nemoThreshold (m : Nemo T V W ρ) : Option (Nemo T V W ρ) :=
  if m.phase ≥ 0 then do
    let range ← readAt m.range m.phase
    let leeway ← readAt m.leeway m.phase
    let thresh ← writeAt m.thresh m.phase (some (range.min + (range.max - range.min) * leeway))
    some { m with thresh := thresh, history := m.history ++ [.threshold m.phase] }
  else some m

/-- The part of `nemo_phase_incr` that starts again from the initial simplex. -/
def nemoStartPhase (m : Nemo T V W ρ) : Nemo T V W ρ :=
  let m := { m with base := m.init }
  let m :=
    if m.best.id > 0 then
      let m := if m.cfg.anchor then nemoAnchor lib m else m
      { m with bestPerf := hperfReset m.bestPerf, best := { m.best with id := 0 } }
    else m
  { m with state := .init, currIdx := 0 }

/-- `nemo_phase_incr`. -/
def nemoPhaseIncr (world : NemoWorld T V W ρ) : Option (ℤ × NemoWorld T V W ρ) := do
  let m ← nemoThreshold world.plug
  let m := { m with phase := m.phase + 1, history := m.history ++ [NemoEvent.phase (m.phase + 1)] }
  let (_, world) := sessionSetcfg { world with plug := m } (cstr "NEMO_PHASE") (decimalInt m.phase)
  -- Re-initialize the initial simplex, if needed.
  let (ret, m) := if m.cfg.samesimplex then (0, m) else nemoInitSimplex lib m
  if ret ≠ 0 then
    some (-1, sessionError { world with plug := m } (cstr "Could not reinitialize the initial simplex."))
  else some (0, { world with plug := nemoStartPhase lib m })

/-! ## The simplex -/

/-- One round of `simplex_update_index`, with the best and the worst vertex so far. -/
def nemoCompareVertex (m : Nemo T V W ρ) (pivots : ℕ × ℕ) (i : ℕ) : Option (ℕ × ℕ) := do
  let perf ← m.base[i]?.bind (·.perfAt m.phase)
  let bestPerf ← m.base[pivots.1]?.bind (·.perfAt m.phase)
  let worstPerf ← m.base[pivots.2]?.bind (·.perfAt m.phase)
  some (if perf < bestPerf then i else pivots.1, if worstPerf < perf then i else pivots.2)

/-- `simplex_update_index`. -/
def nemoUpdateIndex (m : Nemo T V W ρ) : Option (Nemo T V W ρ) := do
  let pivots ← (List.range' 1 (m.simplexSize - 1)).foldlM (nemoCompareVertex m) (0, 0)
  some { m with simplexBest := some pivots.1, simplexWorst := some pivots.2 }

/-- `simplex_update_centroid`: the worst vertex does not count. -/
def nemoUpdateCentroid (m : Nemo T V W ρ) : Option (Nemo T V W ρ) := do
  let m ← nemoUpdateIndex m
  let worst ← m.simplexWorst
  let others := (m.base.modify worst fun v => { v with id := -1 }).filter (0 ≤ ·.id)
  let mean := lib.simplexCentroid others
  some { m with
    centroid := { m.centroid with term := mean.1, perf := { p := (List.range lib.perfCount).map mean.2 } } }

/-- The cases `INIT` and `SHRINK` of `nm_state_transition`. -/
def nemoNextIndex (m : Nemo T V W ρ) : Option (Nemo T V W ρ) :=
  -- Simplex vertex performance value.
  let m := { m with currIdx := m.currIdx + 1 }
  if m.currIdx = m.simplexSize then (nemoUpdateCentroid lib m).map fun m => { m with state := .reflect }
  else some m

/-- The case `REFLECT` of `nm_state_transition`. -/
def nemoReflected (m : Nemo T V W ρ) (perf : W) : Option (Nemo T V W ρ) := do
  let bestPerf ← m.bestVertex.bind (·.perfAt m.phase)
  if perf < bestPerf then some { m.replaceWorst with state := .expand }
  else
    let worstPerf ← m.worstVertex.bind (·.perfAt m.phase)
    if perf < worstPerf then
      let prevWorst := m.simplexWorst
      -- The test vertex may become the new worst performing point.
      (nemoUpdateCentroid lib m.replaceWorst).map fun m =>
        { m with state := if prevWorst = m.simplexWorst then .contract else .reflect }
    else (nemoUpdateCentroid lib m).map fun m => { m with state := .contract }

/-- The case `EXPAND` of `nm_state_transition`. -/
def nemoExpanded (m : Nemo T V W ρ) (perf : W) : Option (Nemo T V W ρ) := do
  let bestPerf ← m.bestVertex.bind (·.perfAt m.phase)
  (nemoUpdateCentroid lib (if perf < bestPerf then m.replaceWorst else m)).map fun m =>
    { m with state := .reflect }

/-- The case `CONTRACT` of `nm_state_transition`. -/
def nemoContracted (m : Nemo T V W ρ) (perf : W) : Option (Nemo T V W ρ) := do
  let worstPerf ← m.worstVertex.bind (·.perfAt m.phase)
  if perf < worstPerf then (nemoUpdateCentroid lib m.replaceWorst).map fun m => { m with state := .reflect }
  -- The index tells the beginning of `SHRINK`.
  else some { m with currIdx := -1, state := .shrink }

/-- `nm_state_transition`. -/
def nemoStateTransition (m : Nemo T V W ρ) : Option (ℤ × Nemo T V W ρ) := do
  let next ← m.nextVertex
  let perf ← next.perfAt m.phase
  match m.state with
  | .init | .shrink => (nemoNextIndex lib m).map fun m => (0, m)
  | .reflect => (nemoReflected lib m perf).map fun m => (0, m)
  | .expand => (nemoExpanded lib m perf).map fun m => (0, m)
  | .contract => (nemoContracted lib m perf).map fun m => (0, m)
  | .converged => some (-1, m)

/-- One round of the sum in `check_convergence`. -/
def nemoFvalErr (phase : ℤ) (baseVal fvalErr : W) (v : Vertex T W) : Option W := do
  let val ← v.perfAt phase
  some (fvalErr + (val - baseVal) * (val - baseVal))

/-- The comparison of `check_convergence`. -/
def nemoHasConverged (m : Nemo T V W ρ) : Option Bool := do
  if lib.simplexCollapsed m.base then some true
  else
    let baseVal ← m.centroid.perfAt m.phase
    let fvalErr ← m.base.foldlM (nemoFvalErr m.phase baseVal) 0
    let fvalErr := fvalErr / m.simplexSize
    let sizeMax := m.base.foldl (fun sizeMax v =>
      let dist := lib.vertexDist v.term m.centroid.term
      if sizeMax < dist then dist else sizeMax) 0
    some (fvalErr < m.cfg.fvalTol ∧ sizeMax < m.cfg.sizeTol)

/-- `check_convergence`. -/
def nemoCheckConvergence (world : NemoWorld T V W ρ) : Option (NemoWorld T V W ρ) := do
  let m := world.plug
  if ← nemoHasConverged lib m then
    if m.phase = lib.perfCount - 1 then
      let m := { m with state := .converged, history := m.history ++ [.converged true] }
      some (sessionSetcfg { world with plug := m } cfgkeyStrategyConverged (cstr "1")).2
    else
      -- Nothing looks at the return value.
      let (_, world) ← nemoPhaseIncr lib world
      some world
  else some world

/-- `check_convergence`, in the state where `nm_algorithm` calls it. -/
def nemoCheckReflect (world : NemoWorld T V W ρ) : Option (NemoWorld T V W ρ) :=
  if world.plug.state = .reflect then nemoCheckConvergence lib world else some world

/-- `vertex_transform` of the worst vertex through the centroid, into `test`. -/
def Nemo.transformWorst (m : Nemo T V W ρ) (coefficient : W) : Option (Nemo T V W ρ) := do
  let worst ← m.worstVertex
  let term := lib.vertexTransform worst.term m.centroid.term coefficient
  some { m with test := { m.test with term := term }.resetPerf, next := some .test }

/-- `simplex_transform` of the simplex towards `simplex_best`, and back to its first vertex. -/
def Nemo.shrinkSimplex (m : Nemo T V W ρ) : Option (Nemo T V W ρ) := do
  let bestIdx ← m.simplexBest
  let best ← m.base[bestIdx]?
  let base := m.base.mapIdx fun i v =>
    if i = bestIdx then v
    else { v with term := lib.vertexTransform v.term best.term m.cfg.shrink }.resetPerf
  some { m with base := base, currIdx := 0, next := some (.base 0) }

/-- `nm_next_vertex`. -/
def nemoNextVertex (m : Nemo T V W ρ) : Option (Nemo T V W ρ) :=
  match m.state with
  | .init => some (m.setNext m.currIdx.toNat)
  | .reflect => m.transformWorst lib (-m.cfg.reflect)
  | .expand => m.transformWorst lib m.cfg.expand
  | .contract => m.transformWorst lib m.cfg.contract
  | .shrink =>
    -- Shrink the entire simplex towards the best known vertex thus far.
    if m.currIdx = -1 then m.shrinkSimplex lib else some (m.setNext m.currIdx.toNat)
  | .converged => m.simplexBest.map m.setNext

/-- `nm_algorithm`, for at most `fuel` rounds of its loop. -/
def nemoAlgorithm : ℕ → NemoWorld T V W ρ → Option (ℤ × NemoWorld T V W ρ)
  | 0, world => some (-1, world)
  | fuel + 1, world =>
    if world.plug.state = .converged then some (0, world)
    else do
      let (ret, m) ← nemoStateTransition lib world.plug
      let world := { world with plug := m }
      if ret ≠ 0 then some (-1, world)
      else
        let world ← nemoCheckReflect lib world
        let m ← nemoNextVertex lib world.plug
        let world := { world with plug := m }
        let next ← m.nextVertex
        if lib.vertexOutofbounds next.term then nemoAlgorithm fuel world else some (0, world)

/-! ## `strategy_init` -/

/-- The part of `strategy_cfg` that reads `NEMO_LEEWAY`, for `n` more values. -/
def parseLeeway (strtod : Bytes → W × Bytes) : ℕ → Bytes → Bytes → Except Bytes (List W)
  | 0, _, _ => .ok []
  | n + 1, endp, cfgval =>
    if endp = [] then .error (cstr "Insufficient leeway values provided.")
    else
      let (leeway, endp) := strtod cfgval
      if endp.head?.any fun c => !isSpace c && c != 44 then
        .error (cstr "Invalid value for NEMO_LEEWAY configuration key.")
      else (parseLeeway strtod n endp (endp.dropWhile fun c => isSpace c || c == 44)).map (leeway :: ·)

/-- The leeway of `strategy_cfg`, by default 10%. -/
def nemoLeeway (cfg : Hcfg) : Except Bytes (List W) :=
  match hcfgGet cfg (cstr "NEMO_LEEWAY") with
  | some cfgval => parseLeeway lib.strtod (lib.perfCount - 1) cfgval cfgval
  | none => .ok (List.replicate (lib.perfCount - 1) (((1 : ℕ) : W) / ((10 : ℕ) : W)))

/-- The simplex size of `strategy_cfg`: N+1 or greater. -/
def nemoSimplexSize (cfg : Hcfg) (simplexSize : ℕ) : ℕ :=
  let size : ℤ := match hcfgGet cfg cfgkeySimplexSize with
    | some cfgval => atoi cfgval
    | none => simplexSize
  if size < lib.rangeLen + 1 then lib.rangeLen + 1 else size.toNat

/-- `vertex_reset` of a vertex with the memory that `vertex_alloc` gives it. -/
def Vertex.alloc (perfCount : ℕ) (v : Vertex T W) : Vertex T W :=
  { v with id := 0, perf := { p := List.replicate perfCount ⊤ } }

/-- What `strategy_init` sets up before the simplex. -/
def nemoAlloc (world : NemoWorld T V W ρ) (cfg : NemoCfg W) (leeway : List W) : Nemo T V W ρ :=
  let n := lib.perfCount
  { world.plug with
    cfg := cfg
    simplexSize := nemoSimplexSize lib world.cfg world.plug.simplexSize
    leeway := leeway
    range := List.replicate n ⟨⊤, ⊥⟩
    thresh := List.replicate (n - 1) none
    best := hpointInitializer V
    bestPerf := { p := List.replicate n ⊤ }
    centroid := world.plug.centroid.alloc n
    test := world.plug.test.alloc n }

/-- The base simplex of `strategy_init`. -/
def nemoBase (m : Nemo T V W ρ) : Nemo T V W ρ :=
  { m with
    base := m.init.map (·.alloc lib.perfCount)
    nextId := 1
    history := m.history ++ [.converged false] }

/-- The part of `strategy_init` that begins the search. -/
def nemoBegin (world : NemoWorld T V W ρ) : Option (ℤ × NemoWorld T V W ρ) := do
  let (ret, world) := sessionSetcfg world cfgkeyStrategyConverged (cstr "0")
  if ret ≠ 0 then
    some (-1, sessionError world (cstr "Could not set STRATEGY_CONVERGED config variable."))
  else
    let (ret, world) ← nemoPhaseIncr lib world
    if ret ≠ 0 then some (-1, world)
    else (nemoNextVertex lib world.plug).map fun m => (0, { world with plug := m })

/-- `strategy_init`. A session whose `strategy_init` fails is over, and nothing reads what
`strategy_cfg` has left when it fails. -/
def nemoInit (world : NemoWorld T V W ρ) : Option (ℤ × NemoWorld T V W ρ) :=
  match lib.strategyCfg world.cfg, nemoLeeway lib world.cfg with
  | .error msg, _ | _, .error msg => some (-1, sessionError world msg)
  | .ok cfg, .ok leeway =>
    let (ret, m) := nemoInitSimplex lib (nemoAlloc lib world cfg leeway)
    if ret ≠ 0 then
      some (-1, sessionError { world with plug := m } (cstr "Could not initialize initial simplex."))
    else nemoBegin lib { world with plug := nemoBase lib m }

/-! ## Points and results -/

/-- `strategy_generate`. -/
def nemoGenerate (world : NemoWorld T V W ρ) (flow : Flow V) (point : HPoint V) :
    Option (ℤ × NemoWorld T V W ρ × Flow V × HPoint V) := do
  let m := world.plug
  let next ← m.nextVertex
  if next.id = m.nextId then some (0, world, { flow with status := .wait }, point)
  else
    let world := { world with plug := m.modifyNext fun v => { v with id := m.nextId } }
    some (0, world, { flow with status := .accept },
      { id := m.nextId, val := lib.vertexToHpoint next.term })

/-- `strategy_rejected`. -/
def nemoRejected (fuel : ℕ) (world : NemoWorld T V W ρ) (flow : Flow V) (point : HPoint V) :
    Option (ℤ × NemoWorld T V W ρ × Flow V × HPoint V) := do
  let m := world.plug
  let next ← m.nextVertex
  let accepted := { flow with status := .accept }
  if flow.point.id ≠ -1 then
    -- Update our state to include the hint point.
    let term := lib.vertexFromHpoint flow.point.val
    let world := { world with plug := m.modifyNext fun v => { v with term := term } }
    some (0, world, accepted, { flow.point with id := point.id })
  else
    match m.cfg.rejectType with
    | .penalty =>
      -- Apply an infinite penalty to the invalid point.
      let p ← (List.range lib.perfCount).foldlM (fun p (i : ℕ) => writeAt p i ⊤) next.perf.p
      let m := m.modifyNext fun v => { v with perf := { p := p } }
      let (ret, world) ← nemoAlgorithm lib fuel { world with plug := m }
      if ret ≠ 0 then
        let world := sessionError world (cstr "Internal error: Nelder-Mead algorithm failure.")
        some (-1, world, flow, point)
      else
        let m := world.plug.modifyNext fun v => { v with id := world.plug.nextId }
        let next ← m.nextVertex
        some (0, { world with plug := m }, accepted, { id := next.id, val := lib.vertexToHpoint next.term })
    | .random =>
      -- Replace the rejected point with a random point.
      let (term, rand) := lib.vertexRand m.rand
      let m := ({ m with rand := rand }).modifyNext fun v => { v with term := term }.resetPerf
      some (0, { world with plug := m }, accepted, { id := next.id, val := lib.vertexToHpoint term })

/-- One round of the update of the observed value ranges in `strategy_analyze`. -/
def nemoObserve (next : Vertex T W) (range : List (ValueRange W)) (i : ℕ) : Option (List (ValueRange W)) := do
  let perf ← next.perfAt i
  let r ← readAt range i
  let r := if perf < r.min then { r with min := perf } else r
  let r := if r.max < perf ∧ perf < ⊤ then { r with max := perf } else r
  writeAt range i r

/-- One round of the sum of the penalties for the thresholds in `strategy_analyze`, with `penalty` and
`base`. -/
def nemoMissed (m : Nemo T V W ρ) (next : Vertex T W) (sum : W × W) (i : ℕ) : Option (W × W) := do
  let perf ← next.perfAt i
  let thresh ← (readAt m.thresh i).join
  let range ← readAt m.range i
  let missed := if m.cfg.loose then sum.1 else sum.1 + sum.2
  let penalty := if thresh < perf then missed + (perf - range.min) / (range.max - range.min) else sum.1
  some (penalty, sum.2 * ((2 : ℕ) : W))

/-- The part of `strategy_analyze` that adds the penalty to the performance of the phase. -/
def nemoPenalize (m : Nemo T V W ρ) (next : Vertex T W) (penalty : W) : Option (Vertex T W) :=
  if 0 < penalty then do
    let penalty := if m.cfg.loose then penalty + ((1 : ℕ) : W) else penalty
    let range ← readAt m.range m.phase
    let perf ← next.perfAt m.phase
    let p ← writeAt next.perf.p m.phase (perf + penalty * (range.max - range.min) * m.cfg.mult)
    some { next with perf := { p := p } }
  else some next

/-- The part of `strategy_analyze` that updates the best performing point. -/
def nemoUpdateBest (m : Nemo T V W ρ) (next : Vertex T W) (point : HPoint V) : Option (Nemo T V W ρ) := do
  let bestPerf ← readAt m.bestPerf.p m.phase
  let perf ← next.perfAt m.phase
  some (if perf < bestPerf then { m with bestPerf := next.perf, best := hpointCopy point } else m)

/-- `strategy_analyze`. -/
def nemoAnalyze (fuel : ℕ) (world : NemoWorld T V W ρ) (trial : HTrial V W) :
    Option (ℤ × NemoWorld T V W ρ) := do
  let m := world.plug
  let next ← m.nextVertex
  if trial.point.id ≠ next.id then some (-1, sessionError world (cstr "Rouge points not supported."))
  else
    let next := { next with perf := trial.perf }
    let range ← (List.range lib.perfCount).foldlM (nemoObserve next) m.range
    let m := { m with range := range }
    let sum ← (List.range m.phase.toNat).reverse.foldlM (nemoMissed m next) (0, ((1 : ℕ) : W))
    let next ← nemoPenalize m next sum.1
    let m ← nemoUpdateBest (m.modifyNext fun v => { v with perf := next.perf }) next trial.point
    let (ret, world) ← nemoAlgorithm lib fuel { world with plug := m }
    if ret ≠ 0 then
      some (-1, sessionError world (cstr "Internal error: Nelder-Mead algorithm failure."))
    else
      let m := world.plug
      let m := if m.state ≠ .converged then { m with nextId := m.nextId + 1 } else m
      some (0, { world with plug := m })

/-- `strategy_best`. -/
def nemoBest (world : NemoWorld T V W ρ) (_ : HPoint V) : ℤ × NemoWorld T V W ρ × HPoint V :=
  (0, world, hpointCopy world.plug.best)

/-! ## Runs -/

/-- The calls of a session; a restart calls `strategy_init` again. -/
inductive NemoCall (V W : Type) where
  | init
  | generate (flow : Flow V) (point : HPoint V)
  | rejected (fuel : ℕ) (flow : Flow V) (point : HPoint V)
  | analyze (fuel : ℕ) (trial : HTrial V W)
  | best (point : HPoint V)

/-- One call. -/
def nemoCall (world : NemoWorld T V W ρ) : NemoCall V W → Option (ℤ × NemoWorld T V W ρ)
  | .init => nemoInit lib world
  | .generate flow point => (nemoGenerate lib world flow point).map fun out => (out.1, out.2.1)
  | .rejected fuel flow point => (nemoRejected lib fuel world flow point).map fun out => (out.1, out.2.1)
  | .analyze fuel trial => nemoAnalyze lib fuel world trial
  | .best point => some (0, (nemoBest world point).2.1)

/-- The call is `strategy_init`. -/
def NemoCall.IsInit : NemoCall V W → Bool
  | .init => true
  | _ => false

/-- The calls in order, and whether the session goes on; it is over when `strategy_init` fails. -/
def nemoCalls : NemoWorld T V W ρ → List (NemoCall V W) → Option (Bool × NemoWorld T V W ρ)
  | world, [] => some (true, world)
  | world, call :: calls => do
    let (ret, world) ← nemoCall lib world call
    if call.IsInit ∧ ret ≠ 0 then some (false, world) else nemoCalls world calls

end ActiveHarmony

import ActiveHarmony.Strategy.SimplexCfg

/-!
# Runs of `nm.c` and `pro.c`

The two strategies with the functions of `libvertex.c`, their own `strategy_cfg` and their own
`check_convergence`, over a C library with exact arithmetic. A search that `strategy_init` has started stays
within bounds and answers each report, in every session that sets `EXPAND` or does not set `REFLECT` too high.
-/

namespace ActiveHarmony

/-! ## `check_convergence` -/

section

variable {N : ℕ} {K : Type} [Field K] [LinearOrder K]

/-- `vertex_dist`. -/
def vertexDist (libm : Libm K) (v1 v2 : Fin N → K) : K := libm.sqrt (∑ i, (v1 i - v2 i) * (v1 i - v2 i))

/-- `fval_err`. With an infinite performance it is infinite or not a number. -/
def fvalErr (perfs : List (WithTop K)) (avg : WithTop K) : WithTop K :=
  if avg = ⊤ ∨ ⊤ ∈ perfs then ⊤
  else
    let err := fun perf : WithTop K => perf.untopD 0 - avg.untopD 0
    (((perfs.map fun perf => err perf * err perf).sum / perfs.length : K) : WithTop K)

/-- `size_max`. -/
def sizeMax (libm : Libm K) (vs : List (Vertex (Fin N → K) (WithTop K))) (centroid : Fin N → K) : K :=
  vs.foldl
    (fun sizeMax v =>
      let dist := vertexDist libm v.term centroid
      if sizeMax < dist then dist else sizeMax) 0

/-- The performances of `simplex_centroid`. -/
def centroidPerf (perfCount : ℕ) (vs : List (Vertex (Fin N → K) (WithTop K))) : HPerf (WithTop K) :=
  ⟨(List.range perfCount).map fun j =>
    WithTop.map (fun sum : K => sum / vs.length) (vs.map fun v => v.perf.p[j]?.getD 0).sum⟩

variable [FloorRing K]

/-- The tests of `check_convergence`. -/
def simplexConverged (libm : Libm K) (range : Fin N → HBounds K) (fvalTol sizeTol : K)
    (base : List (Vertex (Fin N → K) (WithTop K))) (centroid : (Fin N → K) × HPerf (WithTop K)) : Bool :=
  let collapsed := if h : N < base.length then simplexCollapsed range (internalVertexMax range) ⟨base, h⟩ = 1
    else false
  collapsed ∨
    fvalErr (base.map fun v => hperfUnify v.perf) (hperfUnify centroid.2) < fvalTol ∧
      sizeMax libm base centroid.1 < sizeTol

end

/-! ## The strategies -/

section

variable {K ρ : Type} [Field K] [LinearOrder K] [FloorRing K] (libc : Libc K ρ) (sig : HSignature K)
  (perfCount : ℕ)

/-- The size of the simplex in `strategy_init`. -/
def simplexSize (cfg : Hcfg) : ℕ :=
  let size : ℤ := match hcfgGet cfg cfgkeySimplexSize with
    | some cfgval => atoi cfgval
    | none => 0
  if size < sig.range.length + 1 then sig.range.length + 1 else size.toNat

/-- The distance of `vmin` and `vmax`. -/
def boundsDist : K := vertexDist libc.libm (internalVertexMin sig.bounds) (internalVertexMax sig.bounds)

/-- The coordinates of `vertex_rand`. -/
def randState (state : ρ × (Fin sig.range.length → K)) :
    (Fin sig.range.length → K) × ρ × (Fin sig.range.length → K) :=
  let (rand, init) := state
  let (term, rand) := vertexRandTerm libc.gen sig.bounds rand
  (term, rand, init)

/-- The values of `vertex_to_hpoint`. -/
def hpointVals (term : Fin sig.range.length → K) : List (HVal K) :=
  ((List.finRange sig.range.length).mapM fun i => termToHval (sig.bounds i) (term i)).getD []

/-- `nm.c`. The random generator comes with the coordinates of `init_point`. -/
def nmOf : NmLib K (Fin sig.range.length → K) K (WithTop K) (ρ × (Fin sig.range.length → K)) where
  strategyCfg cfg := ((nmStrategyCfg libc.strtod cfg (boundsDist libc sig)).toOption).map fun read => read.2.2
  simplexSize := simplexSize sig
  perfCount := perfCount
  initial state cfg size :=
    match nmStrategyCfg libc.strtod cfg (boundsDist libc sig) with
    | .ok (method, percent, _) => initialSimplex libc sig method percent cfg size state
    | .error _ => ([], state)
  vertexRand := randState libc sig
  vertexToHpoint := hpointVals sig
  vertexFromHpoint val := (vertexFromHpoint sig val).getD fun _ => 0
  vertexTransform := vertexTransform
  vertexOutofbounds := vertexOutofbounds sig.bounds (internalVertexMax sig.bounds)
  simplexCentroid vs := (centroidTerm vs, centroidPerf perfCount vs)
  hasConverged coeffs base centroid :=
    simplexConverged libc.libm sig.bounds coeffs.fvalTol coeffs.sizeTol base (centroid.term, centroid.perf)

/-- `pro.c`. -/
def proOf : ProLib K (Fin sig.range.length → K) K (WithTop K) (ρ × (Fin sig.range.length → K)) where
  strategyCfg cfg := ((proStrategyCfg libc.strtod cfg (boundsDist libc sig)).toOption).map fun read => read.2.2
  simplexSize := simplexSize sig
  perfCount := perfCount
  initial state cfg size :=
    match proStrategyCfg libc.strtod cfg (boundsDist libc sig) with
    | .ok (method, percent, _) => initialSimplex libc sig method percent cfg size state
    | .error _ => ([], state)
  vertexRand := randState libc sig
  vertexToHpoint := hpointVals sig
  vertexFromHpoint val := (vertexFromHpoint sig val).getD fun _ => 0
  vertexTransform := vertexTransform
  vertexOutofbounds := vertexOutofbounds sig.bounds (internalVertexMax sig.bounds)
  hasConverged coeffs base :=
    simplexConverged libc.libm sig.bounds coeffs.fvalTol coeffs.sizeTol base
      (centroidTerm base, centroidPerf perfCount base)

/-! ## The search of `nm.c` -/

attribute [local instance] two_atLeastTwo in
/-- `EXPAND` is set, so that it is checked, or its default goes further than the reflection. -/
def ExpandChecked (cfg : Hcfg) : Prop :=
  (hcfgGet cfg cfgkeyExpand).isSome ∨ ∀ reflect, reflectCfg libc.strtod cfg = .ok reflect → reflect < 2

/-- There is no hint, or it is a point of the search space. -/
def HintInBounds (flow : Flow K) : Prop :=
  flow.point.id ≠ -1 → ∃ term, vertexFromHpoint sig flow.point.val = some term ∧
    InBounds sig.bounds (internalVertexMax sig.bounds) term

/-- The states of a search of `nm.c`: its functions are called in any order, and the rest of the world changes in
between. -/
inductive NmSearch : NmWorld K (Fin sig.range.length → K) K (WithTop K) (ρ × (Fin sig.range.length → K)) → Prop
  | start {w w'} (hfresh : w.plug.base = []) (hbest : w.plug.indexBest = 0) (hworst : w.plug.indexWorst = 0)
      (hexpand : ExpandChecked libc w.cfg) (hinit : nmInit (nmOf libc sig perfCount) w = (0, w')) : NmSearch w'
  | restart {w w'} (hrun : NmSearch w) (hexpand : ExpandChecked libc w.cfg)
      (hinit : nmInit (nmOf libc sig perfCount) w = (0, w')) : NmSearch w'
  | other {w} (cfg : Hcfg) (errmsg : Option Bytes) (hrun : NmSearch w) : NmSearch ⟨w.plug, cfg, errmsg⟩
  | generate {w} (flow point) (hrun : NmSearch w) :
      NmSearch (nmGenerate (nmOf libc sig perfCount) w flow point).2.1
  | analyze {w} (fuel : ℕ) (trial : HTrial K (WithTop K)) (hrun : NmSearch w)
      (hperf : trial.perf.p.length = perfCount) :
      NmSearch (nmAnalyze (nmOf libc sig perfCount) (fuel + 4) w trial).2
  | rejected {w} (fuel : ℕ) (flow : Flow K) (point) (hrun : NmSearch w) (hhint : HintInBounds sig flow) :
      NmSearch (nmRejected (nmOf libc sig perfCount) (fuel + 4) w flow point).2.1

end

section

variable {K ρ : Type} [Field K] [LinearOrder K] [FloorRing K] [IsStrictOrderedRing K] {libc : Libc K ρ}
  {sig : HSignature K} {perfCount : ℕ}

omit [Field K] [LinearOrder K] [FloorRing K] [IsStrictOrderedRing K] in
lemma simplexSize_gt (cfg : Hcfg) : sig.range.length < simplexSize sig cfg := by
  unfold simplexSize
  dsimp only
  split_ifs <;> omega

/-- What `strategy_init` of `nm.c` starts from, once `strategy_cfg` has accepted the configuration. -/
lemma nmOf_start (h : ∀ i, (sig.bounds i).Indexed)
    {w w' : NmWorld K (Fin sig.range.length → K) K (WithTop K) (ρ × (Fin sig.range.length → K))}
    (hexpand : ExpandChecked libc w.cfg) (hinit : nmInit (nmOf libc sig perfCount) w = (0, w')) {size : ℕ}
    (hsize : sig.range.length < size) :
    NmStart (nmOf libc sig perfCount) sig.bounds (internalVertexMax sig.bounds) w size := by
  obtain ⟨coeffs, hcoeffs, -⟩ := nmInit_spec hinit
  cases hread : nmStrategyCfg libc.strtod w.cfg (boundsDist libc sig) with
  | error msg =>
    simp only [nmOf, hread] at hcoeffs
    cases hcoeffs
  | ok read =>
    obtain ⟨method, percent, coeffs'⟩ := read
    obtain ⟨⟨hpos, hle⟩, hreflect, hadmitted⟩ := nmStrategyCfg_ok hread
    obtain ⟨terms, state', hinitial, hlength, hin, -⟩ :=
      initialSimplex_spec libc h method hpos hle w.cfg hsize w.plug.rand
    have hterms : (nmOf libc sig perfCount).initial w.plug.rand w.cfg size = (terms, state') := by
      simp only [nmOf, hread]
      exact hinitial
    refine ⟨?_, by rw [hterms]; exact hlength, by rw [hterms]; exact hin⟩
    intro cfg hcfg
    simp only [nmOf, hread] at hcfg
    rw [← Option.some.inj hcfg]
    exact hadmitted.mpr (hexpand.imp_right fun hall => hall _ hreflect)

/-- A random vertex is within bounds. -/
lemma randState_inBounds (libc : Libc K ρ) (h : ∀ i, (sig.bounds i).Indexed)
    (state : ρ × (Fin sig.range.length → K)) :
    InBounds sig.bounds (internalVertexMax sig.bounds) (randState libc sig state).1 := by
  obtain ⟨term, rand, hrand, hin⟩ := vertexRandTrim_spec libc.gen h le_rfl zero_le_one state.1
  unfold randState vertexRandTerm
  dsimp only
  rw [hrand]
  exact hin

omit [FloorRing K] [IsStrictOrderedRing K] in
/-- Another vertex within bounds in the place of the one to test. -/
lemma Nm.Rest.replaceNext {N : ℕ} {V σ : Type} {range : Fin N → HBounds K} {vmax : Fin N → K}
    {m : Nm K (Fin N → K) V (WithTop K) σ} (h : m.Rest range vmax perfCount)
    {f : Vertex (Fin N → K) (WithTop K) → Vertex (Fin N → K) (WithTop K)}
    (hterm : ∀ v, InBounds range vmax (f v).term) (hid : ∀ v, (f v).id = v.id)
    (hperf : ∀ v, (f v).perf.p.length = v.perf.p.length) : (m.modifyNext f).Rest range vmax perfCount := by
  have hformed := modifyNext_formed h.sound.toFormed (f := f) (fun v hv => (hid v).symm ▸ hv)
    fun v hlen => (hperf v).trans hlen
  have hplaced := h.placed
  unfold Nm.modifyNext at hformed ⊢
  unfold Nm.Placed at hplaced
  cases hptr : m.next with
  | base i =>
    rw [hptr] at hformed hplaced
    refine ⟨⟨hformed, h.sound.admitted, h.sound.size_gt, ?_⟩, hplaced, nofun⟩
    exact ListModify.forall_mem h.sound.base_inBounds fun v _ => hterm v
  | test =>
    rw [hptr] at hformed hplaced
    exact ⟨⟨hformed, h.sound.admitted, h.sound.size_gt, h.sound.base_inBounds⟩, hplaced, fun _ => hterm _⟩

lemma nmOf_rejected_rest (h : ∀ i, (sig.bounds i).Indexed)
    {w : NmWorld K (Fin sig.range.length → K) K (WithTop K) (ρ × (Fin sig.range.length → K))}
    (hrest : w.plug.Rest sig.bounds (internalVertexMax sig.bounds) perfCount) (fuel : ℕ) (flow : Flow K)
    (point : HPoint K) (hhint : HintInBounds sig flow) :
    (nmRejected (nmOf libc sig perfCount) (fuel + 4) w flow point).2.1.plug.Rest sig.bounds
      (internalVertexMax sig.bounds) perfCount := by
  by_cases hid : flow.point.id ≠ -1
  · obtain ⟨term, hterm, hin⟩ := hhint hid
    unfold nmRejected
    dsimp only
    rw [if_pos hid]
    apply hrest.replaceNext
    · intro v
      show InBounds _ _ ((vertexFromHpoint sig flow.point.val).getD fun _ => 0)
      rw [hterm]
      exact hin
    · exact fun _ => rfl
    · exact fun _ => rfl
  · cases hmethod : w.plug.cfg.rejectType with
    | penalty =>
      exact nmRejected_rest (nmOf libc sig perfCount) (nmOf libc sig perfCount).hasConverged hrest fuel flow
        point (not_not.mp hid) hmethod
    | random =>
      have hin := randState_inBounds libc h w.plug.rand
      have hrest' : ({ w.plug with rand := (randState libc sig w.plug.rand).2 } :
          Nm K (Fin sig.range.length → K) K (WithTop K) _).Rest sig.bounds (internalVertexMax sig.bounds)
            perfCount :=
        ⟨{ hrest.sound with }, hrest.placed, hrest.test_inBounds⟩
      have hreplaced := hrest'.replaceNext
        (f := fun v => { v with term := (randState libc sig w.plug.rand).1 }.resetPerf) (fun _ => hin)
        (fun _ => rfl) fun _ => List.length_map _
      obtain ⟨next, hnext, -⟩ := hreplaced.next_inBounds
      unfold nmRejected
      dsimp only
      rw [if_neg hid, hmethod]
      dsimp only [nmOf]
      rw [hnext]
      exact hreplaced

lemma NmSearch.rest (h : ∀ i, (sig.bounds i).Indexed)
    {w : NmWorld K (Fin sig.range.length → K) K (WithTop K) (ρ × (Fin sig.range.length → K))}
    (hrun : NmSearch libc sig perfCount w) :
    w.plug.Rest sig.bounds (internalVertexMax sig.bounds) perfCount := by
  generalize hconverged : (nmOf libc sig perfCount).hasConverged = converged
  have hexact : (nmOf libc sig perfCount).exact sig.bounds (internalVertexMax sig.bounds) converged =
      nmOf libc sig perfCount := by
    rw [← hconverged]
    rfl
  induction hrun with
  | @start w w' hfresh hbest hworst hexpand hinit =>
    have hgt : sig.range.length < simplexSize sig w.cfg := simplexSize_gt w.cfg
    have hstart := nmOf_start h hexpand hinit hgt
    rw [← hexact] at hinit
    have honce := once_of_fresh ((nmOf libc sig perfCount).exact sig.bounds (internalVertexMax sig.bounds)
      converged) hfresh
    apply nmInit_rest (nmOf libc sig perfCount) converged hgt honce.1 ?_ ?_ ?_ hstart hinit
    · rw [hbest]
      exact Nat.zero_lt_of_lt hgt
    · rw [hworst]
      exact Nat.zero_lt_of_lt hgt
    · rw [honce.2]
      exact zero_le_one
  | @restart w w' hrun hexpand hinit ih =>
    have hstart := nmOf_start h hexpand hinit ih.sound.size_gt
    rw [← hexact] at hinit
    have honce := once_of_formed ((nmOf libc sig perfCount).exact sig.bounds (internalVertexMax sig.bounds)
      converged) ih.sound.toFormed
    apply nmInit_rest (nmOf libc sig perfCount) converged ih.sound.size_gt ?_ ih.sound.best_lt
      ih.sound.worst_lt ?_ hstart hinit
    · rw [honce]
    · rw [honce]
      exact ih.sound.nextId_nonneg
  | other cfg errmsg hrun ih => exact ih
  | generate flow point hrun ih =>
    rw [← hexact]
    exact nmGenerate_rest (nmOf libc sig perfCount) converged ih flow point
  | analyze fuel trial hrun hperf ih =>
    rw [← hexact]
    exact nmAnalyze_rest (nmOf libc sig perfCount) converged ih fuel trial hperf
  | rejected fuel flow point hrun hhint ih => exact nmOf_rejected_rest h ih fuel flow point hhint

end

section

variable {K ρ : Type} [Field K] [LinearOrder K] [FloorRing K] (libc : Libc K ρ) (sig : HSignature K)
  (perfCount : ℕ)

/-- The states of a search of `pro.c`: its functions are called in any order, and the rest of the world changes in
between. -/
inductive ProSearch : ProWorld K (Fin sig.range.length → K) K (WithTop K) (ρ × (Fin sig.range.length → K)) → Prop
  | start {w w'} (hfresh : w.plug.base = []) (hbase : w.plug.bestBase = 0) (htest : w.plug.bestTest = 0)
      (hstash : w.plug.bestStash = 0) (hexpand : ExpandChecked libc w.cfg)
      (hinit : proInit (proOf libc sig perfCount) w = (0, w')) : ProSearch w'
  | restart {w w'} (hrun : ProSearch w) (hexpand : ExpandChecked libc w.cfg)
      (hinit : proInit (proOf libc sig perfCount) w = (0, w')) : ProSearch w'
  | other {w} (cfg : Hcfg) (errmsg : Option Bytes) (hrun : ProSearch w) : ProSearch ⟨w.plug, cfg, errmsg⟩
  | generate {w} (flow point) (hrun : ProSearch w) :
      ProSearch (proGenerate (proOf libc sig perfCount) w flow point).2.1
  | analyze {w} (fuel : ℕ) (trial : HTrial K (WithTop K)) (hrun : ProSearch w)
      (hperf : trial.perf.p.length = perfCount) :
      ProSearch (proAnalyze (proOf libc sig perfCount) (fuel + 4) w trial).2
  | rejected {w} (fuel : ℕ) (flow : Flow K) (point) (hrun : ProSearch w) (hhint : HintInBounds sig flow) :
      ProSearch (proRejected (proOf libc sig perfCount) (fuel + 4) w flow point).2.1

end

section

variable {K ρ : Type} [Field K] [LinearOrder K] [FloorRing K] [IsStrictOrderedRing K] {libc : Libc K ρ}
  {sig : HSignature K} {perfCount : ℕ}
  {w w' : ProWorld K (Fin sig.range.length → K) K (WithTop K) (ρ × (Fin sig.range.length → K))}

/-- What `strategy_init` of `pro.c` starts from, once `strategy_cfg` has accepted the configuration. -/
lemma proOf_start (h : ∀ i, (sig.bounds i).Indexed) (hexpand : ExpandChecked libc w.cfg)
    (hinit : proInit (proOf libc sig perfCount) w = (0, w')) {size : ℕ} (hsize : sig.range.length < size) :
    ProStart (proOf libc sig perfCount) sig.bounds (internalVertexMax sig.bounds) w size := by
  obtain ⟨coeffs, -, hcoeffs, -⟩ := proInit_spec hinit
  cases hread : proStrategyCfg libc.strtod w.cfg (boundsDist libc sig) with
  | error msg =>
    simp only [proOf, hread] at hcoeffs
    cases hcoeffs
  | ok read =>
    obtain ⟨method, percent, coeffs'⟩ := read
    obtain ⟨⟨hpos, hle⟩, hreflect, hadmitted⟩ := proStrategyCfg_ok hread
    obtain ⟨terms, state', hinitial, hlength, hin, -⟩ :=
      initialSimplex_spec libc h method hpos hle w.cfg hsize w.plug.rand
    have hterms : (proOf libc sig perfCount).initial w.plug.rand w.cfg size = (terms, state') := by
      simp only [proOf, hread]
      exact hinitial
    refine ⟨?_, by rw [hterms]; exact hlength, by rw [hterms]; exact hin⟩
    intro cfg hcfg
    simp only [proOf, hread] at hcfg
    rw [← Option.some.inj hcfg]
    exact hadmitted.mpr (hexpand.imp_right fun hall => hall _ hreflect)

omit [FloorRing K] [IsStrictOrderedRing K] in
/-- Another vertex within bounds in the place of one to test. -/
lemma Pro.Rest.replaceTest {N : ℕ} {V σ : Type} {range : Fin N → HBounds K} {vmax : Fin N → K}
    {m : Pro K (Fin N → K) V (WithTop K) σ} (h : m.Rest range vmax perfCount) (i : ℕ)
    {f : Vertex (Fin N → K) (WithTop K) → Vertex (Fin N → K) (WithTop K)}
    (hterm : ∀ v, InBounds range vmax (f v).term)
    (hperf : ∀ v, (f v).perf.p.length = v.perf.p.length) (rand : σ) :
    ({ m with test := m.test.modify i f, rand := rand } : Pro K (Fin N → K) V (WithTop K) σ).Rest range vmax
      perfCount := by
  refine ⟨⟨{ h.sound.toFormed with test_length := ?_, test_perf := ?_ }, h.sound.admitted,
    h.sound.base_inBounds⟩, ?_⟩
  · exact (List.length_modify ..).trans h.sound.test_length
  · exact ListModify.forall_mem h.sound.test_perf fun v hlen => (hperf v).trans hlen
  · intro hstate
    exact ListModify.forall_mem (h.testable hstate) fun v _ => hterm v

lemma proOf_rejected_rest (h : ∀ i, (sig.bounds i).Indexed)
    (hrest : w.plug.Rest sig.bounds (internalVertexMax sig.bounds) perfCount) (fuel : ℕ) (flow : Flow K)
    (point : HPoint K) (hhint : HintInBounds sig flow) :
    (proRejected (proOf libc sig perfCount) (fuel + 4) w flow point).2.1.plug.Rest sig.bounds
      (internalVertexMax sig.bounds) perfCount := by
  by_cases hid : flow.point.id ≠ -1
  · obtain ⟨term, hterm, hin⟩ := hhint hid
    unfold proRejected
    dsimp only
    cases w.plug.find point.id with
    | none => exact hrest
    | some i =>
      dsimp only
      rw [if_pos hid]
      apply hrest.replaceTest i
      · intro v
        show InBounds _ _ ((vertexFromHpoint sig flow.point.val).getD fun _ => 0)
        rw [hterm]
        exact hin
      · exact fun _ => rfl
  · cases hmethod : w.plug.cfg.rejectType with
    | penalty =>
      exact proRejected_rest (proOf libc sig perfCount) (proOf libc sig perfCount).hasConverged hrest fuel flow
        point (not_not.mp hid) hmethod
    | random =>
      have hin := randState_inBounds libc h w.plug.rand
      unfold proRejected
      dsimp only
      cases w.plug.find point.id with
      | none => exact hrest
      | some i =>
        have hreplaced := hrest.replaceTest i
          (f := fun v => { v with term := (randState libc sig w.plug.rand).1 }.resetPerf) (fun _ => hin)
          (fun _ => List.length_map _) (randState libc sig w.plug.rand).2
        dsimp only
        rw [if_neg hid, hmethod]
        dsimp only [proOf]
        split
        · exact hrest
        · exact hreplaced

/-! ### The size of the simplex -/

omit [FloorRing K] [IsStrictOrderedRing K] in
lemma ProMove.simplexSize_eq {N : ℕ} {V σ : Type} {m m' : Pro K (Fin N → K) V (WithTop K) σ} (hmove : ProMove m m') :
    m'.simplexSize = m.simplexSize := by
  cases hmove <;> rfl

omit [FloorRing K] [IsStrictOrderedRing K] in
lemma proAlgorithm_simplexSize {N : ℕ} {V σ : Type} (lib : ProLib K (Fin N → K) V (WithTop K) σ)
    {w : ProWorld K (Fin N → K) V (WithTop K) σ} (h : w.plug.Formed perfCount) (fuel : ℕ) :
    (proAlgorithm lib fuel w).2.plug.simplexSize = w.plug.simplexSize := by
  induction fuel generalizing w with
  | zero => rfl
  | succ fuel ih =>
    rw [proAlgorithm_succ]
    by_cases hstate : w.plug.state = .converged
    · rw [if_pos hstate]
    · obtain ⟨w₁, m, hbefore, hmove, hformed, hplug⟩ := proBefore_spec lib h hstate
      have hspec : w₁.plug.Formed perfCount ∧ w₁.plug.simplexSize = w.plug.simplexSize := by
        obtain hplug | ⟨-, hplug⟩ := hplug
        · rw [hplug]
          exact ⟨hformed, hmove.simplexSize_eq⟩
        · rw [hplug]
          exact ⟨{ hformed with }, hmove.simplexSize_eq⟩
      obtain ⟨hformed₁, hsize₁⟩ := hspec
      obtain ⟨test, hnext, hbuilt⟩ := proNextSimplex_spec lib hformed₁
      rw [if_neg hstate, hbefore]
      dsimp only
      rw [hnext]
      dsimp only
      split_ifs
      · exact (ih (w := { w₁ with plug := { w₁.plug with test := test } }) (hbuilt.formed hformed₁)).trans hsize₁
      · exact hsize₁

omit [FloorRing K] [IsStrictOrderedRing K] in
lemma proRound_simplexSize {N : ℕ} {V σ : Type} (lib : ProLib K (Fin N → K) V (WithTop K) σ)
    {w : ProWorld K (Fin N → K) V (WithTop K) σ} (h : w.plug.Formed perfCount) (fuel : ℕ) :
    (proRound lib fuel w).2.plug.simplexSize = w.plug.simplexSize := by
  unfold proRound
  dsimp only
  split_ifs
  · exact proAlgorithm_simplexSize lib h fuel
  · exact proAlgorithm_simplexSize lib h fuel
  · rfl

omit [IsStrictOrderedRing K] in
lemma send_simplexSize {point : HPoint K}
    {m m' : Pro K (Fin sig.range.length → K) K (WithTop K) (ρ × (Fin sig.range.length → K))}
    (hsend : m.send (proOf libc sig perfCount) = some (point, m')) : m'.simplexSize = m.simplexSize := by
  obtain ⟨v, -, -, heq⟩ := send_eq hsend
  rw [heq]

omit [IsStrictOrderedRing K] in
lemma proGenerate_simplexSize (flow : Flow K) (point : HPoint K) :
    (proGenerate (proOf libc sig perfCount) w flow point).2.1.plug.simplexSize = w.plug.simplexSize := by
  unfold proGenerate
  dsimp only
  split_ifs
  · rfl
  · cases hsend : w.plug.send (proOf libc sig perfCount) with
    | none => rfl
    | some sent => exact send_simplexSize hsend

omit [IsStrictOrderedRing K] in
lemma proAnalyze_simplexSize (h : w.plug.Rest sig.bounds (internalVertexMax sig.bounds) perfCount) (fuel : ℕ)
    {trial : HTrial K (WithTop K)} (hperf : trial.perf.p.length = perfCount) :
    (proAnalyze (proOf libc sig perfCount) fuel w trial).2.plug.simplexSize = w.plug.simplexSize := by
  unfold proAnalyze
  dsimp only
  cases hfind : w.plug.find trial.point.id with
  | none => rfl
  | some i =>
    have hformed := (h.record (Pro.find_lt hfind).1 hperf).sound.toFormed
    have hsize := proRound_simplexSize (proOf libc sig perfCount)
      (w := { w with plug := w.plug.record i trial.perf }) hformed fuel
    obtain ⟨bestTest, heq, -⟩ := record_eq w.plug i trial.perf
    have hrecord : (w.plug.record i trial.perf).simplexSize = w.plug.simplexSize := by rw [heq]
    dsimp only
    split_ifs
    · exact hsize.trans hrecord
    · exact hsize.trans hrecord
    · exact hsize.trans hrecord

omit [IsStrictOrderedRing K] in
lemma proRejected_simplexSize (h : w.plug.Rest sig.bounds (internalVertexMax sig.bounds) perfCount) (fuel : ℕ)
    (flow : Flow K) (point : HPoint K) :
    (proRejected (proOf libc sig perfCount) fuel w flow point).2.1.plug.simplexSize = w.plug.simplexSize := by
  unfold proRejected
  dsimp only
  cases w.plug.find point.id with
  | none => rfl
  | some i =>
    have hsize := proRound_simplexSize (proOf libc sig perfCount)
      (w := { w with plug := w.plug.penalize i }) (h.penalize i).sound.toFormed fuel
    rw [Pro.penalize] at hsize
    dsimp only
    by_cases hid : flow.point.id ≠ -1
    · rw [if_pos hid]
    · rw [if_neg hid]
      cases w.plug.cfg.rejectType with
      | penalty =>
        dsimp only
        split_ifs
        · exact hsize
        · exact hsize
        · split
          · exact hsize
          · rename_i hsend
            exact (send_simplexSize hsend).trans hsize
      | random =>
        dsimp only
        split
        · rfl
        · rfl

/-! ### Runs -/

lemma ProSearch.rest (h : ∀ i, (sig.bounds i).Indexed) (hrun : ProSearch libc sig perfCount w) :
    w.plug.Rest sig.bounds (internalVertexMax sig.bounds) perfCount ∧
      sig.range.length < w.plug.simplexSize := by
  generalize hconverged : (proOf libc sig perfCount).hasConverged = converged
  have hexact : (proOf libc sig perfCount).exact sig.bounds (internalVertexMax sig.bounds) converged =
      proOf libc sig perfCount := by
    rw [← hconverged]
    rfl
  induction hrun with
  | @start w w' hfresh hbase htest hstash hexpand hinit =>
    obtain ⟨honce, -⟩ := proOnce_of_fresh (proOf libc sig perfCount) hfresh
    have hgt : sig.range.length < (Pro.once (proOf libc sig perfCount) w).simplexSize := by
      rw [honce]
      exact simplexSize_gt w.cfg
    have hpos := Nat.zero_lt_of_lt hgt
    have hstart := proOf_start h hexpand hinit hgt
    have hformed := proInit_formed (proOf libc sig perfCount) hstart.simplex_length
      (by rw [hbase]; exact hpos) (by rw [htest]; exact hpos) (by rw [hstash]; exact hpos) hinit
    obtain ⟨_, _, -, heq⟩ := proInit_spec hinit
    refine ⟨?_, by rw [heq]; exact hgt⟩
    rw [← hexact] at hinit
    exact proInit_rest (proOf libc sig perfCount) converged hstart hinit hformed
  | @restart w w' hrun hexpand hinit ih =>
    obtain ⟨hrest, hgt⟩ := ih
    have honce := proOnce_of_formed (proOf libc sig perfCount) hrest.sound.toFormed
    rw [← honce] at hgt
    have hstart := proOf_start h hexpand hinit hgt
    have hsize := congrArg Pro.simplexSize honce
    have hformed := proInit_formed (proOf libc sig perfCount) hstart.simplex_length
      (by rw [hsize]; exact hrest.sound.bestBase_lt) (by rw [hsize]; exact hrest.sound.bestTest_lt)
      (by rw [hsize]; exact hrest.sound.bestStash_lt) hinit
    obtain ⟨_, _, -, heq⟩ := proInit_spec hinit
    refine ⟨?_, by rw [heq]; exact hgt⟩
    rw [← hexact] at hinit
    exact proInit_rest (proOf libc sig perfCount) converged hstart hinit hformed
  | other cfg errmsg hrun ih => exact ih
  | generate flow point hrun ih =>
    refine ⟨?_, by rw [proGenerate_simplexSize]; exact ih.2⟩
    rw [← hexact]
    exact proGenerate_rest (proOf libc sig perfCount) converged ih.1 flow point
  | analyze fuel trial hrun hperf ih =>
    refine ⟨?_, by rw [proAnalyze_simplexSize ih.1 _ hperf]; exact ih.2⟩
    rw [← hexact]
    exact proAnalyze_rest (proOf libc sig perfCount) converged ih.1 fuel trial hperf
  | rejected fuel flow point hrun hhint ih =>
    exact ⟨proOf_rejected_rest h ih.1 fuel flow point hhint, by rw [proRejected_simplexSize ih.1]; exact ih.2⟩

end

end ActiveHarmony

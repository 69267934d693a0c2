import ActiveHarmony.Strategy.ProRounds

/-!
# The bounds of the Parallel Rank Order search

The loop of `pro_algorithm` goes on while the simplex to test is out of bounds. With exact arithmetic it
takes at most three rounds: the vertices of a simplex that was not tested have an infinite performance or
are copies of the best vertex, so that it is not accepted, and a shrink stays within the bounds of `base`.
`pro_stays_in_bounds` says so for every sequence of results and penalties.
-/

namespace ActiveHarmony

/-- The coefficients that `strategy_cfg` admits. -/
structure ProCfg.Admitted {R : Type} [Zero R] [One R] [LT R] (cfg : ProCfg R) : Prop where
  reflect_pos : 0 < cfg.reflect
  expand_gt : cfg.reflect < cfg.expand
  shrink_pos : 0 < cfg.shrink
  shrink_lt : cfg.shrink < 1

section

variable {N : ℕ} {R V ρ : Type} [Field R] [LinearOrder R]

/-- These functions of `libvertex.c` with exact arithmetic, and an outcome of `check_convergence`. -/
def ProLib.exact {W : Type} (lib : ProLib R (Fin N → R) V W ρ) (range : Fin N → HBounds R)
    (vmax : Fin N → R) (converged : ProCfg R → List (Vertex (Fin N → R) W) → Bool) :
    ProLib R (Fin N → R) V W ρ :=
  { lib with
    vertexTransform := ActiveHarmony.vertexTransform
    vertexOutofbounds := ActiveHarmony.vertexOutofbounds range vmax
    hasConverged := converged }

/-- What holds in every state of the search. -/
structure Pro.Sound (range : Fin N → HBounds R) (vmax : Fin N → R) (perfCount : ℕ)
    (m : Pro R (Fin N → R) V (WithTop R) ρ) : Prop extends m.Formed perfCount where
  admitted : m.cfg.Admitted
  base_inBounds : ∀ v ∈ m.base, InBounds range vmax v.term

/-- The simplex to test is within bounds. -/
def Pro.Testable (range : Fin N → HBounds R) (vmax : Fin N → R) (m : Pro R (Fin N → R) V (WithTop R) ρ) :
    Prop :=
  ∀ v ∈ m.test, InBounds range vmax v.term

/-- What holds between two calls. -/
structure Pro.Rest (range : Fin N → HBounds R) (vmax : Fin N → R) (perfCount : ℕ)
    (m : Pro R (Fin N → R) V (WithTop R) ρ) : Prop where
  sound : m.Sound range vmax perfCount
  testable : m.state ≠ .converged → m.Testable range vmax

end

/-! ## A round -/

section

variable {N : ℕ} {R V ρ : Type} [Field R] [LinearOrder R] [IsStrictOrderedRing R]
  {range : Fin N → HBounds R} {vmax : Fin N → R} {perfCount : ℕ}
  {m m' : Pro R (Fin N → R) V (WithTop R) ρ}

/-- `pro_next_state` only accepts a simplex that is within bounds. -/
lemma ProMove.sound (hmove : ProMove m m') (h : m.Sound range vmax perfCount)
    (hready : m.Testable range vmax ∨ m.Stale) : m'.Sound range vmax perfCount := by
  have hformed := hmove.formed h.toFormed
  have hnot : m.Stale → (m.state = .reflect ∨ m.state = .expandAll → ¬m.Better m.bestTest) :=
    fun hstale => (hstale.not_better h.toFormed).1
  cases hmove with
  | accept hstate =>
    have htest : m.Testable range vmax := by
      apply hready.resolve_right
      intro hstale
      unfold Pro.Stale at hstale
      obtain hstate | hstate := hstate
      · rw [hstate] at hstale
        exact hstale
      · rw [hstate] at hstale
        exact hstale
    exact ⟨hformed, h.admitted, htest⟩
  | expandOne hstate hbetter =>
    have htest := hready.resolve_right fun hstale => hnot hstale (Or.inl hstate) hbetter
    exact ⟨hformed, h.admitted, htest⟩
  | shrink hstate hworse => exact ⟨hformed, h.admitted, h.base_inBounds⟩
  | expandAll hstate hbetter => exact ⟨hformed, h.admitted, h.base_inBounds⟩
  | revert hstate hworse => exact ⟨hformed, h.admitted, h.base_inBounds⟩
  | expanded hstate hbetter =>
    have htest := hready.resolve_right fun hstale => hnot hstale (Or.inr hstate) hbetter
    exact ⟨hformed, h.admitted, htest⟩
  | stay hstate hworse => exact ⟨hformed, h.admitted, h.base_inBounds⟩

variable (lib : ProLib R (Fin N → R) V (WithTop R) ρ)
  (converged : ProCfg R → List (Vertex (Fin N → R) (WithTop R)) → Bool)

omit [IsStrictOrderedRing R] in
lemma simplexOutofbounds_iff : simplexOutofbounds (lib.exact range vmax converged) m.test = false ↔
    m.Testable range vmax := by
  unfold simplexOutofbounds
  rw [List.any_eq_false]
  simp [Pro.Testable, InBounds, ProLib.exact]

/-- `pro_next_simplex`: a simplex that is not within bounds is one that was not tested, and a shrink is
within bounds. -/
lemma Pro.Built.ready {test : List (Vertex (Fin N → R) (WithTop R))}
    (hbuilt : m.Built (lib.exact range vmax converged) perfCount test) (h : m.Sound range vmax perfCount) :
    ({ m with test := test } : Pro R (Fin N → R) V (WithTop R) ρ).Testable range vmax ∨
      ({ m with test := test } : Pro R (Fin N → R) V (WithTop R) ρ).Stale ∧ m.state ≠ .shrink := by
  by_cases hinit : m.state = .init
  · left
    intro v hv
    rw [hbuilt.init hinit] at hv
    exact h.base_inBounds v hv
  · by_cases hshrink : m.state = .shrink
    · left
      have hc : m.coefficient = some m.cfg.shrink := by
        unfold Pro.coefficient
        rw [hshrink]
      obtain ⟨best, hbest, haround⟩ := hbuilt.around _ hc
      have hin := h.base_inBounds best (List.mem_of_getElem? hbest)
      intro v hv
      obtain rfl | ⟨-, u, hu, hterm⟩ := haround v hv
      · exact hin
      · rw [hterm]
        exact vertexTransform_inBounds (h.base_inBounds u hu) hin h.admitted.shrink_pos
          h.admitted.shrink_lt
    · exact Or.inr ⟨hbuilt.stale hinit hshrink, hshrink⟩

/-- A round with a simplex to test that is within bounds, or else with one that was not tested. -/
lemma proRound_sound {w : ProWorld R (Fin N → R) V (WithTop R) ρ} (h : w.plug.Sound range vmax perfCount)
    (hready : w.plug.Testable range vmax ∨ w.plug.Stale) (hstate : w.plug.state ≠ .converged) :
    ∃ w' : ProWorld R (Fin N → R) V (WithTop R) ρ, w'.plug.Sound range vmax perfCount ∧
      (w'.plug.Testable range vmax ∨ w'.plug.Stale ∧ w'.plug.state ≠ .shrink) ∧
      (w.plug.Stale → (w.plug.state = .reflect → w'.plug.state = .shrink) ∧
        (w.plug.state = .expandOne ∨ w.plug.state = .expandAll →
          w'.plug.state = .reflect ∨ w'.plug.state = .converged)) ∧
      ∀ fuel, proAlgorithm (lib.exact range vmax converged) (fuel + 1) w =
        if simplexOutofbounds (lib.exact range vmax converged) w'.plug.test then
          proAlgorithm (lib.exact range vmax converged) fuel w' else (0, w') := by
  obtain ⟨w₁, m, hbefore, hmove, -, hplug⟩ :=
    proBefore_spec (lib.exact range vmax converged) h.toFormed hstate
  have hsound := hmove.sound h hready
  have hsound₁ : w₁.plug.Sound range vmax perfCount := by
    obtain hplug | ⟨-, hplug⟩ := hplug
    · rw [hplug]
      exact hsound
    · rw [hplug]
      exact { hsound with }
  obtain ⟨test, hnext, hbuilt⟩ :=
    proNextSimplex_spec (lib.exact range vmax converged) hsound₁.toFormed
  refine ⟨{ w₁ with plug := { w₁.plug with test := test } },
    ⟨hbuilt.formed hsound₁.toFormed, hsound₁.admitted, hsound₁.base_inBounds⟩,
    hbuilt.ready lib converged hsound₁, ?_, ?_⟩
  · intro hstale
    obtain ⟨hreflect, hexpand⟩ := hmove.of_stale h.toFormed hstale
    constructor
    · intro hwas
      have hnow := hreflect hwas
      obtain hplug | ⟨hcheck, -⟩ := hplug
      · rw [hplug]
        exact hnow
      · rw [hnow] at hcheck
        exact absurd hcheck (by decide)
    · intro hwas
      have hnow := hexpand hwas
      obtain hplug | ⟨-, hplug⟩ := hplug
      · rw [hplug]
        exact Or.inl hnow
      · rw [hplug]
        exact Or.inr rfl
  · intro fuel
    rw [proAlgorithm_succ, if_neg hstate, hbefore]
    dsimp only
    rw [hnext]

omit [IsStrictOrderedRing R] in
/-- The loop stops when the simplex to test is within bounds. -/
lemma rest_of_testable {w : ProWorld R (Fin N → R) V (WithTop R) ρ}
    (hsound : w.plug.Sound range vmax perfCount) (htest : w.plug.Testable range vmax) :
    w.plug.Rest range vmax perfCount :=
  ⟨hsound, fun _ => htest⟩

/-- After a reflection that was not tested, one round is enough. -/
lemma proAlgorithm_reflect {w : ProWorld R (Fin N → R) V (WithTop R) ρ}
    (h : w.plug.Sound range vmax perfCount) (hstale : w.plug.Stale)
    (hstate : w.plug.state = .reflect ∨ w.plug.state = .converged) :
    ∃ w' : ProWorld R (Fin N → R) V (WithTop R) ρ, w'.plug.Rest range vmax perfCount ∧
      ∀ fuel, proAlgorithm (lib.exact range vmax converged) (fuel + 1) w = (0, w') := by
  by_cases hconv : w.plug.state = .converged
  · refine ⟨w, ⟨h, fun hne => absurd hconv hne⟩, ?_⟩
    intro fuel
    rw [proAlgorithm, if_pos hconv]
  · obtain ⟨w', hsound, hready, hnext, hround⟩ := proRound_sound lib converged h (Or.inr hstale) hconv
    have hshrink := (hnext hstale).1 (hstate.resolve_right hconv)
    have htest := hready.resolve_right fun hnot => hnot.2 hshrink
    refine ⟨w', rest_of_testable hsound htest, ?_⟩
    intro fuel
    rw [hround fuel, (simplexOutofbounds_iff lib converged).mpr htest]
    rfl

/-- With a simplex that was not tested, two rounds are enough. -/
lemma proAlgorithm_stale {w : ProWorld R (Fin N → R) V (WithTop R) ρ}
    (h : w.plug.Sound range vmax perfCount) (hstale : w.plug.Stale) :
    ∃ w' : ProWorld R (Fin N → R) V (WithTop R) ρ, w'.plug.Rest range vmax perfCount ∧
      ∀ fuel, proAlgorithm (lib.exact range vmax converged) (fuel + 2) w = (0, w') := by
  by_cases hlast : w.plug.state = .reflect ∨ w.plug.state = .converged
  · obtain ⟨w', hrest, hrun⟩ := proAlgorithm_reflect lib converged h hstale hlast
    exact ⟨w', hrest, fun fuel => hrun (fuel + 1)⟩
  · obtain ⟨hreflect, hconv⟩ := not_or.mp hlast
    have hexpand : w.plug.state = .expandOne ∨ w.plug.state = .expandAll := by
      unfold Pro.Stale at hstale
      cases hcase : w.plug.state with
      | expandOne => exact Or.inl rfl
      | expandAll => exact Or.inr rfl
      | reflect => exact absurd hcase hreflect
      | converged => exact absurd hcase hconv
      | init =>
        rw [hcase] at hstale
        exact hstale.elim
      | shrink =>
        rw [hcase] at hstale
        exact hstale.elim
    obtain ⟨w₁, hsound, hready, hnext, hround⟩ := proRound_sound lib converged h (Or.inr hstale) hconv
    by_cases htest : w₁.plug.Testable range vmax
    · refine ⟨w₁, rest_of_testable hsound htest, ?_⟩
      intro fuel
      rw [hround (fuel + 1), (simplexOutofbounds_iff lib converged).mpr htest]
      rfl
    · obtain ⟨hstale₁, -⟩ := hready.resolve_left htest
      obtain ⟨w', hrest, hrun⟩ :=
        proAlgorithm_reflect lib converged hsound hstale₁ ((hnext hstale).2 hexpand)
      refine ⟨w', hrest, ?_⟩
      intro fuel
      rw [hround (fuel + 1), if_pos (by simpa using mt (simplexOutofbounds_iff lib converged).mp htest)]
      exact hrun fuel

/-- `pro_algorithm`: three rounds are enough. -/
lemma proAlgorithm_rests {w : ProWorld R (Fin N → R) V (WithTop R) ρ}
    (h : w.plug.Rest range vmax perfCount) :
    ∃ w' : ProWorld R (Fin N → R) V (WithTop R) ρ, w'.plug.Rest range vmax perfCount ∧
      ∀ fuel, proAlgorithm (lib.exact range vmax converged) (fuel + 3) w = (0, w') := by
  by_cases hconv : w.plug.state = .converged
  · refine ⟨w, h, ?_⟩
    intro fuel
    rw [proAlgorithm, if_pos hconv]
  · obtain ⟨w₁, hsound, hready, -, hround⟩ :=
      proRound_sound lib converged h.sound (Or.inl (h.testable hconv)) hconv
    by_cases htest : w₁.plug.Testable range vmax
    · refine ⟨w₁, rest_of_testable hsound htest, ?_⟩
      intro fuel
      rw [hround (fuel + 2), (simplexOutofbounds_iff lib converged).mpr htest]
      rfl
    · obtain ⟨hstale, -⟩ := hready.resolve_left htest
      obtain ⟨w', hrest, hrun⟩ := proAlgorithm_stale lib converged hsound hstale
      refine ⟨w', hrest, ?_⟩
      intro fuel
      rw [hround (fuel + 2), if_pos (by simpa using mt (simplexOutofbounds_iff lib converged).mp htest)]
      exact hrun fuel

/-- The reference simplex stays within bounds after every number of rounds. -/
lemma proAlgorithm_base {w : ProWorld R (Fin N → R) V (WithTop R) ρ}
    (h : w.plug.Sound range vmax perfCount)
    (hready : w.plug.state ≠ .converged → w.plug.Testable range vmax ∨ w.plug.Stale) (fuel : ℕ) :
    ∀ v ∈ (proAlgorithm (lib.exact range vmax converged) fuel w).2.plug.base,
      InBounds range vmax v.term := by
  induction fuel generalizing w with
  | zero => exact h.base_inBounds
  | succ fuel ih =>
    by_cases hconv : w.plug.state = .converged
    · rw [proAlgorithm, if_pos hconv]
      exact h.base_inBounds
    · obtain ⟨w', hsound, hready', -, hround⟩ := proRound_sound lib converged h (hready hconv) hconv
      rw [hround fuel]
      split_ifs
      · exact ih hsound fun _ => hready'.imp_right And.left
      · exact hsound.base_inBounds

/-! ## The calls of the plug-in -/

omit [IsStrictOrderedRing R] in
/-- A new id or a new performance of a vertex to test. -/
lemma Pro.Rest.modifyTest (h : m.Rest range vmax perfCount) (i : ℕ)
    {f : Vertex (Fin N → R) (WithTop R) → Vertex (Fin N → R) (WithTop R)}
    (hterm : ∀ v, (f v).term = v.term)
    (hperf : ∀ v, v.perf.p.length = perfCount → (f v).perf.p.length = perfCount) :
    ({ m with test := m.test.modify i f } : Pro R (Fin N → R) V (WithTop R) ρ).Rest range vmax
      perfCount := by
  refine ⟨⟨{ h.sound.toFormed with test_length := ?_, test_perf := ?_ }, h.sound.admitted,
    h.sound.base_inBounds⟩, ?_⟩
  · exact (List.length_modify ..).trans h.sound.test_length
  · exact ListModify.forall_mem h.sound.test_perf hperf
  · intro hstate
    apply ListModify.forall_mem (h.testable hstate)
    intro v hv
    rw [hterm]
    exact hv

/-- What `strategy_init` starts from. -/
structure ProStart (range : Fin N → HBounds R) (vmax : Fin N → R)
    (w : ProWorld R (Fin N → R) V (WithTop R) ρ) (size : ℕ) : Prop where
  admitted : ∀ cfg, lib.strategyCfg w.cfg = some cfg → cfg.Admitted
  simplex_length : (lib.initial w.plug.rand w.cfg size).1.length = size
  simplex_inBounds : ∀ term ∈ (lib.initial w.plug.rand w.cfg size).1, InBounds range vmax term

/-- The states of the search between two calls; `check_convergence` decides anew in each call. -/
inductive ProRun (range : Fin N → HBounds R) (vmax : Fin N → R) :
    ProWorld R (Fin N → R) V (WithTop R) ρ → Prop
  | start {w w'} (converged) (hfresh : w.plug.base = []) (hbase : w.plug.bestBase = 0)
      (htest : w.plug.bestTest = 0) (hstash : w.plug.bestStash = 0)
      (hsize : N < lib.simplexSize w.cfg) (hstart : ProStart lib range vmax w (lib.simplexSize w.cfg))
      (hinit : proInit (lib.exact range vmax converged) w = (0, w')) : ProRun range vmax w'
  | restart {w w'} (converged) (hrun : ProRun range vmax w)
      (hstart : ProStart lib range vmax w w.plug.simplexSize)
      (hinit : proInit (lib.exact range vmax converged) w = (0, w')) : ProRun range vmax w'
  | generate {w} (converged flow point) (hrun : ProRun range vmax w) :
      ProRun range vmax (proGenerate (lib.exact range vmax converged) w flow point).2.1
  | analyze {w} (converged) (fuel : ℕ) (trial : HTrial V (WithTop R)) (hrun : ProRun range vmax w)
      (hperf : trial.perf.p.length = lib.perfCount) :
      ProRun range vmax (proAnalyze (lib.exact range vmax converged) (fuel + 4) w trial).2
  | rejected {w} (converged) (fuel : ℕ) (flow : Flow V) (point) (hrun : ProRun range vmax w)
      (hhint : flow.point.id = -1) (hpenalty : w.plug.cfg.rejectType = .penalty) :
      ProRun range vmax (proRejected (lib.exact range vmax converged) (fuel + 4) w flow point).2.1

omit [IsStrictOrderedRing R] in
lemma Pro.Rest.record (h : m.Rest range vmax perfCount) {i : ℕ} (hi : i < m.test.length)
    {perf : HPerf (WithTop R)} (hperf : perf.p.length = perfCount) :
    (m.record i perf).Rest range vmax perfCount := by
  obtain ⟨bestTest, heq, hbest⟩ := record_eq m i perf
  have hrest := h.modifyTest i (f := fun v => { v with perf := perf }) (fun _ => rfl) (fun _ _ => hperf)
  have hlt : bestTest < m.simplexSize := by
    obtain rfl | rfl := hbest
    · exact h.sound.bestTest_lt
    · rw [← h.sound.test_length]
      exact hi
  rw [heq]
  exact ⟨{ hrest.sound with bestTest_lt := hlt }, hrest.testable⟩

omit [IsStrictOrderedRing R] in
lemma Pro.Rest.penalize (h : m.Rest range vmax perfCount) (i : ℕ) :
    (m.penalize i).Rest range vmax perfCount := by
  have hrest := h.modifyTest i (f := Vertex.resetPerf) (fun _ => rfl)
    (fun _ hlen => (List.length_map _).trans hlen)
  exact ⟨{ hrest.sound with }, hrest.testable⟩

omit [IsStrictOrderedRing R] in
lemma proCall_rest {w w' : ProWorld R (Fin N → R) V (WithTop R) ρ} (hcall : ProCall lib w w')
    (h : w.plug.Rest range vmax lib.perfCount) : w'.plug.Rest range vmax lib.perfCount := by
  cases hcall with
  | analyze trial hperf hfind hfull => exact h.record (Pro.find_lt hfind).1 hperf
  | rejected point hpenalty hfind hfull => exact h.penalize _

/-- `proRound`: the algorithm ends, if it begins. -/
lemma proRound_rest {w : ProWorld R (Fin N → R) V (WithTop R) ρ} (h : w.plug.Rest range vmax perfCount)
    (fuel : ℕ) : ∃ w', proRound (lib.exact range vmax converged) (fuel + 4) w = (0, w') ∧
      w'.plug.Rest range vmax perfCount := by
  unfold proRound
  by_cases hfull : w.plug.reported = w.plug.simplexSize
  · obtain ⟨w', hrest, hrun⟩ := proAlgorithm_rests lib converged h
    rw [if_pos hfull, hrun (fuel + 1)]
    exact ⟨_, rfl, { hrest.sound with }, hrest.testable⟩
  · rw [if_neg hfull]
    exact ⟨w, rfl, h⟩

omit [IsStrictOrderedRing R] in
lemma Pro.Rest.send (h : m.Rest range vmax perfCount) {point : HPoint V}
    (hsend : m.send (lib.exact range vmax converged) = some (point, m')) :
    m'.Rest range vmax perfCount := by
  obtain ⟨v, hv, -, heq⟩ := send_eq hsend
  have hrest := h.modifyTest m.sendIdx (f := fun v => { v with id := m.nextId }) (fun _ => rfl)
    (fun _ hlen => hlen)
  rw [heq]
  exact ⟨{ hrest.sound with }, hrest.testable⟩

omit [IsStrictOrderedRing R] in
lemma proGenerate_rest {w : ProWorld R (Fin N → R) V (WithTop R) ρ}
    (h : w.plug.Rest range vmax perfCount) (flow : Flow V) (point : HPoint V) :
    (proGenerate (lib.exact range vmax converged) w flow point).2.1.plug.Rest range vmax perfCount := by
  unfold proGenerate
  dsimp only
  split_ifs
  · exact h
  · cases hsend : w.plug.send (lib.exact range vmax converged) with
    | none => exact h
    | some sent => exact h.send lib converged hsend

lemma proAnalyze_rest {w : ProWorld R (Fin N → R) V (WithTop R) ρ}
    (h : w.plug.Rest range vmax lib.perfCount) (fuel : ℕ) (trial : HTrial V (WithTop R))
    (hperf : trial.perf.p.length = lib.perfCount) :
    (proAnalyze (lib.exact range vmax converged) (fuel + 4) w trial).2.plug.Rest range vmax
      lib.perfCount := by
  unfold proAnalyze
  dsimp only
  cases hfind : w.plug.find trial.point.id with
  | none => exact h
  | some i =>
    have hrecord := h.record (Pro.find_lt hfind).1 hperf
    obtain ⟨w', hround, hrest⟩ := proRound_rest lib converged
      (w := { w with plug := w.plug.record i trial.perf }) hrecord fuel
    dsimp only
    rw [hround]
    dsimp only
    rw [if_neg (not_not.mpr rfl)]
    split_ifs
    · exact ⟨{ hrest.sound with }, hrest.testable⟩
    · exact hrest

lemma proRejected_rest {w : ProWorld R (Fin N → R) V (WithTop R) ρ}
    (h : w.plug.Rest range vmax lib.perfCount) (fuel : ℕ) (flow : Flow V) (point : HPoint V)
    (hhint : flow.point.id = -1) (hpenalty : w.plug.cfg.rejectType = .penalty) :
    (proRejected (lib.exact range vmax converged) (fuel + 4) w flow point).2.1.plug.Rest range vmax
      lib.perfCount := by
  unfold proRejected
  dsimp only
  cases w.plug.find point.id with
  | none => exact h
  | some i =>
    dsimp only
    rw [if_neg (not_not.mpr hhint), hpenalty]
    dsimp only
    obtain ⟨w', hround, hrest⟩ := proRound_rest lib converged
      (w := { w with plug := w.plug.penalize i }) (h.penalize i) fuel
    rw [Pro.penalize] at hround
    rw [hround]
    dsimp only
    rw [if_neg (not_not.mpr rfl)]
    split_ifs
    · exact hrest
    · cases hsend : w'.plug.send (lib.exact range vmax converged) with
      | none => exact hrest
      | some sent => exact hrest.send lib converged hsend

omit [IsStrictOrderedRing R] in
lemma proInit_rest {w w' : ProWorld R (Fin N → R) V (WithTop R) ρ}
    (hstart : ProStart lib range vmax w (Pro.once (lib.exact range vmax converged) w).simplexSize)
    (hinit : proInit (lib.exact range vmax converged) w = (0, w'))
    (hformed : w'.plug.Formed lib.perfCount) : w'.plug.Rest range vmax lib.perfCount := by
  obtain ⟨cfg, rand, hcfg, heq⟩ := proInit_spec hinit
  have hin : ∀ v ∈ Pro.initialBase (lib.exact range vmax converged) w, InBounds range vmax v.term := by
    intro v hv
    obtain ⟨term, hterm, rfl⟩ := List.mem_map.mp hv
    exact hstart.simplex_inBounds term hterm
  rw [heq] at hformed ⊢
  exact ⟨⟨hformed, hstart.admitted cfg hcfg, hin⟩, fun _ => hin⟩

lemma ProRun.rest {w : ProWorld R (Fin N → R) V (WithTop R) ρ} (h : ProRun lib range vmax w) :
    w.plug.Rest range vmax lib.perfCount := by
  induction h with
  | @start w w' converged hfresh hbase htest hstash hsize hstart hinit =>
    have honce := (proOnce_of_fresh (lib.exact range vmax converged) hfresh).1
    have hpos : 0 < (Pro.once (lib.exact range vmax converged) w).simplexSize := by
      rw [honce]
      exact Nat.zero_lt_of_lt hsize
    have hstart' : ProStart lib range vmax w (Pro.once (lib.exact range vmax converged) w).simplexSize := by
      rw [honce]
      exact hstart
    have hformed := proInit_formed (lib.exact range vmax converged) hstart'.simplex_length
      (by rw [hbase]; exact hpos) (by rw [htest]; exact hpos) (by rw [hstash]; exact hpos) hinit
    exact proInit_rest lib converged hstart' hinit hformed
  | @restart w w' converged hrun hstart hinit ih =>
    have honce := proOnce_of_formed (lib.exact range vmax converged) ih.sound.toFormed
    rw [← honce] at hstart
    have hsize := congrArg Pro.simplexSize honce
    have hformed := proInit_formed (lib.exact range vmax converged) hstart.simplex_length
      (by rw [hsize]; exact ih.sound.bestBase_lt) (by rw [hsize]; exact ih.sound.bestTest_lt)
      (by rw [hsize]; exact ih.sound.bestStash_lt) hinit
    exact proInit_rest lib converged hstart hinit hformed
  | generate converged flow point hrun ih => exact proGenerate_rest lib converged ih flow point
  | analyze converged fuel trial hrun hperf ih =>
    exact proAnalyze_rest lib converged ih fuel trial hperf
  | rejected converged fuel flow point hrun hhint hpenalty ih =>
    exact proRejected_rest lib converged ih fuel flow point hhint hpenalty

/-- In every state of the search the reference simplex is within bounds, and stays so during a call of
`pro_algorithm`; the call ends after at most four rounds, and unless the search has converged, the simplex
to test is within bounds. -/
theorem pro_stays_in_bounds {w : ProWorld R (Fin N → R) V (WithTop R) ρ} (h : ProRun lib range vmax w) :
    (∀ v ∈ w.plug.base, InBounds range vmax v.term) ∧
      (w.plug.state ≠ .converged → ∀ v ∈ w.plug.test, InBounds range vmax v.term) ∧
      ∀ w', ProCall lib w w' → ∀ converged,
        (∀ fuel, ∀ v ∈ (proAlgorithm (lib.exact range vmax converged) fuel w').2.plug.base,
          InBounds range vmax v.term) ∧
        ∃ w'', (∀ fuel, proAlgorithm (lib.exact range vmax converged) (fuel + 4) w' = (0, w'')) ∧
          (w''.plug.state ≠ .converged → ∀ v ∈ w''.plug.test, InBounds range vmax v.term) := by
  have hrest := h.rest
  refine ⟨hrest.sound.base_inBounds, hrest.testable, ?_⟩
  intro w' hcall converged
  have hrest' := proCall_rest lib hcall hrest
  refine ⟨proAlgorithm_base lib converged hrest'.sound fun hconv => Or.inl (hrest'.testable hconv), ?_⟩
  obtain ⟨w'', hend, hrun⟩ := proAlgorithm_rests lib converged hrest'
  exact ⟨w'', fun fuel => hrun (fuel + 1), hend.testable⟩

end

lemma tenSteps_inBounds {x : ℚ} (hlo : 0 ≤ x) (hhi : x ≤ 10) :
    InBounds (fun _ : Fin 1 => HBounds.real 0 10 0) (fun _ => 10) (fun _ => x) :=
  inBounds_iff.mpr ⟨nofun, fun _ => hlo, fun _ => hhi⟩

/-- The search in `tenSteps` after its initialization. -/
lemma tenSteps_run : ProRun tenSteps (fun _ => .real 0 10 0) (fun _ => 10)
    (proInit (tenSteps.exact (fun _ => .real 0 10 0) (fun _ => 10) fun _ _ => false) tenStepsLoaded).2 := by
  have hsize : 1 < tenSteps.simplexSize tenStepsLoaded.cfg := by decide
  apply ProRun.start (w := tenStepsLoaded) (fun _ _ => false) rfl rfl rfl rfl hsize
  · refine ⟨?_, rfl, ?_⟩
    · intro cfg hcfg
      rw [← Option.some.inj hcfg]
      constructor <;> decide +kernel
    · intro term hterm
      obtain rfl | hterm := List.mem_cons.mp hterm
      · exact tenSteps_inBounds (by norm_num) (by norm_num)
      · obtain rfl | hterm := List.mem_cons.mp hterm
        · exact tenSteps_inBounds (by norm_num) (by norm_num)
        · rw [List.mem_singleton.mp hterm]
          exact tenSteps_inBounds (by norm_num) (by norm_num)
  · exact Prod.ext (by decide +kernel) rfl

theorem pro_stays_in_bounds_ten_steps :
    (proInit (tenSteps.exact (fun _ => .real 0 10 0) (fun _ => 10) fun _ _ => false)
      tenStepsLoaded).2.plug.base.Forall fun v =>
        InBounds (fun _ : Fin 1 => HBounds.real 0 10 0) (fun _ => 10) v.term :=
  List.forall_iff_forall_mem.mpr (pro_stays_in_bounds tenSteps tenSteps_run).1

end ActiveHarmony

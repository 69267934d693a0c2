import ActiveHarmony.Strategy.NelderMeadPivots

/-!
# The bounds of the Nelder-Mead search

The loop of `nm_algorithm` goes on while the vertex to test is out of bounds. With exact arithmetic it
takes at most three rounds: a vertex that was not tested has an infinite performance, so that it does
not get into the simplex, and a contraction or a shrink stays within the bounds of the simplex.
`nm_stays_in_bounds` says so for every sequence of results and penalties.
-/

namespace ActiveHarmony

/-! ## The search with exact arithmetic -/

section

variable {N : ℕ} {R : Type} [Field R] [LinearOrder R]

/-- These functions of `libvertex.c` with exact arithmetic, and an outcome of `check_convergence`. The
performance of the centroid is only read by `check_convergence`. -/
def NmLib.exact {V W ρ : Type} (lib : NmLib R (Fin N → R) V W ρ) (range : Fin N → HBounds R)
    (vmax : Fin N → R) (converged : NmCfg R → List (Vertex (Fin N → R) W) → Vertex (Fin N → R) W → Bool) :
    NmLib R (Fin N → R) V W ρ :=
  { lib with
    vertexTransform := ActiveHarmony.vertexTransform
    vertexOutofbounds := ActiveHarmony.vertexOutofbounds range vmax
    simplexCentroid := fun vs => (centroidTerm vs, (lib.simplexCentroid vs).2)
    hasConverged := converged }

end

/-! ## What holds at each step -/

/-- The coefficients that `strategy_cfg` admits. -/
structure NmCfg.Admitted {R : Type} [Zero R] [One R] [LT R] (cfg : NmCfg R) : Prop where
  reflect_pos : 0 < cfg.reflect
  expand_gt : cfg.reflect < cfg.expand
  contract_pos : 0 < cfg.contract
  contract_lt : cfg.contract < 1
  shrink_pos : 0 < cfg.shrink
  shrink_lt : cfg.shrink < 1

section

variable {N : ℕ} {R V ρ : Type} [Field R] [LinearOrder R]

/-- What holds in every state of the search. -/
structure Nm.Sound (range : Fin N → HBounds R) (vmax : Fin N → R) (perfCount : ℕ)
    (m : Nm R (Fin N → R) V (WithTop R) ρ) : Prop extends m.Formed perfCount where
  admitted : m.cfg.Admitted
  size_gt : N < m.simplexSize
  base_inBounds : ∀ v ∈ m.base, InBounds range vmax v.term

/-- What holds when `nm_algorithm` is called: a test vertex out of bounds was not tested. -/
def Nm.Ready (range : Fin N → HBounds R) (vmax : Fin N → R) (m : Nm R (Fin N → R) V (WithTop R) ρ) :
    Prop :=
  match m.state with
  | .init | .shrink => 0 ≤ m.indexCurr ∧ m.indexCurr < m.simplexSize
  | .converged => m.next = .base m.indexBest
  | _ => InBounds range vmax m.centroid.term ∧ (InBounds range vmax m.test.term ∨ m.test.Untested)

/-- What holds when `nm_next_vertex` is called. -/
def Nm.Moved (range : Fin N → HBounds R) (vmax : Fin N → R) (m : Nm R (Fin N → R) V (WithTop R) ρ) :
    Prop :=
  match m.state with
  | .init => 0 ≤ m.indexCurr ∧ m.indexCurr < m.simplexSize
  | .shrink => -1 ≤ m.indexCurr ∧ m.indexCurr < m.simplexSize
  | .converged => True
  | _ => InBounds range vmax m.centroid.term

/-- Where `next` points to. -/
def Nm.Placed (range : Fin N → HBounds R) (vmax : Fin N → R) (m : Nm R (Fin N → R) V (WithTop R) ρ) :
    Prop :=
  match m.state with
  | .init | .shrink =>
    0 ≤ m.indexCurr ∧ m.indexCurr < m.simplexSize ∧ m.next = .base m.indexCurr.toNat
  | .converged => m.next = .base m.indexBest
  | _ => InBounds range vmax m.centroid.term ∧ m.next = .test

/-- What holds between two calls: the vertex to test is within bounds. -/
structure Nm.Rest (range : Fin N → HBounds R) (vmax : Fin N → R) (perfCount : ℕ)
    (m : Nm R (Fin N → R) V (WithTop R) ρ) : Prop where
  sound : m.Sound range vmax perfCount
  placed : m.Placed range vmax
  test_inBounds : m.next = .test → InBounds range vmax m.test.term

end

/-! ## The parts of a round -/

section

variable {N : ℕ} {R V ρ : Type} [Field R] [LinearOrder R] [IsStrictOrderedRing R]
  {range : Fin N → HBounds R} {vmax : Fin N → R} {perfCount : ℕ}
  {m : Nm R (Fin N → R) V (WithTop R) ρ}

omit [IsStrictOrderedRing R] in
lemma Nm.Sound.getElem? (h : m.Sound range vmax perfCount) {i : ℕ} (hi : i < m.simplexSize) :
    ∃ v, m.base[i]? = some v ∧ v.perf.p.length = perfCount ∧ InBounds range vmax v.term := by
  obtain ⟨v, hv, hlen⟩ := h.toFormed.getElem? hi
  exact ⟨v, hv, hlen, h.base_inBounds v (List.mem_of_getElem? hv)⟩

omit [IsStrictOrderedRing R] in
/-- The vertices of the centroid are those of the simplex, but for one. -/
lemma others_spec (h : m.Sound range vmax perfCount) {worst : ℕ} (hworst : worst < m.simplexSize)
    (hN : 0 < N) : m.base.eraseIdx worst ≠ [] ∧
      ∀ v ∈ m.base.eraseIdx worst, InBounds range vmax v.term := by
  constructor
  · apply List.ne_nil_of_length_pos
    have hsize := h.size_eq
    have hgt := h.size_gt
    rw [List.length_eraseIdx, if_pos (by omega)]
    omega
  · intro v hv
    exact h.base_inBounds v (List.mem_of_mem_eraseIdx hv)

variable (lib : NmLib R (Fin N → R) V (WithTop R) ρ)
  (converged : NmCfg R → List (Vertex (Fin N → R) (WithTop R)) → Vertex (Fin N → R) (WithTop R) → Bool)

/-- `simplex_update_centroid` changes the indices and the centroid, which is within bounds. -/
lemma simplexUpdateCentroid_eq (h : m.Sound range vmax perfCount) : ∃ b w c, b < m.simplexSize ∧
    w < m.simplexSize ∧ InBounds range vmax c.term ∧
      simplexUpdateCentroid (lib.exact range vmax converged) m =
        { m with indexBest := b, indexWorst := w, centroid := c } := by
  obtain ⟨b, w, c, hb, hw, heq, hcurrent⟩ :=
    simplexUpdateCentroid_spec (lib.exact range vmax converged) h.toFormed
  refine ⟨b, w, c, hb, hw, ?_, heq⟩
  have hterm : c.term = centroidTerm (m.base.eraseIdx w) := by
    rw [heq] at hcurrent
    exact congrArg Prod.fst hcurrent.centroid
  rw [hterm]
  by_cases hN : 0 < N
  · obtain ⟨hne, hall⟩ := others_spec h hw hN
    exact centroidTerm_inBounds hne hall
  · apply inBounds_iff.mpr
    have hnone : ∀ i : Fin N, False := fun i => hN (Nat.zero_lt_of_lt i.isLt)
    exact ⟨fun i => (hnone i).elim, fun i => (hnone i).elim, fun i => (hnone i).elim⟩

omit [IsStrictOrderedRing R] in
lemma Nm.Sound.indices (h : m.Sound range vmax perfCount) {b w : ℕ} (hb : b < m.simplexSize)
    (hw : w < m.simplexSize) (c : Vertex (Fin N → R) (WithTop R)) (state : SimplexState) :
    ({ m with indexBest := b, indexWorst := w, centroid := c, state := state } :
      Nm R (Fin N → R) V (WithTop R) ρ).Sound range vmax perfCount :=
  { h with best_lt := hb, worst_lt := hw }

omit [IsStrictOrderedRing R] in
/-- A vertex within bounds replaces the worst one. -/
lemma Nm.Sound.replaceWorst (h : m.Sound range vmax perfCount)
    (htest : InBounds range vmax m.test.term) : m.replaceWorst.Sound range vmax perfCount := by
  refine ⟨h.toFormed.replaceWorst, h.admitted, h.size_gt, ?_⟩
  intro v hv
  obtain hv | rfl := List.mem_or_eq_of_mem_set hv
  · exact h.base_inBounds v hv
  · exact htest

/-- `nm_state_transition`: an expansion is followed by a reflection, and a reflection that was not tested
by a contraction. -/
lemma nmStateTransition_spec (h : m.Sound range vmax perfCount) (hready : m.Ready range vmax)
    (hstate : m.state ≠ .converged) :
    ∃ m' : Nm R (Fin N → R) V (WithTop R) ρ,
      nmStateTransition (lib.exact range vmax converged) m = some m' ∧ m'.Sound range vmax perfCount ∧
        m'.Moved range vmax ∧ (m.state = .expand → m'.state = .reflect) ∧
        (m.state = .reflect → m.test.Untested → m'.state = .contract) := by
  have hpos : 0 < m.simplexSize := Nat.zero_lt_of_lt h.size_gt
  obtain ⟨best, hbest, hfbest, -⟩ := h.getElem? h.best_lt
  obtain ⟨worst, hworst, hfworst, -⟩ := h.getElem? h.worst_lt
  have hlen : ∀ {v : Vertex (Fin N → R) (WithTop R)}, v.perf.p.length = perfCount →
      m.test.perf.p.length = v.perf.p.length := fun hv => h.test_perf.trans hv.symm
  have hother : ∀ {a b : SimplexState} {Q : Prop}, a ≠ b → a = b → Q := fun hne heq => absurd heq hne
  unfold nmStateTransition
  -- the next vertex of the initial simplex, or of one that was shrunken
  have hnext : 0 ≤ m.indexCurr → m.indexCurr < m.simplexSize → (m.state = .init ∨ m.state = .shrink) →
      ∃ m' : Nm R (Fin N → R) V (WithTop R) ρ, (if m.indexCurr + 1 = m.simplexSize then
          some { simplexUpdateCentroid (lib.exact range vmax converged)
            { m with indexCurr := m.indexCurr + 1 } with state := .reflect }
        else some { m with indexCurr := m.indexCurr + 1 }) = some m' ∧
        m'.Sound range vmax perfCount ∧ m'.Moved range vmax := by
    intro hlo hhi hkind
    have hsound : ({ m with indexCurr := m.indexCurr + 1 } :
      Nm R (Fin N → R) V (WithTop R) ρ).Sound range vmax perfCount := { h with }
    by_cases hlast : m.indexCurr + 1 = m.simplexSize
    · obtain ⟨b, w, c, hb, hw, hc, heq⟩ := simplexUpdateCentroid_eq lib converged hsound
      rw [if_pos hlast, heq]
      exact ⟨_, rfl, hsound.indices hb hw c .reflect, hc⟩
    · rw [if_neg hlast]
      refine ⟨_, rfl, hsound, ?_⟩
      unfold Nm.Moved
      obtain hinit | hshrink := hkind
      · simp only [hinit]
        omega
      · simp only [hshrink]
        omega
  cases hcase : m.state with
  | init =>
    unfold Nm.Ready at hready
    rw [hcase] at hready
    obtain ⟨m', heq, hsound, hmoved⟩ := hnext hready.1 hready.2 (Or.inl hcase)
    rw [hcase] at heq
    exact ⟨m', heq, hsound, hmoved, hother (by decide), hother (by decide)⟩
  | shrink =>
    unfold Nm.Ready at hready
    rw [hcase] at hready
    obtain ⟨m', heq, hsound, hmoved⟩ := hnext hready.1 hready.2 (Or.inr hcase)
    rw [hcase] at heq
    exact ⟨m', heq, hsound, hmoved, hother (by decide), hother (by decide)⟩
  | reflect =>
    unfold Nm.Ready at hready
    rw [hcase] at hready
    obtain ⟨hcentroid, htest⟩ := hready
    simp only [hbest, hworst, Option.bind_eq_bind, Option.bind_some]
    by_cases hbetter : hperfCmp m.test.perf best.perf < 0
    · rw [if_pos hbetter]
      have htest' := htest.resolve_right fun hun => hun.not_better (hlen hfbest) hbetter
      refine ⟨_, rfl, { h.replaceWorst htest' with }, hcentroid, hother (by decide), ?_⟩
      exact fun _ hun => absurd hbetter (hun.not_better (hlen hfbest))
    · rw [if_neg hbetter]
      by_cases hworse : hperfCmp m.test.perf worst.perf < 0
      · rw [if_pos hworse]
        have htest' := htest.resolve_right fun hun => hun.not_better (hlen hfworst) hworse
        have hsound := h.replaceWorst htest'
        obtain ⟨b, w, c, hb, hw, hc, heq⟩ := simplexUpdateCentroid_eq lib converged hsound
        rw [heq]
        refine ⟨_, rfl, hsound.indices hb hw c _, ?_, hother (by decide), ?_⟩
        · unfold Nm.Moved
          dsimp only
          by_cases hsame : m.indexWorst = w
          · rw [if_pos hsame]
            exact hc
          · rw [if_neg hsame]
            exact hc
        · exact fun _ hun => absurd hworse (hun.not_better (hlen hfworst))
      · rw [if_neg hworse]
        obtain ⟨b, w, c, hb, hw, hc, heq⟩ := simplexUpdateCentroid_eq lib converged h
        rw [heq]
        exact ⟨_, rfl, h.indices hb hw c .contract, hc, hother (by decide), fun _ _ => rfl⟩
  | expand =>
    unfold Nm.Ready at hready
    rw [hcase] at hready
    simp only [hbest, Option.bind_eq_bind, Option.bind_some]
    have hsound : (if hperfCmp m.test.perf best.perf < 0 then m.replaceWorst else m).Sound range vmax
        perfCount := by
      by_cases hbetter : hperfCmp m.test.perf best.perf < 0
      · rw [if_pos hbetter]
        exact h.replaceWorst
          (hready.2.resolve_right fun hun => hun.not_better (hlen hfbest) hbetter)
      · rw [if_neg hbetter]
        exact h
    obtain ⟨b, w, c, hb, hw, hc, heq⟩ := simplexUpdateCentroid_eq lib converged hsound
    rw [heq]
    exact ⟨_, rfl, hsound.indices hb hw c .reflect, hc, fun _ => rfl, hother (by decide)⟩
  | contract =>
    unfold Nm.Ready at hready
    rw [hcase] at hready
    simp only [hworst, Option.bind_eq_bind, Option.bind_some]
    by_cases hbetter : hperfCmp m.test.perf worst.perf < 0
    · rw [if_pos hbetter]
      have hsound := h.replaceWorst
        (hready.2.resolve_right fun hun => hun.not_better (hlen hfworst) hbetter)
      obtain ⟨b, w, c, hb, hw, hc, heq⟩ := simplexUpdateCentroid_eq lib converged hsound
      rw [heq]
      exact ⟨_, rfl, hsound.indices hb hw c .reflect, hc, hother (by decide), hother (by decide)⟩
    · rw [if_neg hbetter]
      refine ⟨_, rfl, { h with }, ?_, hother (by decide), hother (by decide)⟩
      show -1 ≤ (-1 : ℤ) ∧ (-1 : ℤ) < m.simplexSize
      omega
  | converged => exact absurd hcase hstate

lemma transformWorst_spec (h : m.Sound range vmax perfCount) (c : R) :
    ∃ m' : Nm R (Fin N → R) V (WithTop R) ρ,
      m.transformWorst (lib.exact range vmax converged) c = some m' ∧ m'.Sound range vmax perfCount ∧
        m'.state = m.state ∧ m'.centroid = m.centroid ∧ m'.next = .test ∧ m'.test.Untested ∧
        (0 < c → c < 1 → InBounds range vmax m.centroid.term → InBounds range vmax m'.test.term) := by
  obtain ⟨worst, hworst, -, hin⟩ := h.getElem? h.worst_lt
  unfold Nm.transformWorst
  rw [hworst]
  refine ⟨_, rfl, { h with test_perf := ?_ }, rfl, rfl, rfl, untested_reset _, ?_⟩
  · exact (List.length_map _).trans h.test_perf
  · intro hpos hlt hcentroid
    exact vertexTransform_inBounds hin hcentroid hpos hlt

/-- `nm_next_vertex`: only a reflection and an expansion may be out of bounds. -/
lemma nmNextVertex_spec (h : m.Sound range vmax perfCount) (hmoved : m.Moved range vmax) :
    ∃ m' : Nm R (Fin N → R) V (WithTop R) ρ,
      nmNextVertex (lib.exact range vmax converged) m = some m' ∧ m'.Sound range vmax perfCount ∧
        m'.Placed range vmax ∧ m'.state = m.state ∧ (m'.next = .test → m'.test.Untested ∧
          (m'.state = .reflect ∨ m'.state = .expand ∨ InBounds range vmax m'.test.term)) := by
  have hplaced : ∀ {m' : Nm R (Fin N → R) V (WithTop R) ρ}, m.state = m'.state →
      (m.state = .reflect ∨ m.state = .expand ∨ m.state = .contract) → m'.centroid = m.centroid →
      m'.next = .test → m'.Placed range vmax := by
    intro m' hstate hkind hcentroid hnext
    unfold Nm.Moved at hmoved
    unfold Nm.Placed
    rw [← hstate, hcentroid]
    obtain hkind | hkind | hkind := hkind <;> simp only [hkind] at hmoved ⊢ <;> exact ⟨hmoved, hnext⟩
  unfold nmNextVertex
  cases hcase : m.state with
  | init =>
    unfold Nm.Moved at hmoved
    rw [hcase] at hmoved
    exact ⟨_, rfl, { h with }, ⟨hmoved.1, hmoved.2, rfl⟩, rfl, nofun⟩
  | reflect =>
    obtain ⟨m', heq, hsound, hstate, hcentroid, hnext, hun, -⟩ :=
      transformWorst_spec lib converged h (-m.cfg.reflect)
    refine ⟨m', heq, hsound, hplaced hstate.symm (Or.inl hcase) hcentroid hnext, hstate.trans hcase, ?_⟩
    exact fun _ => ⟨hun, Or.inl (hstate.trans hcase)⟩
  | expand =>
    obtain ⟨m', heq, hsound, hstate, hcentroid, hnext, hun, -⟩ :=
      transformWorst_spec lib converged h m.cfg.expand
    refine ⟨m', heq, hsound, hplaced hstate.symm (Or.inr (Or.inl hcase)) hcentroid hnext,
      hstate.trans hcase, ?_⟩
    exact fun _ => ⟨hun, Or.inr (Or.inl (hstate.trans hcase))⟩
  | contract =>
    obtain ⟨m', heq, hsound, hstate, hcentroid, hnext, hun, hin⟩ :=
      transformWorst_spec lib converged h m.cfg.contract
    refine ⟨m', heq, hsound, hplaced hstate.symm (Or.inr (Or.inr hcase)) hcentroid hnext,
      hstate.trans hcase, ?_⟩
    unfold Nm.Moved at hmoved
    rw [hcase] at hmoved
    exact fun _ => ⟨hun, Or.inr (Or.inr (hin h.admitted.contract_pos h.admitted.contract_lt hmoved))⟩
  | shrink =>
    unfold Nm.Moved at hmoved
    rw [hcase] at hmoved
    have hpos : (0 : ℤ) < m.simplexSize := by
      exact_mod_cast Nat.zero_lt_of_lt h.size_gt
    by_cases hbegin : m.indexCurr = -1
    · obtain ⟨best, hbest, -, hin⟩ := h.getElem? h.best_lt
      simp only [if_pos hbegin, hbest, Option.bind_eq_bind, Option.bind_some]
      have hformed := shrunken_formed (lib.exact range vmax converged) h.toFormed best
      refine ⟨_, rfl, ⟨{ hformed with }, h.admitted, h.size_gt, ?_⟩, ⟨le_rfl, hpos, rfl⟩, rfl, nofun⟩
      intro v hv
      obtain ⟨i, hi, rfl⟩ := List.mem_mapIdx.mp hv
      have hold := h.base_inBounds m.base[i] (List.getElem_mem hi)
      split_ifs
      · exact hold
      · exact vertexTransform_inBounds hold hin h.admitted.shrink_pos h.admitted.shrink_lt
    · have hlo : 0 ≤ m.indexCurr := by omega
      rw [if_neg hbegin]
      exact ⟨_, rfl, { h with }, ⟨hlo, hmoved.2, rfl⟩, rfl, nofun⟩
  | converged =>
    exact ⟨_, rfl, { h with }, rfl, rfl, nofun⟩

omit [IsStrictOrderedRing R] in
lemma Nm.Placed.next_cases (hplaced : m.Placed range vmax) (h : m.Sound range vmax perfCount) :
    (∃ i, m.next = .base i ∧ i < m.simplexSize) ∨ m.next = .test := by
  unfold Nm.Placed at hplaced
  split at hplaced
  · exact Or.inl ⟨_, hplaced.2.2, by omega⟩
  · exact Or.inl ⟨_, hplaced.2.2, by omega⟩
  · exact Or.inl ⟨_, hplaced, h.best_lt⟩
  · exact Or.inr hplaced.2

/-! ## A round -/

variable (range vmax) in
omit [IsStrictOrderedRing R] in
/-- `check_convergence` changes the state at most. -/
lemma checkConvergence_plug (w : NmWorld R (Fin N → R) V (WithTop R) ρ) :
    (checkConvergence (lib.exact range vmax converged) w).plug = w.plug ∨
      (checkConvergence (lib.exact range vmax converged) w).plug = { w.plug with state := .converged } := by
  unfold checkConvergence
  dsimp only
  split_ifs
  · right
    rw [sessionSetcfg_plug]
  · left
    rfl

/-- A round with a vertex to test that is within bounds, or else with a reflection or an expansion that
was not tested. -/
lemma nmRound_spec {w : NmWorld R (Fin N → R) V (WithTop R) ρ} (h : w.plug.Sound range vmax perfCount)
    (hready : w.plug.Ready range vmax) (hstate : w.plug.state ≠ .converged) :
    ∃ (w' : NmWorld R (Fin N → R) V (WithTop R) ρ) (next : Vertex (Fin N → R) (WithTop R)),
      w'.plug.Sound range vmax perfCount ∧ w'.plug.Placed range vmax ∧ w'.plug.nextVertex = some next ∧
      (InBounds range vmax next.term ∨ w'.plug.next = .test ∧ w'.plug.test.Untested ∧
        (w'.plug.state = .reflect ∨ w'.plug.state = .expand)) ∧
      (w.plug.state = .expand → w'.plug.state = .reflect ∨ w'.plug.state = .converged) ∧
      (w.plug.state = .reflect → w.plug.test.Untested → w'.plug.state = .contract) ∧
      ∀ fuel, nmAlgorithm (lib.exact range vmax converged) (fuel + 1) w =
        if vertexOutofbounds range vmax next.term then
          nmAlgorithm (lib.exact range vmax converged) fuel w' else (0, w') := by
  obtain ⟨m, hm, hsound, hmoved, hexpand, hreflect⟩ :=
    nmStateTransition_spec lib converged h hready hstate
  -- the outcome of the test for convergence
  obtain ⟨w₁, hw₁, hsound₁, hmoved₁, hsame⟩ : ∃ w₁ : NmWorld R (Fin N → R) V (WithTop R) ρ,
      (if m.state = .reflect then checkConvergence (lib.exact range vmax converged) { w with plug := m }
        else { w with plug := m }) = w₁ ∧ w₁.plug.Sound range vmax perfCount ∧
        w₁.plug.Moved range vmax ∧ (w₁.plug.state = m.state ∨
          m.state = .reflect ∧ w₁.plug.state = .converged) := by
    by_cases hcheck : m.state = .reflect
    · rw [if_pos hcheck]
      obtain heq | heq := checkConvergence_plug range vmax lib converged
        { w with plug := m }
      · refine ⟨_, rfl, ?_, ?_, ?_⟩ <;> rw [heq]
        · exact hsound
        · exact hmoved
        · exact Or.inl rfl
      · refine ⟨_, rfl, ?_, ?_, ?_⟩ <;> rw [heq]
        · exact { hsound with }
        · trivial
        · exact Or.inr ⟨hcheck, rfl⟩
    · rw [if_neg hcheck]
      exact ⟨_, rfl, hsound, hmoved, Or.inl rfl⟩
  obtain ⟨m', hm', hsound', hplaced, hstate', htest⟩ := nmNextVertex_spec lib converged hsound₁ hmoved₁
  obtain ⟨next, hnext, hbound⟩ : ∃ next, m'.nextVertex = some next ∧
      (InBounds range vmax next.term ∨ m'.next = .test ∧ m'.test.Untested ∧
        (m'.state = .reflect ∨ m'.state = .expand)) := by
    obtain ⟨i, hi, hlt⟩ | hptr := hplaced.next_cases hsound'
    · obtain ⟨v, hv, -, hin⟩ := hsound'.getElem? hlt
      refine ⟨v, ?_, Or.inl hin⟩
      unfold Nm.nextVertex
      rw [hi]
      exact hv
    · refine ⟨m'.test, ?_, ?_⟩
      · unfold Nm.nextVertex
        rw [hptr]
      · obtain ⟨hun, hkind | hkind | hin⟩ := htest hptr
        · exact Or.inr ⟨hptr, hun, Or.inl hkind⟩
        · exact Or.inr ⟨hptr, hun, Or.inr hkind⟩
        · exact Or.inl hin
  refine ⟨{ w₁ with plug := m' }, next, hsound', hplaced, hnext, hbound, ?_, ?_, ?_⟩
  · intro hwas
    have hnow := hexpand hwas
    obtain hsame | ⟨-, hconv⟩ := hsame
    · exact Or.inl (hstate'.trans (hsame.trans hnow))
    · exact Or.inr (hstate'.trans hconv)
  · intro hwas hun
    have hnow := hreflect hwas hun
    obtain hsame | ⟨hcheck, -⟩ := hsame
    · exact hstate'.trans (hsame.trans hnow)
    · rw [hnow] at hcheck
      exact absurd hcheck (by decide)
  · intro fuel
    rw [nmAlgorithm, if_neg hstate, hm]
    dsimp only
    rw [hw₁, hm']
    dsimp only
    rw [hnext]
    rfl

omit [IsStrictOrderedRing R] in
lemma Nm.Placed.ready (hplaced : m.Placed range vmax)
    (htest : m.next = .test → InBounds range vmax m.test.term ∨ m.test.Untested) :
    m.Ready range vmax := by
  unfold Nm.Placed at hplaced
  unfold Nm.Ready
  split at hplaced
  · exact ⟨hplaced.1, hplaced.2.1⟩
  · exact ⟨hplaced.1, hplaced.2.1⟩
  · exact hplaced
  · exact ⟨hplaced.1, htest hplaced.2⟩

omit [IsStrictOrderedRing R] in
lemma Nm.Rest.ready (h : m.Rest range vmax perfCount) : m.Ready range vmax :=
  h.placed.ready fun htest => Or.inl (h.test_inBounds htest)

omit [IsStrictOrderedRing R] in
/-- The vertex to test exists and is within bounds. -/
lemma Nm.Rest.next_inBounds (h : m.Rest range vmax perfCount) :
    ∃ next, m.nextVertex = some next ∧ InBounds range vmax next.term := by
  obtain ⟨i, hi, hlt⟩ | hptr := h.placed.next_cases h.sound
  · obtain ⟨v, hv, -, hin⟩ := h.sound.getElem? hlt
    refine ⟨v, ?_, hin⟩
    unfold Nm.nextVertex
    rw [hi]
    exact hv
  · refine ⟨m.test, ?_, h.test_inBounds hptr⟩
    unfold Nm.nextVertex
    rw [hptr]

omit [IsStrictOrderedRing R] in
/-- The loop stops when the vertex to test is within bounds. -/
lemma rest_of_inBounds {w : NmWorld R (Fin N → R) V (WithTop R) ρ}
    (hsound : w.plug.Sound range vmax perfCount) (hplaced : w.plug.Placed range vmax)
    {next : Vertex (Fin N → R) (WithTop R)} (hnext : w.plug.nextVertex = some next)
    (hin : InBounds range vmax next.term) : w.plug.Rest range vmax perfCount := by
  refine ⟨hsound, hplaced, ?_⟩
  intro htest
  unfold Nm.nextVertex at hnext
  rw [htest] at hnext
  rw [Option.some.inj hnext]
  exact hin

/-- After a reflection that was not tested, one round is enough. -/
lemma nmAlgorithm_reflect {w : NmWorld R (Fin N → R) V (WithTop R) ρ}
    (h : w.plug.Sound range vmax perfCount) (hready : w.plug.Ready range vmax)
    (hstate : w.plug.state = .reflect) (hun : w.plug.test.Untested) :
    ∃ w' : NmWorld R (Fin N → R) V (WithTop R) ρ, w'.plug.Rest range vmax perfCount ∧
      ∀ fuel, nmAlgorithm (lib.exact range vmax converged) (fuel + 1) w = (0, w') := by
  obtain ⟨w', next, hsound, hplaced, hnext, hbound, -, hreflect, hround⟩ :=
    nmRound_spec lib converged h hready (by rw [hstate]; decide)
  have hcontract := hreflect hstate hun
  have hin : InBounds range vmax next.term := by
    obtain hin | ⟨-, -, hkind | hkind⟩ := hbound
    · exact hin
    · rw [hcontract] at hkind
      exact absurd hkind (by decide)
    · rw [hcontract] at hkind
      exact absurd hkind (by decide)
  refine ⟨w', rest_of_inBounds hsound hplaced hnext hin, ?_⟩
  intro fuel
  rw [hround fuel, if_neg (Bool.eq_false_iff.mp hin)]

/-- After an expansion, two rounds are enough. -/
lemma nmAlgorithm_expand {w : NmWorld R (Fin N → R) V (WithTop R) ρ}
    (h : w.plug.Sound range vmax perfCount) (hready : w.plug.Ready range vmax)
    (hstate : w.plug.state = .expand) :
    ∃ w' : NmWorld R (Fin N → R) V (WithTop R) ρ, w'.plug.Rest range vmax perfCount ∧
      ∀ fuel, nmAlgorithm (lib.exact range vmax converged) (fuel + 2) w = (0, w') := by
  obtain ⟨w₁, next, hsound, hplaced, hnext, hbound, hexpand, -, hround⟩ :=
    nmRound_spec lib converged h hready (by rw [hstate]; decide)
  by_cases hin : InBounds range vmax next.term
  · refine ⟨w₁, rest_of_inBounds hsound hplaced hnext hin, ?_⟩
    intro fuel
    rw [hround (fuel + 1), if_neg (Bool.eq_false_iff.mp hin)]
  · obtain ⟨-, hun, hkind⟩ := hbound.resolve_left hin
    have hreflect : w₁.plug.state = .reflect := by
      obtain hreflect | hconv := hexpand hstate
      · exact hreflect
      · rw [hconv] at hkind
        exact absurd hkind (by decide)
    obtain ⟨w', hrest, hrun⟩ :=
      nmAlgorithm_reflect lib converged hsound (hplaced.ready fun _ => Or.inr hun) hreflect hun
    refine ⟨w', hrest, ?_⟩
    intro fuel
    rw [hround (fuel + 1), if_pos (by simpa [InBounds] using hin)]
    exact hrun fuel

/-- `nm_algorithm`: three rounds are enough. -/
lemma nmAlgorithm_rests {w : NmWorld R (Fin N → R) V (WithTop R) ρ}
    (h : w.plug.Sound range vmax perfCount) (hready : w.plug.Ready range vmax) :
    ∃ w' : NmWorld R (Fin N → R) V (WithTop R) ρ, w'.plug.Rest range vmax perfCount ∧
      ∀ fuel, nmAlgorithm (lib.exact range vmax converged) (fuel + 3) w = (0, w') := by
  by_cases hstate : w.plug.state = .converged
  · unfold Nm.Ready at hready
    rw [hstate] at hready
    refine ⟨w, ⟨h, ?_, ?_⟩, ?_⟩
    · unfold Nm.Placed
      rw [hstate]
      exact hready
    · intro htest
      rw [hready] at htest
      exact absurd htest (by simp)
    · intro fuel
      rw [nmAlgorithm, if_pos hstate]
  · obtain ⟨w₁, next, hsound, hplaced, hnext, hbound, -, -, hround⟩ :=
      nmRound_spec lib converged h hready hstate
    by_cases hin : InBounds range vmax next.term
    · refine ⟨w₁, rest_of_inBounds hsound hplaced hnext hin, ?_⟩
      intro fuel
      rw [hround (fuel + 2), if_neg (Bool.eq_false_iff.mp hin)]
    · obtain ⟨-, hun, hkind⟩ := hbound.resolve_left hin
      have hready₁ := hplaced.ready fun _ => Or.inr hun
      have hout : vertexOutofbounds range vmax next.term = true := by
        simpa [InBounds] using hin
      obtain hreflect | hexpand := hkind
      · obtain ⟨w', hrest, hrun⟩ := nmAlgorithm_reflect lib converged hsound hready₁ hreflect hun
        refine ⟨w', hrest, ?_⟩
        intro fuel
        rw [hround (fuel + 2), if_pos hout]
        exact hrun (fuel + 1)
      · obtain ⟨w', hrest, hrun⟩ := nmAlgorithm_expand lib converged hsound hready₁ hexpand
        refine ⟨w', hrest, ?_⟩
        intro fuel
        rw [hround (fuel + 2), if_pos hout]
        exact hrun fuel

/-- The simplex stays within bounds after every number of rounds. -/
lemma nmAlgorithm_base {w : NmWorld R (Fin N → R) V (WithTop R) ρ}
    (h : w.plug.Sound range vmax perfCount) (hready : w.plug.Ready range vmax) (fuel : ℕ) :
    ∀ v ∈ (nmAlgorithm (lib.exact range vmax converged) fuel w).2.plug.base, InBounds range vmax v.term := by
  induction fuel generalizing w with
  | zero =>
    intro v hv
    exact h.base_inBounds v hv
  | succ fuel ih =>
    by_cases hstate : w.plug.state = .converged
    · rw [nmAlgorithm, if_pos hstate]
      intro v hv
      exact h.base_inBounds v hv
    · obtain ⟨w', next, hsound, hplaced, hnext, hbound, -, -, hround⟩ :=
        nmRound_spec lib converged h hready hstate
      rw [hround fuel]
      by_cases hin : InBounds range vmax next.term
      · rw [if_neg (Bool.eq_false_iff.mp hin)]
        intro v hv
        exact hsound.base_inBounds v hv
      · rw [if_pos (by simpa [InBounds] using hin)]
        exact ih hsound (hplaced.ready fun _ => Or.inr (hbound.resolve_left hin).2.1)

/-! ## The calls of the plug-in -/

omit [IsStrictOrderedRing R] in
/-- A new id or a new performance of the vertex to test. -/
lemma Nm.Rest.modifyNext (h : m.Rest range vmax perfCount)
    {f : Vertex (Fin N → R) (WithTop R) → Vertex (Fin N → R) (WithTop R)}
    (hterm : ∀ v, (f v).term = v.term) (hid : ∀ v, 0 ≤ v.id → 0 ≤ (f v).id)
    (hperf : ∀ v, v.perf.p.length = perfCount → (f v).perf.p.length = perfCount) :
    (m.modifyNext f).Rest range vmax perfCount := by
  have hformed := modifyNext_formed h.sound.toFormed hid hperf
  have hplaced := h.placed
  unfold Nm.modifyNext at hformed ⊢
  unfold Nm.Placed at hplaced
  cases hptr : m.next with
  | base i =>
    rw [hptr] at hformed hplaced
    refine ⟨⟨hformed, h.sound.admitted, h.sound.size_gt, ?_⟩, hplaced, nofun⟩
    apply ListModify.forall_mem h.sound.base_inBounds
    intro v hv
    rw [hterm]
    exact hv
  | test =>
    rw [hptr] at hformed hplaced
    refine ⟨⟨hformed, h.sound.admitted, h.sound.size_gt, h.sound.base_inBounds⟩, hplaced, ?_⟩
    intro _
    have hin := h.test_inBounds hptr
    rw [← hterm] at hin
    exact hin

/-- What `strategy_init` starts from. -/
structure NmStart (range : Fin N → HBounds R) (vmax : Fin N → R)
    (w : NmWorld R (Fin N → R) V (WithTop R) ρ) (size : ℕ) : Prop where
  admitted : ∀ cfg, lib.strategyCfg w.cfg = some cfg → cfg.Admitted
  simplex_length : (lib.initial w.plug.rand w.cfg size).1.length = size
  simplex_inBounds : ∀ term ∈ (lib.initial w.plug.rand w.cfg size).1, InBounds range vmax term

/-- The states of the search between two calls; `check_convergence` decides anew in each call. -/
inductive NmRun (range : Fin N → HBounds R) (vmax : Fin N → R) :
    NmWorld R (Fin N → R) V (WithTop R) ρ → Prop
  | start {w w'} (converged) (hfresh : w.plug.base = [])
      (hbest : w.plug.indexBest = 0) (hworst : w.plug.indexWorst = 0)
      (hsize : N < lib.simplexSize w.cfg) (hstart : NmStart lib range vmax w (lib.simplexSize w.cfg))
      (hinit : nmInit (lib.exact range vmax converged) w = (0, w')) : NmRun range vmax w'
  | restart {w w'} (converged) (hrun : NmRun range vmax w)
      (hstart : NmStart lib range vmax w w.plug.simplexSize)
      (hinit : nmInit (lib.exact range vmax converged) w = (0, w')) : NmRun range vmax w'
  | generate {w} (converged flow point) (hrun : NmRun range vmax w) :
      NmRun range vmax (nmGenerate (lib.exact range vmax converged) w flow point).2.1
  | analyze {w} (converged) (fuel : ℕ) (trial : HTrial V (WithTop R)) (hrun : NmRun range vmax w)
      (hperf : trial.perf.p.length = lib.perfCount) :
      NmRun range vmax (nmAnalyze (lib.exact range vmax converged) (fuel + 4) w trial).2
  | rejected {w} (converged) (fuel : ℕ) (flow : Flow V) (point) (hrun : NmRun range vmax w)
      (hhint : flow.point.id = -1) (hpenalty : w.plug.cfg.rejectType = .penalty) :
      NmRun range vmax (nmRejected (lib.exact range vmax converged) (fuel + 4) w flow point).2.1

omit [IsStrictOrderedRing R] in
lemma nmCall_rest {w w' : NmWorld R (Fin N → R) V (WithTop R) ρ} (hcall : NmCall lib w w')
    (h : w.plug.Rest range vmax lib.perfCount) : w'.plug.Rest range vmax lib.perfCount := by
  cases hcall with
  | analyze trial hperf hnext hid =>
    exact h.modifyNext (fun _ => rfl) (fun _ hid => hid) (fun _ _ => hperf)
  | rejected hpenalty =>
    exact h.modifyNext (fun _ => rfl) (fun _ hid => hid) (fun _ hlen => (List.length_map _).trans hlen)

omit [IsStrictOrderedRing R] in
lemma nmInit_rest {w w' : NmWorld R (Fin N → R) V (WithTop R) ρ} {size : ℕ} (hsize : N < size)
    (honce : (Nm.once (lib.exact range vmax converged) w).simplexSize = size)
    (hbest : w.plug.indexBest < size) (hworst : w.plug.indexWorst < size)
    (hid : 0 ≤ (Nm.once (lib.exact range vmax converged) w).nextId) (hstart : NmStart lib range vmax w size)
    (hinit : nmInit (lib.exact range vmax converged) w = (0, w')) :
    w'.plug.Rest range vmax lib.perfCount := by
  subst honce
  obtain ⟨hformed, -⟩ := nmInit_settled hbest hworst hid hstart.simplex_length hinit
  obtain ⟨cfg, hcfg, heq⟩ := nmInit_spec hinit
  rw [heq] at hformed ⊢
  have hpos : (0 : ℤ) < (Nm.once (lib.exact range vmax converged) w).simplexSize := by
    exact_mod_cast Nat.zero_lt_of_lt hsize
  refine ⟨⟨hformed, hstart.admitted cfg hcfg, hsize, ?_⟩, ⟨le_rfl, hpos, rfl⟩, nofun⟩
  intro v hv
  obtain ⟨term, hterm, rfl⟩ := List.mem_map.mp hv
  rw [once_rand] at hterm
  exact hstart.simplex_inBounds term hterm

lemma nmAnalyze_rest {w : NmWorld R (Fin N → R) V (WithTop R) ρ}
    (h : w.plug.Rest range vmax lib.perfCount) (fuel : ℕ) (trial : HTrial V (WithTop R))
    (hperf : trial.perf.p.length = lib.perfCount) :
    (nmAnalyze (lib.exact range vmax converged) (fuel + 4) w trial).2.plug.Rest range vmax
      lib.perfCount := by
  obtain ⟨next, hnext, -⟩ := h.next_inBounds
  unfold nmAnalyze
  simp only [hnext]
  by_cases hid : trial.point.id ≠ next.id
  · rw [if_pos hid]
    exact h
  · rw [if_neg hid]
    have hcall := nmCall_rest lib (NmCall.analyze trial hperf hnext (not_not.mp hid)) h
    obtain ⟨w', hrest, hrun⟩ := nmAlgorithm_rests lib converged hcall.sound hcall.ready
    rw [hrun (fuel + 1)]
    dsimp only
    rw [if_neg (not_not.mpr rfl)]
    have hid' : (0 : ℤ) ≤ w'.plug.nextId + 1 := by
      have hid := hrest.sound.nextId_nonneg
      omega
    split_ifs
    · exact ⟨{ hrest.sound with nextId_nonneg := hid' }, hrest.placed, hrest.test_inBounds⟩
    · exact ⟨{ hrest.sound with }, hrest.placed, hrest.test_inBounds⟩
    · exact ⟨{ hrest.sound with nextId_nonneg := hid' }, hrest.placed, hrest.test_inBounds⟩
    · exact hrest

lemma nmRejected_rest {w : NmWorld R (Fin N → R) V (WithTop R) ρ}
    (h : w.plug.Rest range vmax lib.perfCount) (fuel : ℕ) (flow : Flow V) (point : HPoint V)
    (hhint : flow.point.id = -1) (hpenalty : w.plug.cfg.rejectType = .penalty) :
    (nmRejected (lib.exact range vmax converged) (fuel + 4) w flow point).2.1.plug.Rest range vmax
      lib.perfCount := by
  unfold nmRejected
  dsimp only
  rw [if_neg (not_not.mpr hhint), hpenalty]
  have hcall := nmCall_rest lib (NmCall.rejected hpenalty) h
  obtain ⟨w', hrest, hrun⟩ := nmAlgorithm_rests lib converged hcall.sound hcall.ready
  dsimp only
  rw [hrun (fuel + 1)]
  dsimp only
  rw [if_neg (not_not.mpr rfl)]
  have hnew : (w'.plug.modifyNext fun v => { v with id := w'.plug.nextId }).Rest range vmax
      lib.perfCount :=
    hrest.modifyNext (fun _ => rfl) (fun _ _ => hrest.sound.nextId_nonneg) (fun _ hlen => hlen)
  obtain ⟨next, hnext, -⟩ := hnew.next_inBounds
  rw [hnext]
  exact hnew

omit [IsStrictOrderedRing R] in
lemma nmGenerate_rest {w : NmWorld R (Fin N → R) V (WithTop R) ρ}
    (h : w.plug.Rest range vmax lib.perfCount) (flow : Flow V) (point : HPoint V) :
    (nmGenerate (lib.exact range vmax converged) w flow point).2.1.plug.Rest range vmax
      lib.perfCount := by
  obtain ⟨next, hnext, hin⟩ := h.next_inBounds
  unfold nmGenerate
  simp only [hnext]
  by_cases hid : next.id = w.plug.nextId
  · rw [if_pos hid]
    exact h
  · rw [if_neg hid]
    have hsame : (w.plug.modifyNext fun _ => { next with id := w.plug.nextId }) =
        w.plug.modifyNext fun v => { v with id := w.plug.nextId } :=
      modifyNext_congr hnext rfl
    dsimp only
    rw [hsame]
    exact h.modifyNext (fun _ => rfl) (fun _ _ => h.sound.nextId_nonneg) (fun _ hlen => hlen)

lemma NmRun.rest {w : NmWorld R (Fin N → R) V (WithTop R) ρ} (h : NmRun lib range vmax w) :
    w.plug.Rest range vmax lib.perfCount := by
  induction h with
  | @start w w' converged hfresh hbest hworst hsize hstart hinit =>
    have honce := once_of_fresh (lib.exact range vmax converged) hfresh
    have hpos : 0 < lib.simplexSize w.cfg := Nat.zero_lt_of_lt hsize
    apply nmInit_rest lib converged hsize honce.1 ?_ ?_ ?_ hstart hinit
    · rw [hbest]
      exact hpos
    · rw [hworst]
      exact hpos
    · rw [honce.2]
      exact zero_le_one
  | @restart w w' converged hrun hstart hinit ih =>
    have honce := once_of_formed (lib.exact range vmax converged) ih.sound.toFormed
    apply nmInit_rest lib converged ih.sound.size_gt ?_ ih.sound.best_lt ih.sound.worst_lt ?_ hstart hinit
    · rw [honce]
    · rw [honce]
      exact ih.sound.nextId_nonneg
  | generate converged flow point hrun ih => exact nmGenerate_rest lib converged ih flow point
  | analyze converged fuel trial hrun hperf ih => exact nmAnalyze_rest lib converged ih fuel trial hperf
  | rejected converged fuel flow point hrun hhint hpenalty ih =>
    exact nmRejected_rest lib converged ih fuel flow point hhint hpenalty

/-- In every state of the search the simplex is within bounds, and stays so during a call of
`nm_algorithm`; the call ends after at most four rounds, with a vertex to test that is within bounds. -/
theorem nm_stays_in_bounds {w : NmWorld R (Fin N → R) V (WithTop R) ρ} (h : NmRun lib range vmax w) :
    (∀ v ∈ w.plug.base, InBounds range vmax v.term) ∧
      (∃ next, w.plug.nextVertex = some next ∧ InBounds range vmax next.term) ∧
      ∀ w', NmCall lib w w' → ∀ converged,
        (∀ fuel, ∀ v ∈ (nmAlgorithm (lib.exact range vmax converged) fuel w').2.plug.base,
          InBounds range vmax v.term) ∧
        ∃ w'' next, (∀ fuel, nmAlgorithm (lib.exact range vmax converged) (fuel + 4) w' = (0, w'')) ∧
          w''.plug.nextVertex = some next ∧ InBounds range vmax next.term := by
  have hrest := h.rest
  refine ⟨hrest.sound.base_inBounds, hrest.next_inBounds, ?_⟩
  intro w' hcall converged
  have hrest' := nmCall_rest lib hcall hrest
  refine ⟨nmAlgorithm_base lib converged hrest'.sound hrest'.ready, ?_⟩
  obtain ⟨w'', hend, hrun⟩ := nmAlgorithm_rests lib converged hrest'.sound hrest'.ready
  obtain ⟨next, hnext, hin⟩ := hend.next_inBounds
  exact ⟨w'', next, fun fuel => hrun (fuel + 1), hnext, hin⟩

end

lemma fourSteps_inBounds {x : ℚ} (hlo : 0 ≤ x) (hhi : x ≤ 4) :
    InBounds (fun _ : Fin 1 => HBounds.int 0 4 1) (fun _ => 4) (fun _ => x) := by
  refine inBounds_iff.mpr ⟨nofun, fun _ => ?_, fun _ => hhi⟩
  show ((0 : ℤ) : ℚ) ≤ x
  exact_mod_cast hlo

/-- The search in `fourSteps` after its initialization. -/
lemma fourSteps_run : NmRun fourSteps (fun _ => .int 0 4 1) (fun _ => 4)
    (nmInit (fourSteps.exact (fun _ => .int 0 4 1) (fun _ => 4) fun _ _ _ => false) fourStepsLoaded).2 := by
  have hsize : 1 < fourSteps.simplexSize fourStepsLoaded.cfg := by decide
  apply NmRun.start (w := fourStepsLoaded) (fun _ _ _ => false) rfl rfl rfl hsize
  · refine ⟨?_, rfl, ?_⟩
    · intro cfg hcfg
      rw [← Option.some.inj hcfg]
      constructor <;> decide +kernel
    · intro term hterm
      obtain rfl | hterm := List.mem_cons.mp hterm
      · exact fourSteps_inBounds le_rfl (by norm_num)
      · rw [List.mem_singleton.mp hterm]
        exact fourSteps_inBounds (by norm_num) le_rfl
  · exact Prod.ext (by decide +kernel) rfl

theorem nm_stays_in_bounds_four_steps :
    (nmInit (fourSteps.exact (fun _ => .int 0 4 1) (fun _ => 4) fun _ _ _ => false)
      fourStepsLoaded).2.plug.base.Forall fun v =>
        InBounds (fun _ : Fin 1 => HBounds.int 0 4 1) (fun _ => 4) v.term :=
  List.forall_iff_forall_mem.mpr (nm_stays_in_bounds fourSteps fourSteps_run).1

end ActiveHarmony

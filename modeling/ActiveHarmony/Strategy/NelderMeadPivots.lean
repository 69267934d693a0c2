import ActiveHarmony.Lib.ListModify
import ActiveHarmony.Lib.ArgMin
import ActiveHarmony.Strategy.Libvertex
import Mathlib.Algebra.Field.Rat
import Mathlib.Algebra.Order.Ring.Rat

/-!
# The pivots of the Nelder-Mead search

The indices of the best and of the worst vertex and the centroid are kept between calls, while the
vertices of the simplex are overwritten in several places. Each reflection, each contraction and each
start of a shrink uses the indices and the centroid of the simplex as it is then.
-/

namespace ActiveHarmony

open ArgMin

/-! ## The vertices of the centroid -/

lemma filter_modify_eq_eraseIdx {α : Type} {p : α → Bool} {f : α → α} :
    ∀ {l : List α} {i : ℕ}, i < l.length → (∀ x ∈ l, p x = true) → (∀ x, p (f x) = false) →
      (l.modify i f).filter p = l.eraseIdx i
  | x :: l, 0, _, hall, hf => by
    have hrest : l.filter p = l := List.filter_eq_self.mpr fun y hy => hall y (List.mem_cons_of_mem x hy)
    simp [hf, hrest]
  | x :: l, i + 1, hi, hall, hf => by
    have ih := filter_modify_eq_eraseIdx (p := p) (f := f) (l := l) (i := i) (by simpa using hi)
      (fun y hy => hall y (List.mem_cons_of_mem x hy)) hf
    simp [hall x List.mem_cons_self, ih]

/-! ## What holds at each step -/

section

variable {K T V W ρ : Type} [Neg K] [Add W] [Zero W] [LinearOrder W] [Top W]

/-- What holds in every state of the search. -/
structure Nm.Formed (perfCount : ℕ) (m : Nm K T V W ρ) : Prop where
  size_eq : m.base.length = m.simplexSize
  best_lt : m.indexBest < m.simplexSize
  worst_lt : m.indexWorst < m.simplexSize
  base_id : ∀ v ∈ m.base, 0 ≤ v.id
  base_perf : ∀ v ∈ m.base, v.perf.p.length = perfCount
  test_id : 0 ≤ m.test.id
  test_perf : m.test.perf.p.length = perfCount
  nextId_nonneg : 0 ≤ m.nextId

variable (lib : NmLib K T V W ρ)

/-- The indices and the centroid are those of the simplex as it is. -/
structure Nm.Current (m : Nm K T V W ρ) : Prop where
  best : LeastAt (fun v : Vertex T W => hperfUnify v.perf) m.base m.indexBest
  worst : GreatestAt (fun v : Vertex T W => hperfUnify v.perf) m.base m.indexWorst
  centroid : (m.centroid.term, m.centroid.perf) = lib.simplexCentroid (m.base.eraseIdx m.indexWorst)

/-- What holds when `nm_next_vertex` is called. -/
def Nm.Turned (m : Nm K T V W ρ) : Prop :=
  match m.state with
  | .init => 0 ≤ m.indexCurr
  | .reflect | .contract => m.Current lib
  | .shrink => 0 ≤ m.indexCurr ∨ m.indexCurr = -1 ∧ m.Current lib
  | _ => True

/-- What holds between two rounds. -/
def Nm.Settled (m : Nm K T V W ρ) : Prop :=
  match m.state with
  | .init | .shrink => 0 ≤ m.indexCurr
  | .reflect | .contract => m.Current lib ∧ m.next = .test
  | .expand => m.next = .test
  | .converged => True

/-! ## The parts of a round -/

variable {lib} {perfCount : ℕ} {m : Nm K T V W ρ}

omit [Neg K] [Add W] [Zero W] [LinearOrder W] [Top W] in
lemma Nm.Formed.getElem? (h : m.Formed perfCount) {i : ℕ} (hi : i < m.simplexSize) :
    ∃ v, m.base[i]? = some v ∧ v.perf.p.length = perfCount := by
  rw [← h.size_eq] at hi
  exact ⟨m.base[i], List.getElem?_eq_getElem hi, h.base_perf _ (List.getElem_mem hi)⟩

omit [Neg K] [Top W] in
/-- One round of the loop of `simplex_update_index`. -/
def compareVertex (m : Nm K T V W ρ) (i : ℕ) : Nm K T V W ρ :=
  match m.base[i]?, m.base[m.indexBest]?, m.base[m.indexWorst]? with
  | some v, some best, some worst =>
    let m := if hperfCmp v.perf best.perf < 0 then { m with indexBest := i } else m
    if hperfCmp v.perf worst.perf > 0 then { m with indexWorst := i } else m
  | _, _, _ => m

omit [Neg K] [Top W] in
lemma simplexUpdateIndex_eq : simplexUpdateIndex m =
    (List.range m.simplexSize).foldl compareVertex { m with indexBest := 0, indexWorst := 0 } := rfl

omit [Neg K] [Top W] in
/-- `simplex_update_index` finds the best and the worst vertex. -/
lemma simplexUpdateIndex_spec (h : m.Formed perfCount) : ∃ b w, b < m.simplexSize ∧
    w < m.simplexSize ∧ simplexUpdateIndex m = { m with indexBest := b, indexWorst := w } ∧
      LeastAt (fun v : Vertex T W => hperfUnify v.perf) m.base b ∧
      GreatestAt (fun v : Vertex T W => hperfUnify v.perf) m.base w := by
  have hpos : 0 < m.simplexSize := Nat.zero_lt_of_lt h.best_lt
  rw [simplexUpdateIndex_eq]
  -- the loop has compared the vertices before `k`
  have hloop : ∀ k ≤ m.simplexSize, ∃ b w, b < m.simplexSize ∧ w < m.simplexSize ∧
      (List.range k).foldl compareVertex { m with indexBest := 0, indexWorst := 0 } =
        { m with indexBest := b, indexWorst := w } ∧
      LeastBelow (fun v : Vertex T W => hperfUnify v.perf) m.base k b ∧
      GreatestBelow (fun v : Vertex T W => hperfUnify v.perf) m.base k w := by
    intro k hk
    induction k with
    | zero =>
      obtain ⟨v, hv, -⟩ := h.getElem? hpos
      have hnone : ∀ j < 0, ∀ P : Prop, P := fun j hj _ => absurd hj (Nat.not_lt_zero j)
      exact ⟨0, 0, hpos, hpos, rfl, ⟨v, hv, fun j hj _ _ => hnone j hj _⟩,
        ⟨v, hv, fun j hj _ _ => hnone j hj _⟩⟩
    | succ k ih =>
      obtain ⟨b, w, hb, hw, heq, hleast, hgreatest⟩ := ih (by omega)
      obtain ⟨v, hv, hvlen⟩ := h.getElem? (i := k) (by omega)
      obtain ⟨best, hbest, hblen⟩ := h.getElem? hb
      obtain ⟨worst, hworst, hwlen⟩ := h.getElem? hw
      rw [List.range_succ, List.foldl_append, heq, List.foldl_cons, List.foldl_nil]
      unfold compareVertex
      simp only [hv, hbest, hworst, gt_iff_lt,
        hperfCmp_neg (hvlen.trans hblen.symm), hperfCmp_pos (hvlen.trans hwlen.symm)]
      by_cases hlt : hperfUnify v.perf < hperfUnify best.perf
      · have hleast' := hleast.move hbest hv hlt.le
        rw [if_pos hlt]
        by_cases hgt : hperfUnify worst.perf < hperfUnify v.perf
        · rw [if_pos hgt]
          exact ⟨k, k, by omega, by omega, rfl, hleast', hgreatest.move hworst hv hgt.le⟩
        · rw [if_neg hgt]
          exact ⟨k, w, by omega, hw, rfl, hleast', hgreatest.keep hworst hv (not_lt.mp hgt)⟩
      · have hleast' := hleast.keep hbest hv (not_lt.mp hlt)
        rw [if_neg hlt]
        by_cases hgt : hperfUnify worst.perf < hperfUnify v.perf
        · rw [if_pos hgt]
          exact ⟨b, k, hb, by omega, rfl, hleast', hgreatest.move hworst hv hgt.le⟩
        · rw [if_neg hgt]
          exact ⟨b, w, hb, hw, rfl, hleast', hgreatest.keep hworst hv (not_lt.mp hgt)⟩
  obtain ⟨b, w, hb, hw, heq, hleast, hgreatest⟩ := hloop m.simplexSize le_rfl
  exact ⟨b, w, hb, hw, heq, hleast.leastAt h.size_eq.le, hgreatest.greatestAt h.size_eq.le⟩

omit [Neg K] [Add W] [Zero W] [LinearOrder W] [Top W] in
lemma Nm.Formed.indices (h : m.Formed perfCount) {b w : ℕ} (hb : b < m.simplexSize)
    (hw : w < m.simplexSize) (c : Vertex T W) (state : SimplexState) :
    ({ m with indexBest := b, indexWorst := w, centroid := c, state := state } :
      Nm K T V W ρ).Formed perfCount :=
  { h with best_lt := hb, worst_lt := hw }

variable (lib) in
omit [Neg K] [Top W] in
/-- `simplex_update_centroid` brings the indices and the centroid up to date. -/
lemma simplexUpdateCentroid_spec (h : m.Formed perfCount) : ∃ b w c, b < m.simplexSize ∧
    w < m.simplexSize ∧
      simplexUpdateCentroid lib m = { m with indexBest := b, indexWorst := w, centroid := c } ∧
      (simplexUpdateCentroid lib m).Current lib := by
  obtain ⟨b, w, hb, hw, heq, hleast, hgreatest⟩ := simplexUpdateIndex_spec h
  have hothers : (m.base.modify w fun v => { v with id := -1 }).filter (0 ≤ ·.id) = m.base.eraseIdx w := by
    apply filter_modify_eq_eraseIdx
    · rw [h.size_eq]
      exact hw
    · intro v hv
      exact decide_eq_true (h.base_id v hv)
    · intro v
      rfl
  unfold simplexUpdateCentroid
  rw [heq]
  dsimp only
  rw [hothers]
  exact ⟨b, w, _, hb, hw, rfl, ⟨hleast, hgreatest, rfl⟩⟩

omit [Neg K] [Add W] [Zero W] [LinearOrder W] [Top W] in
/-- The test vertex replaces the worst one. -/
lemma Nm.Formed.replaceWorst (h : m.Formed perfCount) : m.replaceWorst.Formed perfCount := by
  refine { h with size_eq := List.length_set.trans h.size_eq, base_id := ?_, base_perf := ?_ }
  · intro v hv
    obtain hv | rfl := List.mem_or_eq_of_mem_set hv
    · exact h.base_id v hv
    · exact h.test_id
  · intro v hv
    obtain hv | rfl := List.mem_or_eq_of_mem_set hv
    · exact h.base_perf v hv
    · exact h.test_perf

omit [Neg K] [Top W] in
/-- The simplex has changed or not, and the indices and the centroid are brought up to date. -/
lemma updated_turned (h : m.Formed perfCount) {state : SimplexState}
    (hstate : state = .reflect ∨ state = .contract) :
    ({ simplexUpdateCentroid lib m with state := state } : Nm K T V W ρ).Formed perfCount ∧
      ({ simplexUpdateCentroid lib m with state := state } : Nm K T V W ρ).Turned lib := by
  obtain ⟨b, w, c, hb, hw, heq, hcurrent⟩ := simplexUpdateCentroid_spec lib h
  rw [heq] at hcurrent ⊢
  refine ⟨h.indices hb hw c state, ?_⟩
  obtain rfl | rfl := hstate
  · exact ⟨hcurrent.best, hcurrent.worst, hcurrent.centroid⟩
  · exact ⟨hcurrent.best, hcurrent.worst, hcurrent.centroid⟩

omit [Neg K] [Top W] in
lemma nmStateTransition_turned (h : m.Formed perfCount) (hsettled : m.Settled lib)
    {m' : Nm K T V W ρ} (heq : nmStateTransition lib m = some m') :
    m'.Formed perfCount ∧ m'.Turned lib := by
  unfold Nm.Settled at hsettled
  unfold nmStateTransition at heq
  have hnext : m.state = .init ∨ m.state = .shrink → 0 ≤ m.indexCurr →
      (if m.indexCurr + 1 = m.simplexSize then
          some { simplexUpdateCentroid lib { m with indexCurr := m.indexCurr + 1 } with state := .reflect }
        else some { m with indexCurr := m.indexCurr + 1 }) = some m' →
      m'.Formed perfCount ∧ m'.Turned lib := by
    intro hkind hcurr heq
    have hformed : ({ m with indexCurr := m.indexCurr + 1 } : Nm K T V W ρ).Formed perfCount :=
      { h with }
    by_cases hlast : m.indexCurr + 1 = m.simplexSize
    · rw [if_pos hlast] at heq
      rw [← Option.some.inj heq]
      exact updated_turned hformed (Or.inl rfl)
    · rw [if_neg hlast] at heq
      rw [← Option.some.inj heq]
      refine ⟨hformed, ?_⟩
      unfold Nm.Turned
      obtain hinit | hshrink := hkind
      · simp only [hinit]
        omega
      · simp only [hshrink]
        omega
  cases hcase : m.state with
  | init =>
    rw [hcase] at hsettled heq
    have hspec := hnext (Or.inl hcase) hsettled
    rw [hcase] at hspec
    exact hspec heq
  | shrink =>
    rw [hcase] at hsettled heq
    have hspec := hnext (Or.inr hcase) hsettled
    rw [hcase] at hspec
    exact hspec heq
  | reflect =>
    rw [hcase] at hsettled heq
    obtain ⟨best, hbest, heq⟩ := Option.bind_eq_some_iff.mp heq
    obtain ⟨worst, hworst, heq⟩ := Option.bind_eq_some_iff.mp heq
    by_cases hbetter : hperfCmp m.test.perf best.perf < 0
    · rw [if_pos hbetter] at heq
      rw [← Option.some.inj heq]
      exact ⟨{ h.replaceWorst with }, trivial⟩
    · rw [if_neg hbetter] at heq
      by_cases hworse : hperfCmp m.test.perf worst.perf < 0
      · rw [if_pos hworse] at heq
        rw [← Option.some.inj heq]
        apply updated_turned h.replaceWorst
        split_ifs
        · exact Or.inr rfl
        · exact Or.inl rfl
      · rw [if_neg hworse] at heq
        rw [← Option.some.inj heq]
        exact updated_turned h (Or.inr rfl)
  | expand =>
    rw [hcase] at heq
    obtain ⟨best, hbest, heq⟩ := Option.bind_eq_some_iff.mp heq
    rw [← Option.some.inj heq]
    by_cases hbetter : hperfCmp m.test.perf best.perf < 0
    · simp only [if_pos hbetter]
      exact updated_turned h.replaceWorst (Or.inl rfl)
    · simp only [if_neg hbetter]
      exact updated_turned h (Or.inl rfl)
  | contract =>
    rw [hcase] at hsettled heq
    obtain ⟨worst, hworst, heq⟩ := Option.bind_eq_some_iff.mp heq
    by_cases hbetter : hperfCmp m.test.perf worst.perf < 0
    · rw [if_pos hbetter] at heq
      rw [← Option.some.inj heq]
      exact updated_turned h.replaceWorst (Or.inl rfl)
    · rw [if_neg hbetter] at heq
      rw [← Option.some.inj heq]
      obtain ⟨⟨hleast, hgreatest, hcentroid⟩, -⟩ := hsettled
      exact ⟨{ h with }, Or.inr ⟨rfl, hleast, hgreatest, hcentroid⟩⟩
  | converged =>
    rw [hcase] at heq
    exact absurd heq nofun

variable (lib) in
omit [Neg K] [Add W] [Zero W] [LinearOrder W] in
lemma transformWorst_eq (h : m.Formed perfCount) (c : K) : ∃ test : Vertex T W,
    m.transformWorst lib c = some { m with test := test, next := .test } ∧ 0 ≤ test.id ∧
      test.perf.p.length = perfCount := by
  obtain ⟨worst, hworst, -⟩ := h.getElem? h.worst_lt
  unfold Nm.transformWorst
  rw [hworst]
  exact ⟨_, rfl, h.test_id, (List.length_map _).trans h.test_perf⟩

variable (lib) in
omit [Neg K] [Add W] [Zero W] [LinearOrder W] in
/-- The simplex that is shrunken towards a vertex. -/
lemma shrunken_formed (h : m.Formed perfCount) (best : Vertex T W) :
    ({ m with
      base := m.base.mapIdx fun i v =>
        if i = m.indexBest then v
        else { v with term := lib.vertexTransform v.term best.term m.cfg.shrink }.resetPerf
      indexCurr := 0
      next := .base 0 } : Nm K T V W ρ).Formed perfCount := by
  refine { h with size_eq := ?_, base_id := ?_, base_perf := ?_ }
  · exact List.length_mapIdx.trans h.size_eq
  · intro v hv
    obtain ⟨i, hi, rfl⟩ := List.mem_mapIdx.mp hv
    split_ifs
    · exact h.base_id _ (List.getElem_mem hi)
    · exact h.base_id m.base[i] (List.getElem_mem hi)
  · intro v hv
    obtain ⟨i, hi, rfl⟩ := List.mem_mapIdx.mp hv
    split_ifs
    · exact h.base_perf _ (List.getElem_mem hi)
    · exact (List.length_map _).trans (h.base_perf m.base[i] (List.getElem_mem hi))

lemma nmNextVertex_settled (h : m.Formed perfCount) (hturned : m.Turned lib) :
    ∃ m', nmNextVertex lib m = some m' ∧ m'.Formed perfCount ∧ m'.Settled lib := by
  unfold Nm.Turned at hturned
  unfold nmNextVertex
  cases hcase : m.state with
  | init =>
    rw [hcase] at hturned
    exact ⟨_, rfl, { h with }, hturned⟩
  | reflect =>
    rw [hcase] at hturned
    obtain ⟨test, heq, hid, hperf⟩ := transformWorst_eq lib h (-m.cfg.reflect)
    refine ⟨_, heq, { h with test_id := hid, test_perf := hperf }, ?_⟩
    unfold Nm.Settled
    simp only [hcase]
    exact ⟨⟨hturned.best, hturned.worst, hturned.centroid⟩, trivial⟩
  | expand =>
    obtain ⟨test, heq, hid, hperf⟩ := transformWorst_eq lib h m.cfg.expand
    refine ⟨_, heq, { h with test_id := hid, test_perf := hperf }, ?_⟩
    unfold Nm.Settled
    simp only [hcase]
  | contract =>
    rw [hcase] at hturned
    obtain ⟨test, heq, hid, hperf⟩ := transformWorst_eq lib h m.cfg.contract
    refine ⟨_, heq, { h with test_id := hid, test_perf := hperf }, ?_⟩
    unfold Nm.Settled
    simp only [hcase]
    exact ⟨⟨hturned.best, hturned.worst, hturned.centroid⟩, trivial⟩
  | shrink =>
    rw [hcase] at hturned
    by_cases hbegin : m.indexCurr = -1
    · obtain ⟨best, hbest, -⟩ := h.getElem? h.best_lt
      simp only [if_pos hbegin, hbest, Option.bind_eq_bind, Option.bind_some]
      exact ⟨_, rfl, { shrunken_formed lib h best with }, le_rfl⟩
    · rw [if_neg hbegin]
      exact ⟨_, rfl, { h with }, hturned.resolve_right fun hstart => hbegin hstart.1⟩
  | converged => exact ⟨_, rfl, { h with }, trivial⟩

variable (lib)

/-- A round of `nm_algorithm` up to the call of `nm_next_vertex`. -/
def nmBefore (w : NmWorld K T V W ρ) : Option (NmWorld K T V W ρ) :=
  if w.plug.state = .converged then none
  else
    (nmStateTransition lib w.plug).map fun m =>
      let world := { w with plug := m }
      if m.state = .reflect then checkConvergence lib world else world

lemma nmAlgorithm_round (fuel : ℕ) (w : NmWorld K T V W ρ) :
    nmAlgorithm lib (fuel + 1) w =
      if w.plug.state = .converged then (0, w)
      else
        match nmBefore lib w with
        | none => (-1, w)
        | some w₁ =>
          match nmNextVertex lib w₁.plug with
          | none => (-1, w₁)
          | some m =>
            match m.nextVertex with
            | none => (-1, { w₁ with plug := m })
            | some next =>
              if lib.vertexOutofbounds next.term then nmAlgorithm lib fuel { w₁ with plug := m }
              else (0, { w₁ with plug := m }) := by
  rw [nmAlgorithm]
  unfold nmBefore
  by_cases hstate : w.plug.state = .converged
  · rw [if_pos hstate, if_pos hstate]
  · rw [if_neg hstate, if_neg hstate, if_neg hstate]
    cases nmStateTransition lib w.plug <;> rfl

/-- `nm_algorithm` from `w` calls `nm_next_vertex` in `w₁`. -/
inductive NmVisit : NmWorld K T V W ρ → NmWorld K T V W ρ → Prop
  | first {w w₁} (hbefore : nmBefore lib w = some w₁) : NmVisit w w₁
  | again {w w₁ m next w₂} (hbefore : nmBefore lib w = some w₁)
      (hnext : nmNextVertex lib w₁.plug = some m) (hvertex : m.nextVertex = some next)
      (hout : lib.vertexOutofbounds next.term = true) (hvisit : NmVisit { w₁ with plug := m } w₂) :
      NmVisit w w₂

variable {lib}

omit [Neg K] [Top W] in
lemma nmBefore_turned {w w₁ : NmWorld K T V W ρ} (h : w.plug.Formed perfCount)
    (hsettled : w.plug.Settled lib) (hbefore : nmBefore lib w = some w₁) :
    w₁.plug.Formed perfCount ∧ w₁.plug.Turned lib := by
  unfold nmBefore at hbefore
  by_cases hstate : w.plug.state = .converged
  · rw [if_pos hstate] at hbefore
    exact absurd hbefore nofun
  · rw [if_neg hstate] at hbefore
    obtain ⟨m, hm, rfl⟩ := Option.map_eq_some_iff.mp hbefore
    have hspec := nmStateTransition_turned h hsettled hm
    by_cases hcheck : m.state = .reflect
    · simp only [if_pos hcheck]
      unfold checkConvergence
      dsimp only
      by_cases hconv : lib.hasConverged m.cfg m.base m.centroid = true
      · rw [if_pos hconv, sessionSetcfg_plug]
        exact ⟨{ hspec.1 with }, trivial⟩
      · rw [if_neg hconv]
        exact hspec
    · simp only [if_neg hcheck]
      exact hspec

lemma NmVisit.turned {w w₁ : NmWorld K T V W ρ} (hvisit : NmVisit lib w w₁)
    (h : w.plug.Formed perfCount) (hsettled : w.plug.Settled lib) :
    w₁.plug.Formed perfCount ∧ w₁.plug.Turned lib := by
  induction hvisit with
  | first hbefore => exact nmBefore_turned h hsettled hbefore
  | again hbefore hnext hvertex hout hvisit ih =>
    obtain ⟨hformed, hturned⟩ := nmBefore_turned h hsettled hbefore
    obtain ⟨m', heq, hformed', hsettled'⟩ := nmNextVertex_settled hformed hturned
    rw [hnext] at heq
    rw [Option.some.inj heq] at ih
    exact ih hformed' hsettled'

lemma nmAlgorithm_settled {w : NmWorld K T V W ρ} (h : w.plug.Formed perfCount)
    (hsettled : w.plug.Settled lib) (fuel : ℕ) :
    (nmAlgorithm lib fuel w).2.plug.Formed perfCount ∧ (nmAlgorithm lib fuel w).2.plug.Settled lib := by
  induction fuel generalizing w with
  | zero => exact ⟨h, hsettled⟩
  | succ fuel ih =>
    rw [nmAlgorithm_round]
    by_cases hstate : w.plug.state = .converged
    · rw [if_pos hstate]
      exact ⟨h, hsettled⟩
    · rw [if_neg hstate]
      cases hbefore : nmBefore lib w with
      | none => exact ⟨h, hsettled⟩
      | some w₁ =>
        obtain ⟨hformed, hturned⟩ := nmBefore_turned h hsettled hbefore
        obtain ⟨m', heq, hformed', hsettled'⟩ := nmNextVertex_settled hformed hturned
        dsimp only
        rw [heq]
        dsimp only
        cases m'.nextVertex with
        | none => exact ⟨hformed', hsettled'⟩
        | some next =>
          dsimp only
          split_ifs
          · exact ih hformed' hsettled'
          · exact ⟨hformed', hsettled'⟩

/-! ## The calls of the plug-in -/

omit [Neg K] [Top W] in
/-- The data of the search that `Nm.Settled` is about. -/
lemma Nm.Settled.congr {m' : Nm K T V W ρ} (h : m.Settled lib) (hstate : m'.state = m.state)
    (hbase : m'.base = m.base) (hbest : m'.indexBest = m.indexBest) (hworst : m'.indexWorst = m.indexWorst)
    (hcentroid : m'.centroid = m.centroid) (hcurr : m'.indexCurr = m.indexCurr)
    (hnext : m'.next = m.next) : m'.Settled lib := by
  have hcurrent : m.Current lib → m'.Current lib := by
    intro ⟨hleast, hgreatest, hmean⟩
    rw [← hbase, ← hbest] at hleast
    rw [← hbase, ← hworst] at hgreatest
    rw [← hbase, ← hworst, ← hcentroid] at hmean
    exact ⟨hleast, hgreatest, hmean⟩
  unfold Nm.Settled at h ⊢
  rw [hstate, hcurr, hnext]
  split at h
  · exact h
  · exact h
  · exact ⟨hcurrent h.1, h.2⟩
  · exact ⟨hcurrent h.1, h.2⟩
  · exact h
  · trivial

omit [Neg K] [Add W] [Zero W] [LinearOrder W] [Top W] in
lemma modifyNext_formed (h : m.Formed perfCount) {f : Vertex T W → Vertex T W}
    (hid : ∀ v, 0 ≤ v.id → 0 ≤ (f v).id)
    (hperf : ∀ v, v.perf.p.length = perfCount → (f v).perf.p.length = perfCount) :
    (m.modifyNext f).Formed perfCount := by
  unfold Nm.modifyNext
  cases m.next with
  | base i =>
    refine { h with size_eq := (List.length_modify ..).trans h.size_eq, base_id := ?_, base_perf := ?_ }
    · exact ListModify.forall_mem h.base_id hid
    · exact ListModify.forall_mem h.base_perf hperf
  | test => exact { h with test_id := hid _ h.test_id, test_perf := hperf _ h.test_perf }

omit [Neg K] [Top W] in
/-- A change of the vertex to test: no index is in use while it is in the simplex. -/
lemma Nm.Settled.modifyNext (hsettled : m.Settled lib) (f : Vertex T W → Vertex T W) :
    (m.modifyNext f).Settled lib := by
  unfold Nm.modifyNext
  unfold Nm.Settled at hsettled
  cases hptr : m.next with
  | base i =>
    rw [hptr] at hsettled
    unfold Nm.Settled
    cases hstate : m.state with
    | reflect =>
      rw [hstate] at hsettled
      exact absurd hsettled.2 nofun
    | contract =>
      rw [hstate] at hsettled
      exact absurd hsettled.2 nofun
    | expand =>
      rw [hstate] at hsettled
      exact absurd hsettled nofun
    | init =>
      rw [hstate] at hsettled
      exact hsettled
    | shrink =>
      rw [hstate] at hsettled
      exact hsettled
    | converged => trivial
  | test =>
    unfold Nm.Settled
    cases hstate : m.state with
    | reflect =>
      rw [hstate] at hsettled
      exact ⟨⟨hsettled.1.best, hsettled.1.worst, hsettled.1.centroid⟩, rfl⟩
    | contract =>
      rw [hstate] at hsettled
      exact ⟨⟨hsettled.1.best, hsettled.1.worst, hsettled.1.centroid⟩, rfl⟩
    | expand => rfl
    | init =>
      rw [hstate] at hsettled
      exact hsettled
    | shrink =>
      rw [hstate] at hsettled
      exact hsettled
    | converged => trivial

omit [Neg K] [Add W] [Zero W] [LinearOrder W] [Top W] in
/-- Only the vertex to test is changed. -/
lemma modifyNext_congr {next : Vertex T W} (hnext : m.nextVertex = some next)
    {f g : Vertex T W → Vertex T W} (h : f next = g next) : m.modifyNext f = m.modifyNext g := by
  unfold Nm.nextVertex at hnext
  unfold Nm.modifyNext
  cases hptr : m.next with
  | base i =>
    simp only [hptr] at hnext
    have hbase : m.base.modify i f = m.base.modify i g := by
      apply List.ext_getElem?
      intro j
      rw [List.getElem?_modify, List.getElem?_modify]
      by_cases heq : i = j
      · subst heq
        rw [hnext]
        simp [h]
      · simp [heq]
    dsimp only
    rw [hbase]
  | test =>
    rw [hptr] at hnext
    dsimp only
    rw [Option.some.inj hnext, h]

variable (lib)

/-- The calls of `nm_algorithm` in the state `w`, with the state they get. -/
inductive NmCall (w : NmWorld K T V W ρ) : NmWorld K T V W ρ → Prop
  | analyze {next} (trial : HTrial V W) (hperf : trial.perf.p.length = lib.perfCount)
      (hnext : w.plug.nextVertex = some next) (hid : trial.point.id = next.id) :
      NmCall w { w with plug := w.plug.modifyNext fun v => { v with perf := trial.perf } }
  | rejected (hpenalty : w.plug.cfg.rejectType = .penalty) :
      NmCall w { w with plug := w.plug.modifyNext Vertex.resetPerf }

/-- The states of the search between two calls. -/
inductive NmReach : NmWorld K T V W ρ → Prop
  | start {w w'} (hfresh : w.plug.base = []) (hbest : w.plug.indexBest = 0)
      (hworst : w.plug.indexWorst = 0) (hsize : 0 < lib.simplexSize w.cfg)
      (hlen : (lib.initial w.plug.rand w.cfg (lib.simplexSize w.cfg)).1.length = lib.simplexSize w.cfg)
      (hinit : nmInit lib w = (0, w')) : NmReach w'
  | restart {w w'} (hreach : NmReach w)
      (hlen : (lib.initial w.plug.rand w.cfg w.plug.simplexSize).1.length = w.plug.simplexSize)
      (hinit : nmInit lib w = (0, w')) : NmReach w'
  | generate {w} (flow point) (hreach : NmReach w) : NmReach (nmGenerate lib w flow point).2.1
  | rejected {w} (fuel flow point) (hreach : NmReach w) :
      NmReach (nmRejected lib fuel w flow point).2.1
  | analyze {w} (fuel) (trial : HTrial V W) (hreach : NmReach w)
      (hperf : trial.perf.p.length = lib.perfCount) : NmReach (nmAnalyze lib fuel w trial).2

variable {lib}

omit [Neg K] in
lemma nmCall_settled {w w' : NmWorld K T V W ρ} (hcall : NmCall lib w w')
    (h : w.plug.Formed lib.perfCount) (hsettled : w.plug.Settled lib) :
    w'.plug.Formed lib.perfCount ∧ w'.plug.Settled lib := by
  cases hcall with
  | analyze trial hperf hnext hid =>
    exact ⟨modifyNext_formed h (fun _ hid => hid) (fun _ _ => hperf), hsettled.modifyNext _⟩
  | rejected hpenalty =>
    exact ⟨modifyNext_formed h (fun _ hid => hid) (fun _ hlen => (List.length_map _).trans hlen),
      hsettled.modifyNext _⟩

omit [Neg K] [Top W] in
lemma nmGenerate_settled {w : NmWorld K T V W ρ} (h : w.plug.Formed perfCount)
    (hsettled : w.plug.Settled lib) (flow : Flow V) (point : HPoint V) :
    (nmGenerate lib w flow point).2.1.plug.Formed perfCount ∧
      (nmGenerate lib w flow point).2.1.plug.Settled lib := by
  unfold nmGenerate
  dsimp only
  cases hnext : w.plug.nextVertex with
  | none => exact ⟨h, hsettled⟩
  | some next =>
    dsimp only
    split_ifs
    · exact ⟨h, hsettled⟩
    · rw [modifyNext_congr hnext (g := fun v => { v with id := w.plug.nextId }) rfl]
      exact ⟨modifyNext_formed h (fun _ _ => h.nextId_nonneg) (fun _ hlen => hlen),
        hsettled.modifyNext _⟩

lemma nmRejected_settled {w : NmWorld K T V W ρ} (h : w.plug.Formed perfCount)
    (hsettled : w.plug.Settled lib) (fuel : ℕ) (flow : Flow V) (point : HPoint V) :
    (nmRejected lib fuel w flow point).2.1.plug.Formed perfCount ∧
      (nmRejected lib fuel w flow point).2.1.plug.Settled lib := by
  unfold nmRejected
  dsimp only
  by_cases hhint : flow.point.id ≠ -1
  · rw [if_pos hhint]
    exact ⟨modifyNext_formed h (fun _ hid => hid) (fun _ hlen => hlen), hsettled.modifyNext _⟩
  · rw [if_neg hhint]
    cases w.plug.cfg.rejectType with
    | penalty =>
      have hformed := modifyNext_formed h (f := Vertex.resetPerf) (fun _ hid => hid)
        (fun _ hlen => (List.length_map _).trans hlen)
      have hspec := nmAlgorithm_settled (w := { w with plug := w.plug.modifyNext Vertex.resetPerf })
        hformed (hsettled.modifyNext _) fuel
      generalize nmAlgorithm lib fuel { w with plug := w.plug.modifyNext Vertex.resetPerf } = res at hspec
      obtain ⟨ret, w'⟩ := res
      obtain ⟨hformed', hset'⟩ := hspec
      dsimp only at hformed' hset' ⊢
      have hnew := modifyNext_formed hformed' (f := fun v => { v with id := w'.plug.nextId })
        (fun _ _ => hformed'.nextId_nonneg) (fun _ hlen => hlen)
      by_cases hret : ret ≠ 0
      · rw [if_pos hret]
        exact ⟨hformed', hset'⟩
      · rw [if_neg hret]
        cases (w'.plug.modifyNext fun v => { v with id := w'.plug.nextId }).nextVertex with
        | none => exact ⟨hformed', hset'⟩
        | some next => exact ⟨hnew, hset'.modifyNext _⟩
    | random =>
      have hset : ({ w.plug with rand := (lib.vertexRand w.plug.rand).2 } : Nm K T V W ρ).Settled lib :=
        hsettled.congr rfl rfl rfl rfl rfl rfl rfl
      have hformed : ({ w.plug with rand := (lib.vertexRand w.plug.rand).2 } :
        Nm K T V W ρ).Formed perfCount := { h with }
      have hnew := modifyNext_formed hformed
        (f := fun v => { v with term := (lib.vertexRand w.plug.rand).1 }.resetPerf)
        (fun _ hid => hid) (fun _ hlen => (List.length_map _).trans hlen)
      dsimp only
      split
      · exact ⟨h, hsettled⟩
      · exact ⟨hnew, hset.modifyNext _⟩

lemma nmAnalyze_settled {w : NmWorld K T V W ρ} (h : w.plug.Formed lib.perfCount)
    (hsettled : w.plug.Settled lib) (fuel : ℕ) (trial : HTrial V W)
    (hperf : trial.perf.p.length = lib.perfCount) :
    (nmAnalyze lib fuel w trial).2.plug.Formed lib.perfCount ∧
      (nmAnalyze lib fuel w trial).2.plug.Settled lib := by
  unfold nmAnalyze
  dsimp only
  cases hnext : w.plug.nextVertex with
  | none => exact ⟨h, hsettled⟩
  | some next =>
    dsimp only
    by_cases hid : trial.point.id ≠ next.id
    · rw [if_pos hid]
      exact ⟨h, hsettled⟩
    · rw [if_neg hid]
      obtain ⟨hformed, hset⟩ := nmCall_settled (NmCall.analyze trial hperf hnext (not_not.mp hid)) h hsettled
      have hspec := nmAlgorithm_settled hformed hset fuel
      generalize nmAlgorithm lib fuel _ = res at hspec ⊢
      obtain ⟨ret, w'⟩ := res
      obtain ⟨hformed', hset'⟩ := hspec
      dsimp only at hformed' hset' ⊢
      have hid' : (0 : ℤ) ≤ w'.plug.nextId + 1 := by
        have hid := hformed'.nextId_nonneg
        omega
      have hcases : ∀ best bestPerf nextId, 0 ≤ nextId →
          ({ w'.plug with best := best, bestPerf := bestPerf, nextId := nextId } :
            Nm K T V W ρ).Formed lib.perfCount ∧
          ({ w'.plug with best := best, bestPerf := bestPerf, nextId := nextId } :
            Nm K T V W ρ).Settled lib := by
        intro best bestPerf nextId hnonneg
        exact ⟨{ hformed' with nextId_nonneg := hnonneg }, hset'.congr rfl rfl rfl rfl rfl rfl rfl⟩
      split_ifs
      · exact ⟨hformed', hset'⟩
      · exact hcases _ _ _ hid'
      · exact hcases _ _ _ hformed'.nextId_nonneg
      · exact hcases _ _ _ hid'
      · exact ⟨hformed', hset'⟩

/-- The state after the one time initialization of `strategy_init`. -/
def Nm.once (lib : NmLib K T V W ρ) (w : NmWorld K T V W ρ) : Nm K T V W ρ :=
  if w.plug.base = [] then
    { w.plug with
      simplexSize := lib.simplexSize w.cfg
      best := hpointInitializer V
      bestPerf := ⊤
      nextId := 1 }
  else w.plug

omit [Add W] [Zero W] [LinearOrder W] in
/-- The state after a successful `strategy_init`. -/
lemma nmInit_spec {w w' : NmWorld K T V W ρ} (hinit : nmInit lib w = (0, w')) :
    ∃ cfg, lib.strategyCfg w.cfg = some cfg ∧ w'.plug =
      { Nm.once lib w with
        cfg := cfg
        state := .init
        centroid := (Nm.once lib w).centroid.reset lib
        test := (Nm.once lib w).test.reset lib
        base := (lib.initial (Nm.once lib w).rand w.cfg (Nm.once lib w).simplexSize).1.map fun term =>
          { id := 0, perf := { p := List.replicate lib.perfCount ⊤ }, term := term }
        next := .base 0
        indexCurr := 0
        rand := (lib.initial (Nm.once lib w).rand w.cfg (Nm.once lib w).simplexSize).2 } := by
  unfold nmInit at hinit
  dsimp only at hinit
  generalize hm₀ : (if w.plug.base = [] then _ else w.plug) = m₀ at hinit
  rw [show Nm.once lib w = m₀ from hm₀]
  cases hcfg : lib.strategyCfg w.cfg with
  | none =>
    rw [hcfg] at hinit
    have hret : (-1 : ℤ) = 0 := congrArg Prod.fst hinit
    exact absurd hret (by decide)
  | some cfg =>
    simp only [hcfg] at hinit
    generalize hset : @sessionSetcfg (Nm K T V W ρ) _ cfgkeyStrategyConverged (cstr "0") = res at hinit
    have hplug := congrArg (fun res => res.2.plug) hset
    rw [sessionSetcfg_plug] at hplug
    obtain ⟨ret, w₁⟩ := res
    dsimp only at hplug hinit
    by_cases hret : ret ≠ 0
    · rw [if_pos hret] at hinit
      have hret : (-1 : ℤ) = 0 := congrArg Prod.fst hinit
      exact absurd hret (by decide)
    · rw [if_neg hret, ← hplug] at hinit
      have hw' := (Prod.mk.inj hinit).2
      subst hw'
      exact ⟨cfg, rfl, rfl⟩

variable (lib) in
omit [Neg K] [Add W] [Zero W] [LinearOrder W] in
lemma once_of_fresh {w : NmWorld K T V W ρ} (hfresh : w.plug.base = []) :
    (Nm.once lib w).simplexSize = lib.simplexSize w.cfg ∧ (Nm.once lib w).nextId = 1 := by
  unfold Nm.once
  rw [if_pos hfresh]
  exact ⟨rfl, rfl⟩

variable (lib) in
omit [Neg K] [Add W] [Zero W] [LinearOrder W] in
lemma once_of_formed {w : NmWorld K T V W ρ} (h : w.plug.Formed perfCount) :
    Nm.once lib w = w.plug := by
  have hpos : 0 < w.plug.base.length := h.size_eq.symm ▸ Nat.zero_lt_of_lt h.best_lt
  unfold Nm.once
  rw [if_neg (List.length_pos_iff.mp hpos)]

omit [Neg K] [Add W] [Zero W] [LinearOrder W] in
lemma once_rand (w : NmWorld K T V W ρ) : (Nm.once lib w).rand = w.plug.rand := by
  unfold Nm.once
  split_ifs
  · rfl
  · rfl

lemma nmInit_settled {w w' : NmWorld K T V W ρ}
    (hbest : w.plug.indexBest < (Nm.once lib w).simplexSize)
    (hworst : w.plug.indexWorst < (Nm.once lib w).simplexSize) (hid : 0 ≤ (Nm.once lib w).nextId)
    (hlen : (lib.initial w.plug.rand w.cfg (Nm.once lib w).simplexSize).1.length =
      (Nm.once lib w).simplexSize)
    (hinit : nmInit lib w = (0, w')) :
    w'.plug.Formed lib.perfCount ∧ w'.plug.Settled lib := by
  obtain ⟨cfg, -, heq⟩ := nmInit_spec hinit
  have hsame : (Nm.once lib w).indexBest = w.plug.indexBest ∧
      (Nm.once lib w).indexWorst = w.plug.indexWorst := by
    unfold Nm.once
    split_ifs
    · exact ⟨rfl, rfl⟩
    · exact ⟨rfl, rfl⟩
  obtain ⟨hsame_best, hsame_worst⟩ := hsame
  rw [heq]
  constructor
  · refine ⟨?_, hsame_best.trans_lt hbest, hsame_worst.trans_lt hworst, ?_, ?_, le_rfl,
      List.length_replicate, hid⟩
    · dsimp only
      rw [List.length_map, once_rand]
      exact hlen
    · intro v hv
      obtain ⟨term, -, rfl⟩ := List.mem_map.mp hv
      exact le_rfl
    · intro v hv
      obtain ⟨term, -, rfl⟩ := List.mem_map.mp hv
      exact List.length_replicate
  · exact le_rfl (a := (0 : ℤ))

lemma NmReach.settled {w : NmWorld K T V W ρ} (h : NmReach lib w) :
    w.plug.Formed lib.perfCount ∧ w.plug.Settled lib := by
  induction h with
  | @start w w' hfresh hbest hworst hsize hlen hinit =>
    have honce := once_of_fresh lib hfresh
    apply nmInit_settled ?_ ?_ ?_ ?_ hinit
    · rw [honce.1, hbest]
      exact hsize
    · rw [honce.1, hworst]
      exact hsize
    · rw [honce.2]
      exact zero_le_one
    · rw [honce.1]
      exact hlen
  | @restart w w' hreach hlen hinit ih =>
    obtain ⟨hformed, -⟩ := ih
    have honce := once_of_formed lib hformed
    apply nmInit_settled ?_ ?_ ?_ ?_ hinit
    · rw [honce]
      exact hformed.best_lt
    · rw [honce]
      exact hformed.worst_lt
    · rw [honce]
      exact hformed.nextId_nonneg
    · rw [honce]
      exact hlen
  | generate flow point hreach ih => exact nmGenerate_settled ih.1 ih.2 flow point
  | rejected fuel flow point hreach ih => exact nmRejected_settled ih.1 ih.2 fuel flow point
  | analyze fuel trial hreach hperf ih => exact nmAnalyze_settled ih.1 ih.2 fuel trial hperf

end

/-! ## The pivots with exact arithmetic -/

section

variable {N : ℕ} {K R V W ρ : Type} [Field R]

/-- `simplex_centroid` with exact arithmetic. -/
def NmLib.withMean (lib : NmLib K (Fin N → R) V W ρ) : NmLib K (Fin N → R) V W ρ :=
  { lib with simplexCentroid := fun vs => (centroidTerm vs, (lib.simplexCentroid vs).2) }

variable [Neg K] [Add W] [Zero W] [LinearOrder W] [Top W]

/-- Whenever `nm_next_vertex` computes a reflection, a contraction or the start of a shrink, the indices
are those of the best and of the worst vertex, and the centroid of a reflection or a contraction is the
mean of the others. -/
theorem nm_pivots_current {lib : NmLib K (Fin N → R) V W ρ} {w w' w₁ : NmWorld K (Fin N → R) V W ρ}
    (h : NmReach lib.withMean w) (hcall : NmCall lib.withMean w w') (hvisit : NmVisit lib.withMean w' w₁)
    (hstate : w₁.plug.state = .reflect ∨ w₁.plug.state = .contract ∨
      w₁.plug.state = .shrink ∧ w₁.plug.indexCurr = -1) :
    LeastAt (fun v => hperfUnify v.perf) w₁.plug.base w₁.plug.indexBest ∧
      GreatestAt (fun v => hperfUnify v.perf) w₁.plug.base w₁.plug.indexWorst ∧
      (w₁.plug.state ≠ .shrink →
        w₁.plug.centroid.term = centroidTerm (w₁.plug.base.eraseIdx w₁.plug.indexWorst)) := by
  obtain ⟨hformed, hsettled⟩ := h.settled
  obtain ⟨hformed', hsettled'⟩ := nmCall_settled hcall hformed hsettled
  obtain ⟨-, hturned⟩ := hvisit.turned hformed' hsettled'
  have hcurrent : w₁.plug.Current lib.withMean := by
    unfold Nm.Turned at hturned
    obtain hstate | hstate | ⟨hstate, hstart⟩ := hstate
    · rw [hstate] at hturned
      exact hturned
    · rw [hstate] at hturned
      exact hturned
    · rw [hstate] at hturned
      obtain hcurr | ⟨-, hcurrent⟩ := hturned
      · omega
      · exact hcurrent
  exact ⟨hcurrent.best, hcurrent.worst, fun _ => congrArg Prod.fst hcurrent.centroid⟩

end

/-- The coefficients of a configuration without keys. -/
def fourStepsCfg : NmCfg ℚ where
  rejectType := .penalty
  reflect := 1
  expand := 2
  contract := 1 / 2
  shrink := 1 / 2
  fvalTol := 1 / 10000
  sizeTol := 1 / 50

/-- One variable from 0 to 4, and the initial simplex of its bounds. -/
def fourSteps : NmLib ℚ (Fin 1 → ℚ) ℚ (WithTop ℚ) Unit where
  strategyCfg := fun _ => some fourStepsCfg
  simplexSize := fun _ => 2
  perfCount := 1
  initial := fun _ _ _ => ([fun _ => 0, fun _ => 4], ())
  vertexRand := fun _ => (fun _ => 2, ())
  vertexToHpoint := fun term => [.real (term 0)]
  vertexFromHpoint := fun vals => match vals with
    | .real r :: _ => fun _ => r
    | _ => fun _ => 0
  vertexTransform := fun src wrt c i => c * src i + (1 - c) * wrt i
  vertexOutofbounds := fun _ => false
  simplexCentroid := fun vs => (centroidTerm vs, { p := [⊤] })
  hasConverged := fun _ _ _ => false

/-- The state of `nm.c` when it is loaded. -/
def fourStepsNm : Nm ℚ (Fin 1 → ℚ) ℚ (WithTop ℚ) Unit where
  best := hpointInitializer ℚ
  bestPerf := ⊤
  cfg := fourStepsCfg
  simplexSize := 0
  state := .init
  centroid := { id := 0, perf := { p := [⊤] }, term := fun _ => 0 }
  test := { id := 0, perf := { p := [⊤] }, term := fun _ => 0 }
  base := []
  next := .test
  indexBest := 0
  indexWorst := 0
  indexCurr := 0
  nextId := 0
  rand := ()

/-- The session of `fourSteps` when the plug-in is loaded. -/
def fourStepsLoaded : NmWorld ℚ (Fin 1 → ℚ) ℚ (WithTop ℚ) Unit :=
  { plug := fourStepsNm, cfg := hcfgAlloc, errmsg := none }

/-- The search after the result of its first point, when it has sent the second one. -/
def fourStepsSecond : NmWorld ℚ (Fin 1 → ℚ) ℚ (WithTop ℚ) Unit :=
  let flow := { status := .accept, point := hpointInitializer ℚ }
  let point := hpointInitializer ℚ
  let world := (nmInit fourSteps.withMean fourStepsLoaded).2
  let world := (nmGenerate fourSteps.withMean world flow point).2.1
  let world := (nmAnalyze fourSteps.withMean 4 world
    { point := { id := 1, val := [.real 0] }, perf := { p := [1] } }).2
  (nmGenerate fourSteps.withMean world flow point).2.1

lemma fourStepsSecond_reach : NmReach fourSteps.withMean fourStepsSecond := by
  apply NmReach.generate
  apply NmReach.analyze _ _ _ rfl
  apply NmReach.generate
  exact NmReach.start (w := fourStepsLoaded) rfl rfl rfl (by decide) rfl
    (Prod.ext (by decide +kernel) rfl)

/-- The search when it gets the result of the second point. -/
def fourStepsMeasured : NmWorld ℚ (Fin 1 → ℚ) ℚ (WithTop ℚ) Unit :=
  { fourStepsSecond with plug := fourStepsSecond.plug.modifyNext fun v => { v with perf := { p := [⊤] } } }

theorem nm_pivots_current_reflect : ∃ w₁, NmVisit fourSteps.withMean fourStepsMeasured w₁ ∧
    w₁.plug.indexWorst = 1 ∧ LeastAt (fun v => hperfUnify v.perf) w₁.plug.base w₁.plug.indexBest := by
  have hnext : (fourStepsSecond.plug.nextVertex.map Vertex.id) = some 2 := by decide +kernel
  obtain ⟨next, hnext, hid⟩ := Option.map_eq_some_iff.mp hnext
  have hcall : NmCall fourSteps.withMean fourStepsSecond fourStepsMeasured :=
    NmCall.analyze { point := { id := 2, val := [] }, perf := { p := [⊤] } } rfl hnext hid.symm
  have hround : (nmBefore fourSteps.withMean fourStepsMeasured).map
      (fun w => (w.plug.state, w.plug.indexWorst)) = some (.reflect, 1) := by decide +kernel
  obtain ⟨w₁, hbefore, hview⟩ := Option.map_eq_some_iff.mp hround
  obtain ⟨hstate, hworst⟩ := Prod.mk.inj hview
  exact ⟨w₁, NmVisit.first hbefore, hworst,
    (nm_pivots_current fourStepsSecond_reach hcall (NmVisit.first hbefore) (Or.inl hstate)).1⟩

end ActiveHarmony

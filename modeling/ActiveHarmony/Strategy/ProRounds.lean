import ActiveHarmony.Lib.ListModify
import ActiveHarmony.Strategy.Libvertex
import ActiveHarmony.Strategy.Pro
import Mathlib.Algebra.Field.Rat
import Mathlib.Algebra.Order.Ring.Rat

/-!
# The rounds of the Parallel Rank Order search

What `pro_next_state` and `pro_next_simplex` can do, and the rounds of the loop of `pro_algorithm`: a
round that is not the first one gets a simplex that was not tested.
-/

namespace ActiveHarmony

section

variable {K T V W ρ : Type} [Neg K] [Add W] [Zero W] [LinearOrder W] [Top W]

/-- What holds in every state of the search. -/
structure Pro.Formed (perfCount : ℕ) (m : Pro K T V W ρ) : Prop where
  base_length : m.base.length = m.simplexSize
  test_length : m.test.length = m.simplexSize
  base_perf : ∀ v ∈ m.base, v.perf.p.length = perfCount
  test_perf : ∀ v ∈ m.test, v.perf.p.length = perfCount
  bestBase_lt : m.bestBase < m.simplexSize
  bestTest_lt : m.bestTest < m.simplexSize
  bestStash_lt : m.bestStash < m.simplexSize

/-- The vertex `i` of `test` is better than the best of `base`. -/
def Pro.Better (m : Pro K T V W ρ) (i : ℕ) : Prop := m.improves i = some true

/-- What `pro_next_state` does. -/
inductive ProMove (m : Pro K T V W ρ) : Pro K T V W ρ → Prop
  | accept (hstate : m.state = .init ∨ m.state = .shrink) :
      ProMove m { m with base := m.test, bestBase := m.bestTest, state := .reflect }
  | expandOne (hstate : m.state = .reflect) (hbetter : m.Better m.bestTest) :
      ProMove m { m with base := m.test, bestStash := m.bestTest, state := .expandOne }
  | shrink (hstate : m.state = .reflect) (hworse : ¬m.Better m.bestTest) :
      ProMove m { m with state := .shrink }
  | expandAll (hstate : m.state = .expandOne) (hbetter : m.Better 0) :
      ProMove m { m with state := .expandAll }
  | revert (hstate : m.state = .expandOne) (hworse : ¬m.Better 0) :
      ProMove m { m with bestBase := m.bestStash, state := .reflect }
  | expanded (hstate : m.state = .expandAll) (hbetter : m.Better m.bestTest) :
      ProMove m { m with base := m.test, bestBase := m.bestTest, state := .reflect }
  | stay (hstate : m.state = .expandAll) (hworse : ¬m.Better m.bestTest) :
      ProMove m { m with state := .reflect }

variable {lib : ProLib K T V W ρ} {perfCount : ℕ} {m m' : Pro K T V W ρ}

omit [Neg K] [Add W] [Zero W] [LinearOrder W] [Top W] in
lemma Pro.Formed.test_getElem? (h : m.Formed perfCount) {i : ℕ} (hi : i < m.simplexSize) :
    ∃ v, m.test[i]? = some v ∧ v.perf.p.length = perfCount := by
  rw [← h.test_length] at hi
  exact ⟨m.test[i], List.getElem?_eq_getElem hi, h.test_perf _ (List.getElem_mem hi)⟩

omit [Neg K] [Add W] [Zero W] [LinearOrder W] [Top W] in
lemma Pro.Formed.base_getElem? (h : m.Formed perfCount) {i : ℕ} (hi : i < m.simplexSize) :
    ∃ v, m.base[i]? = some v ∧ v.perf.p.length = perfCount := by
  rw [← h.base_length] at hi
  exact ⟨m.base[i], List.getElem?_eq_getElem hi, h.base_perf _ (List.getElem_mem hi)⟩

omit [Neg K] [Top W] in
lemma Pro.Formed.better_iff (h : m.Formed perfCount) {i : ℕ} (hi : i < m.simplexSize) :
    ∃ v best, m.test[i]? = some v ∧ m.base[m.bestBase]? = some best ∧
      (m.Better i ↔ hperfUnify v.perf < hperfUnify best.perf) ∧ (m.improves i).isSome := by
  obtain ⟨v, hv, hvlen⟩ := h.test_getElem? hi
  obtain ⟨best, hbest, hblen⟩ := h.base_getElem? h.bestBase_lt
  have heq : m.improves i = some (decide (hperfCmp v.perf best.perf < 0)) := by
    unfold Pro.improves
    rw [hv, hbest]
    rfl
  refine ⟨v, best, hv, hbest, ?_, ?_⟩
  · unfold Pro.Better
    rw [heq, Option.some.injEq, decide_eq_true_iff, hperfCmp_neg (hvlen.trans hblen.symm)]
  · rw [heq]
    rfl

omit [Neg K] [Top W] in
lemma proNextState_move (h : m.Formed perfCount) (hstate : m.state ≠ .converged) :
    ∃ m', proNextState m = some m' ∧ ProMove m m' := by
  obtain ⟨better, hbetter⟩ : ∃ better, m.improves m.bestTest = some better := by
    obtain ⟨-, -, -, -, -, hsome⟩ := h.better_iff h.bestTest_lt
    exact Option.isSome_iff_exists.mp hsome
  obtain ⟨better₀, hbetter₀⟩ : ∃ better, m.improves 0 = some better := by
    obtain ⟨-, -, -, -, -, hsome⟩ := h.better_iff (Nat.zero_lt_of_lt h.bestTest_lt)
    exact Option.isSome_iff_exists.mp hsome
  unfold proNextState
  cases hcase : m.state with
  | init => exact ⟨_, rfl, .accept (Or.inl hcase)⟩
  | shrink => exact ⟨_, rfl, .accept (Or.inr hcase)⟩
  | reflect =>
    rw [hbetter]
    cases better with
    | true => exact ⟨_, rfl, .expandOne hcase hbetter⟩
    | false =>
      have hworse : ¬m.Better m.bestTest := fun htrue => by
        rw [Pro.Better, hbetter] at htrue
        exact absurd htrue (by decide)
      exact ⟨_, rfl, .shrink hcase hworse⟩
  | expandOne =>
    rw [hbetter₀]
    cases better₀ with
    | true => exact ⟨_, rfl, .expandAll hcase hbetter₀⟩
    | false =>
      have hworse : ¬m.Better 0 := fun htrue => by
        rw [Pro.Better, hbetter₀] at htrue
        exact absurd htrue (by decide)
      exact ⟨_, rfl, .revert hcase hworse⟩
  | expandAll =>
    rw [hbetter]
    cases better with
    | true => exact ⟨_, rfl, .expanded hcase hbetter⟩
    | false =>
      have hworse : ¬m.Better m.bestTest := fun htrue => by
        rw [Pro.Better, hbetter] at htrue
        exact absurd htrue (by decide)
      exact ⟨_, rfl, .stay hcase hworse⟩
  | converged => exact absurd hcase hstate

omit [Neg K] [Top W] in
lemma ProMove.formed (hmove : ProMove m m') (h : m.Formed perfCount) : m'.Formed perfCount := by
  cases hmove with
  | accept hstate =>
    exact { h with base_length := h.test_length, base_perf := h.test_perf, bestBase_lt := h.bestTest_lt }
  | expandOne hstate hbetter =>
    exact { h with base_length := h.test_length, base_perf := h.test_perf, bestStash_lt := h.bestTest_lt }
  | shrink hstate hworse => exact { h with }
  | expandAll hstate hbetter => exact { h with }
  | revert hstate hworse => exact { h with bestBase_lt := h.bestStash_lt }
  | expanded hstate hbetter =>
    exact { h with base_length := h.test_length, base_perf := h.test_perf, bestBase_lt := h.bestTest_lt }
  | stay hstate hworse => exact { h with }

/-! ## The simplex of a state -/

/-- The coefficient of the simplex that a state builds around the best vertex of `base`. -/
def Pro.coefficient (m : Pro K T V W ρ) : Option K :=
  match m.state with
  | .reflect => some (-m.cfg.reflect)
  | .expandAll => some m.cfg.expand
  | .shrink => some m.cfg.shrink
  | _ => none

/-- A simplex around the best vertex of `base`: all but a copy of it have not been tested. -/
def Pro.Around (lib : ProLib K T V W ρ) (m : Pro K T V W ρ) (c : K) (test : List (Vertex T W)) : Prop :=
  ∃ best, m.base[m.bestBase]? = some best ∧ ∀ v ∈ test, v = best ∨
    v.Untested ∧ ∃ u ∈ m.base, v.term = lib.vertexTransform u.term best.term c

variable (lib) in
omit [Neg K] [Add W] [Zero W] [LinearOrder W] in
lemma transformBase_spec (h : m.Formed perfCount) (c : K) : ∃ test,
    m.transformBase lib c = some { m with test := test } ∧ test.length = m.simplexSize ∧
      (∀ v ∈ test, v.perf.p.length = perfCount) ∧
      (∀ v ∈ test, ∃ u, (u ∈ m.base ∨ u ∈ m.test) ∧ v.id = u.id) ∧ m.Around lib c test := by
  obtain ⟨best, hbest, hblen⟩ := h.base_getElem? h.bestBase_lt
  have hmem := List.mem_of_getElem? hbest
  unfold Pro.transformBase
  rw [hbest]
  refine ⟨_, rfl, ?_, ?_, ?_, best, hbest, ?_⟩
  · rw [List.length_mapIdx, List.length_zip, h.base_length, h.test_length, Nat.min_self]
  all_goals
    intro v hv
    obtain ⟨i, hi, rfl⟩ := List.mem_mapIdx.mp hv
    have hpair : (m.base.zip m.test)[i] ∈ m.base.zip m.test := List.getElem_mem hi
    have hbase := (List.of_mem_zip hpair).1
    have htest := (List.of_mem_zip hpair).2
    by_cases hsame : i = m.bestBase
  · rw [if_pos hsame]
    exact h.base_perf _ hbase
  · rw [if_neg hsame]
    exact (List.length_map _).trans (h.test_perf (m.base.zip m.test)[i].2 htest)
  · rw [if_pos hsame]
    exact ⟨_, Or.inl hbase, rfl⟩
  · rw [if_neg hsame]
    exact ⟨_, Or.inr htest, rfl⟩
  · rw [if_pos hsame]
    left
    subst hsame
    rw [List.getElem_zip]
    exact List.getElem_of_getElem? hbest |>.2
  · rw [if_neg hsame]
    exact Or.inr ⟨untested_reset _, _, hbase, rfl⟩

/-- What `pro_next_simplex` builds. -/
structure Pro.Built (lib : ProLib K T V W ρ) (perfCount : ℕ) (m : Pro K T V W ρ)
    (test : List (Vertex T W)) : Prop where
  length : test.length = m.simplexSize
  perf : ∀ v ∈ test, v.perf.p.length = perfCount
  id : ∀ v ∈ test, ∃ u, (u ∈ m.base ∨ u ∈ m.test) ∧ v.id = u.id
  init : m.state = .init → test = m.base
  converged : m.state = .converged → test = m.test
  around : ∀ c, m.coefficient = some c → m.Around lib c test
  expandOne : m.state = .expandOne → ∀ v, test[0]? = some v → v.Untested

variable (lib) in
omit [Add W] [Zero W] [LinearOrder W] in
lemma proNextSimplex_spec (h : m.Formed perfCount) :
    ∃ test, proNextSimplex lib m = some { m with test := test } ∧ m.Built lib perfCount test := by
  have haround : ∀ c, m.coefficient = some c → m.state ≠ .init → m.state ≠ .converged →
      m.state ≠ .expandOne →
      ∃ test, m.transformBase lib c = some { m with test := test } ∧ m.Built lib perfCount test := by
    intro c hc hinit hconverged hone
    obtain ⟨test, heq, hlen, hperf, hid, haround⟩ := transformBase_spec lib h c
    refine ⟨test, heq, ⟨hlen, hperf, hid, fun hs => absurd hs hinit, fun hs => absurd hs hconverged,
      fun c' hc' => ?_, fun hs => absurd hs hone⟩⟩
    rw [Option.some.inj (hc'.symm.trans hc)]
    exact haround
  unfold proNextSimplex
  cases hcase : m.state with
  | init =>
    have hnone : m.coefficient = none := by
      unfold Pro.coefficient
      rw [hcase]
    refine ⟨m.base, rfl, h.base_length, h.base_perf, fun v hv => ⟨v, Or.inl hv, rfl⟩, fun _ => rfl, ?_,
      ?_, ?_⟩
    · rw [hcase]
      exact nofun
    · rw [hnone]
      exact nofun
    · rw [hcase]
      exact nofun
  | converged =>
    have hnone : m.coefficient = none := by
      unfold Pro.coefficient
      rw [hcase]
    refine ⟨m.test, congrArg some (by rw [← hcase]), h.test_length, h.test_perf,
      fun v hv => ⟨v, Or.inr hv, rfl⟩, ?_, fun _ => rfl, ?_, ?_⟩
    · rw [hcase]
      exact nofun
    · rw [hnone]
      exact nofun
    · rw [hcase]
      exact nofun
  | expandOne =>
    have hnone : m.coefficient = none := by
      unfold Pro.coefficient
      rw [hcase]
    obtain ⟨src, hsrc, -⟩ := h.test_getElem? h.bestTest_lt
    obtain ⟨best, hbest, hblen⟩ := h.base_getElem? h.bestBase_lt
    rw [hsrc, hbest]
    refine ⟨_, rfl, ?_, ?_, ?_, ?_, ?_, ?_, ?_⟩
    · exact List.length_mapIdx.trans h.test_length
    · intro v hv
      obtain ⟨i, hi, rfl⟩ := List.mem_mapIdx.mp hv
      by_cases hzero : i = 0
      · rw [if_pos hzero]
        exact (List.length_map _).trans (h.test_perf m.test[i] (List.getElem_mem hi))
      · rw [if_neg hzero]
        exact hblen
    · intro v hv
      obtain ⟨i, hi, rfl⟩ := List.mem_mapIdx.mp hv
      by_cases hzero : i = 0
      · rw [if_pos hzero]
        exact ⟨m.test[i], Or.inr (List.getElem_mem hi), rfl⟩
      · rw [if_neg hzero]
        exact ⟨best, Or.inl (List.mem_of_getElem? hbest), rfl⟩
    · rw [hcase]
      exact nofun
    · rw [hcase]
      exact nofun
    · rw [hnone]
      exact nofun
    · intro _ v hv
      rw [List.getElem?_mapIdx] at hv
      obtain ⟨u, -, rfl⟩ := Option.map_eq_some_iff.mp hv
      exact untested_reset _
  | reflect =>
    have hc : m.coefficient = some (-m.cfg.reflect) := by
      unfold Pro.coefficient
      rw [hcase]
    obtain ⟨test, heq, hbuilt⟩ := haround _ hc (by simp [hcase]) (by simp [hcase]) (by simp [hcase])
    rw [hcase] at heq
    exact ⟨test, heq, hbuilt⟩
  | expandAll =>
    have hc : m.coefficient = some m.cfg.expand := by
      unfold Pro.coefficient
      rw [hcase]
    obtain ⟨test, heq, hbuilt⟩ := haround _ hc (by simp [hcase]) (by simp [hcase]) (by simp [hcase])
    rw [hcase] at heq
    exact ⟨test, heq, hbuilt⟩
  | shrink =>
    have hc : m.coefficient = some m.cfg.shrink := by
      unfold Pro.coefficient
      rw [hcase]
    obtain ⟨test, heq, hbuilt⟩ := haround _ hc (by simp [hcase]) (by simp [hcase]) (by simp [hcase])
    rw [hcase] at heq
    exact ⟨test, heq, hbuilt⟩

/-! ## The loop -/

variable (lib)

/-- A round of `pro_algorithm` up to the call of `pro_next_simplex`. -/
def proBefore (w : ProWorld K T V W ρ) : Option (ProWorld K T V W ρ) :=
  if w.plug.state = .converged then none
  else
    (proNextState w.plug).map fun m =>
      let world := { w with plug := m }
      if m.state = .reflect then proCheckConvergence lib world else world

lemma proAlgorithm_succ (fuel : ℕ) (w : ProWorld K T V W ρ) :
    proAlgorithm lib (fuel + 1) w =
      if w.plug.state = .converged then (0, w)
      else
        match proBefore lib w with
        | none => (-1, w)
        | some w₁ =>
          match proNextSimplex lib w₁.plug with
          | none => (-1, w₁)
          | some m =>
            if simplexOutofbounds lib m.test then proAlgorithm lib fuel { w₁ with plug := m }
            else (0, { w₁ with plug := m }) := by
  rw [proAlgorithm]
  unfold proBefore
  by_cases hstate : w.plug.state = .converged
  · rw [if_pos hstate, if_pos hstate]
  · rw [if_neg hstate, if_neg hstate, if_neg hstate]
    cases proNextState w.plug <;> rfl

/-- `pro_algorithm` from `w` begins a round in `w₁`. -/
inductive ProRoundOf (w : ProWorld K T V W ρ) : ProWorld K T V W ρ → Prop
  | first : ProRoundOf w w
  | again {w₁ w₂ m} (hround : ProRoundOf w w₁) (hbefore : proBefore lib w₁ = some w₂)
      (hnext : proNextSimplex lib w₂.plug = some m) (hout : simplexOutofbounds lib m.test = true) :
      ProRoundOf w { w₂ with plug := m }

variable {lib}

variable (lib) in
omit [Neg K] [Top W] in
/-- A round changes the state as `pro_next_state` does, or finds that the search has converged. -/
lemma proBefore_spec {w : ProWorld K T V W ρ} (h : w.plug.Formed perfCount)
    (hstate : w.plug.state ≠ .converged) : ∃ w₁ m, proBefore lib w = some w₁ ∧ ProMove w.plug m ∧
      m.Formed perfCount ∧
      (w₁.plug = m ∨ m.state = .reflect ∧ w₁.plug = { m with state := .converged }) := by
  obtain ⟨m, hm, hmove⟩ := proNextState_move h hstate
  unfold proBefore
  rw [if_neg hstate, hm]
  refine ⟨_, m, rfl, hmove, hmove.formed h, ?_⟩
  dsimp only
  by_cases hcheck : m.state = .reflect
  · rw [if_pos hcheck]
    unfold proCheckConvergence
    dsimp only
    by_cases hconv : lib.hasConverged m.cfg m.base = true
    · rw [if_pos hconv, sessionSetcfg_plug]
      exact Or.inr ⟨hcheck, rfl⟩
    · rw [if_neg hconv]
      exact Or.inl rfl
  · rw [if_neg hcheck]
    exact Or.inl rfl

omit [Add W] [Zero W] [LinearOrder W] in
lemma Pro.Built.formed {test : List (Vertex T W)} (hbuilt : m.Built lib perfCount test)
    (h : m.Formed perfCount) : ({ m with test := test } : Pro K T V W ρ).Formed perfCount :=
  { h with test_length := hbuilt.length, test_perf := hbuilt.perf }

/-! ## A simplex that was not tested -/

/-- The simplex has been built, and was not tested. -/
def Pro.Stale (m : Pro K T V W ρ) : Prop :=
  match m.state with
  | .reflect | .expandAll =>
    ∃ best, m.base[m.bestBase]? = some best ∧ ∀ v ∈ m.test, v = best ∨ v.Untested
  | .expandOne => ∀ v, m.test[0]? = some v → v.Untested
  | .converged => True
  | _ => False

omit [Add W] [Zero W] [LinearOrder W] in
/-- `pro_next_simplex` builds such a simplex, except by a shrink. -/
lemma Pro.Built.stale {test : List (Vertex T W)} (hbuilt : m.Built lib perfCount test)
    (hinit : m.state ≠ .init) (hshrink : m.state ≠ .shrink) :
    ({ m with test := test } : Pro K T V W ρ).Stale := by
  have haround : ∀ c, m.coefficient = some c →
      ∃ best, m.base[m.bestBase]? = some best ∧ ∀ v ∈ test, v = best ∨ v.Untested := by
    intro c hc
    obtain ⟨best, hbest, haround⟩ := hbuilt.around c hc
    exact ⟨best, hbest, fun v hv => (haround v hv).imp_right And.left⟩
  unfold Pro.Stale
  cases hcase : m.state with
  | init => exact absurd hcase hinit
  | shrink => exact absurd hcase hshrink
  | reflect =>
    apply haround (-m.cfg.reflect)
    unfold Pro.coefficient
    rw [hcase]
  | expandAll =>
    apply haround m.cfg.expand
    unfold Pro.coefficient
    rw [hcase]
  | expandOne => exact hbuilt.expandOne hcase
  | converged => trivial

end

section

variable {K T V ρ R : Type} [Neg K] [Field R] [LinearOrder R] [IsStrictOrderedRing R] {perfCount : ℕ}
  {m m' : Pro K T V (WithTop R) ρ}

omit [Neg K] in
/-- A simplex that was not tested does not look better than `base`. -/
lemma Pro.Stale.not_better (hstale : m.Stale) (h : m.Formed perfCount) :
    (m.state = .reflect ∨ m.state = .expandAll → ¬m.Better m.bestTest) ∧
      (m.state = .expandOne → ¬m.Better 0) := by
  unfold Pro.Stale at hstale
  constructor
  · intro hstate hbetter
    obtain ⟨v, best, hv, hbest, hiff, -⟩ := h.better_iff h.bestTest_lt
    have hlt := hiff.mp hbetter
    have hall : ∃ best, m.base[m.bestBase]? = some best ∧ ∀ v ∈ m.test, v = best ∨ v.Untested := by
      obtain hstate | hstate := hstate
      · rw [hstate] at hstale
        exact hstale
      · rw [hstate] at hstale
        exact hstale
    obtain ⟨best', hbest', hall⟩ := hall
    obtain rfl := Option.some.inj (hbest.symm.trans hbest')
    obtain rfl | hun := hall v (List.mem_of_getElem? hv)
    · exact lt_irrefl _ hlt
    · have hlen := (h.test_perf v (List.mem_of_getElem? hv)).trans
        (h.base_perf best (List.mem_of_getElem? hbest)).symm
      exact absurd hlt (not_lt.mpr (hun.perf_le hlen))
  · intro hstate hbetter
    rw [hstate] at hstale
    obtain ⟨v, best, hv, hbest, hiff, -⟩ := h.better_iff (Nat.zero_lt_of_lt h.bestTest_lt)
    have hlen := (h.test_perf v (List.mem_of_getElem? hv)).trans
      (h.base_perf best (List.mem_of_getElem? hbest)).symm
    exact absurd (hiff.mp hbetter) (not_lt.mpr ((hstale v hv).perf_le hlen))

omit [Neg K] in
/-- A simplex that was not tested is reflected or shrunken next. -/
lemma ProMove.of_stale (hmove : ProMove m m') (h : m.Formed perfCount)
    (hstale : m.Stale) :
    (m.state = .reflect → m'.state = .shrink) ∧
      (m.state = .expandOne ∨ m.state = .expandAll → m'.state = .reflect) := by
  obtain ⟨hnot, hnot₀⟩ := hstale.not_better h
  cases hmove with
  | accept hstate =>
    obtain hstate | hstate := hstate <;> rw [hstate] <;> exact ⟨nofun, nofun⟩
  | expandOne hstate hbetter => exact absurd hbetter (hnot (Or.inl hstate))
  | shrink hstate hworse =>
    rw [hstate]
    exact ⟨fun _ => rfl, nofun⟩
  | expandAll hstate hbetter => exact absurd hbetter (hnot₀ hstate)
  | revert hstate hworse =>
    rw [hstate]
    exact ⟨nofun, fun _ => rfl⟩
  | expanded hstate hbetter => exact absurd hbetter (hnot (Or.inr hstate))
  | stay hstate hworse =>
    rw [hstate]
    exact ⟨nofun, fun _ => rfl⟩

end

section

variable {K T V W ρ : Type} [Neg K] [Add W] [Zero W] [LinearOrder W] [Top W]
  {lib : ProLib K T V W ρ} {perfCount : ℕ} {m m' : Pro K T V W ρ}

/-! ## The start of a search -/

/-- The state after the one time initialization of `strategy_init`. -/
def Pro.once (lib : ProLib K T V W ρ) (w : ProWorld K T V W ρ) : Pro K T V W ρ :=
  if w.plug.base = [] then
    { w.plug with
      simplexSize := lib.simplexSize w.cfg
      best := hpointInitializer V
      bestPerf := ⊤
      nextId := 1 }
  else w.plug

/-- The initial simplex. -/
def Pro.initialBase (lib : ProLib K T V W ρ) (w : ProWorld K T V W ρ) : List (Vertex T W) :=
  (lib.initial w.plug.rand w.cfg (Pro.once lib w).simplexSize).1.map fun term =>
    { id := 0, perf := { p := List.replicate lib.perfCount ⊤ }, term := term }

variable (lib) in
omit [Neg K] [Add W] [Zero W] [LinearOrder W] in
lemma proOnce_eq (w : ProWorld K T V W ρ) :
    (Pro.once lib w).rand = w.plug.rand ∧ (Pro.once lib w).bestBase = w.plug.bestBase ∧
      (Pro.once lib w).bestTest = w.plug.bestTest ∧ (Pro.once lib w).bestStash = w.plug.bestStash := by
  unfold Pro.once
  split_ifs
  · exact ⟨rfl, rfl, rfl, rfl⟩
  · exact ⟨rfl, rfl, rfl, rfl⟩

omit [Add W] [Zero W] [LinearOrder W] in
/-- The state after a successful `strategy_init`. -/
lemma proInit_spec {w w' : ProWorld K T V W ρ} (hinit : proInit lib w = (0, w')) :
    ∃ cfg rand, lib.strategyCfg w.cfg = some cfg ∧ w'.plug =
      { Pro.once lib w with
        cfg := cfg
        state := .init
        base := Pro.initialBase lib w
        test := Pro.initialBase lib w
        sendIdx := 0
        reported := 0
        rand := rand } := by
  have hrand := (proOnce_eq lib w).1
  unfold Pro.initialBase
  rw [← hrand]
  unfold proInit at hinit
  dsimp only at hinit
  generalize hm₀ : (if w.plug.base = [] then _ else w.plug) = m₀ at hinit
  rw [show Pro.once lib w = m₀ from hm₀]
  cases hcfg : lib.strategyCfg w.cfg with
  | none =>
    rw [hcfg] at hinit
    have hret : (-1 : ℤ) = 0 := congrArg Prod.fst hinit
    exact absurd hret (by decide)
  | some cfg =>
    simp only [hcfg] at hinit
    generalize hset : @sessionSetcfg (Pro K T V W ρ) _ cfgkeyStrategyConverged (cstr "0") = res at hinit
    have hplug := congrArg (fun res => res.2.plug) hset
    rw [sessionSetcfg_plug] at hplug
    obtain ⟨ret, w₁⟩ := res
    dsimp only at hplug hinit
    by_cases hret : ret ≠ 0
    · rw [if_pos hret] at hinit
      have hret : (-1 : ℤ) = 0 := congrArg Prod.fst hinit
      exact absurd hret (by decide)
    · rw [if_neg hret, ← hplug] at hinit
      have hw' := (Prod.mk.inj hinit).2
      subst hw'
      exact ⟨cfg, _, rfl, rfl⟩

variable (lib) in
omit [Neg K] [Add W] [Zero W] [LinearOrder W] in
lemma proOnce_of_fresh {w : ProWorld K T V W ρ} (hfresh : w.plug.base = []) :
    (Pro.once lib w).simplexSize = lib.simplexSize w.cfg ∧ (Pro.once lib w).nextId = 1 := by
  unfold Pro.once
  rw [if_pos hfresh]
  exact ⟨rfl, rfl⟩

variable (lib) in
omit [Neg K] [Add W] [Zero W] [LinearOrder W] in
lemma proOnce_of_formed {w : ProWorld K T V W ρ} (h : w.plug.Formed perfCount) :
    Pro.once lib w = w.plug := by
  have hpos : 0 < w.plug.base.length := h.base_length.symm ▸ Nat.zero_lt_of_lt h.bestBase_lt
  unfold Pro.once
  rw [if_neg (List.length_pos_iff.mp hpos)]

variable (lib) in
omit [Add W] [Zero W] [LinearOrder W] in
lemma proInit_formed {w w' : ProWorld K T V W ρ}
    (hlen : (lib.initial w.plug.rand w.cfg (Pro.once lib w).simplexSize).1.length =
      (Pro.once lib w).simplexSize)
    (hbase : w.plug.bestBase < (Pro.once lib w).simplexSize)
    (htest : w.plug.bestTest < (Pro.once lib w).simplexSize)
    (hstash : w.plug.bestStash < (Pro.once lib w).simplexSize) (hinit : proInit lib w = (0, w')) :
    w'.plug.Formed lib.perfCount := by
  obtain ⟨cfg, rand, -, heq⟩ := proInit_spec hinit
  obtain ⟨-, hsame_base, hsame_test, hsame_stash⟩ := proOnce_eq lib w
  have hlength : (Pro.initialBase lib w).length = (Pro.once lib w).simplexSize :=
    (List.length_map _).trans hlen
  have hperf : ∀ v ∈ Pro.initialBase lib w, v.perf.p.length = lib.perfCount := by
    intro v hv
    obtain ⟨term, -, rfl⟩ := List.mem_map.mp hv
    exact List.length_replicate
  rw [heq]
  exact ⟨hlength, hlength, hperf, hperf, hsame_base.trans_lt hbase, hsame_test.trans_lt htest,
    hsame_stash.trans_lt hstash⟩

/-! ## The calls of the plug-in -/

omit [Neg K] [Top W] in
/-- The report of a vertex changes its performance, the number of reports and `best_test`. -/
lemma record_eq (m : Pro K T V W ρ) (i : ℕ) (perf : HPerf W) : ∃ bestTest,
    m.record i perf =
      { m with
        reported := m.reported + 1
        test := m.test.modify i fun v => { v with perf := perf }
        bestTest := bestTest } ∧ (bestTest = m.bestTest ∨ bestTest = i) := by
  unfold Pro.record
  dsimp only
  split
  · split_ifs
    · exact ⟨i, rfl, Or.inr rfl⟩
    · exact ⟨m.bestTest, rfl, Or.inl rfl⟩
  · exact ⟨m.bestTest, rfl, Or.inl rfl⟩

omit [Neg K] [Add W] [Zero W] [LinearOrder W] [Top W] in
lemma Pro.find_lt {id : ℤ} {i : ℕ} (hfind : m.find id = some i) :
    i < m.test.length ∧ ∃ v, m.test[i]? = some v ∧ v.id = id := by
  unfold Pro.find at hfind
  obtain ⟨hlt, hid, -⟩ := List.findIdx?_eq_some_iff_getElem.mp hfind
  exact ⟨hlt, m.test[i], List.getElem?_eq_getElem hlt, of_decide_eq_true hid⟩

omit [Neg K] [Add W] [Zero W] [LinearOrder W] [Top W] in
/-- The vertex `send_idx` gets a new id. -/
lemma send_eq {point : HPoint V} (hsend : m.send lib = some (point, m')) :
    ∃ v, m.test[m.sendIdx]? = some v ∧ point = ({ v with id := m.nextId } : Vertex T W).proToHpoint lib ∧
      m' = { m with
        test := m.test.modify m.sendIdx fun v => { v with id := m.nextId }
        nextId := m.nextId + 1
        sendIdx := m.sendIdx + 1 } := by
  unfold Pro.send at hsend
  obtain ⟨v, hv, hsend⟩ := Option.bind_eq_some_iff.mp hsend
  obtain ⟨hpoint, hm'⟩ := Prod.mk.inj (Option.some.inj hsend)
  refine ⟨v, hv, hpoint.symm, ?_⟩
  rw [← hm', ListModify.eq_set hv]

/-- The state after the penalty for vertex `i`. -/
def Pro.penalize (m : Pro K T V W ρ) (i : ℕ) : Pro K T V W ρ :=
  { m with test := m.test.modify i Vertex.resetPerf, reported := m.reported + 1 }

/-- What a successful `strategy_analyze` does. -/
lemma proAnalyze_inv {w w' : ProWorld K T V W ρ} {fuel : ℕ} {trial : HTrial V W}
    (h : proAnalyze lib fuel w trial = (0, w')) :
    w.plug.find trial.point.id = none ∧ w' = w ∨
      ∃ i w₁ best bestPerf, w.plug.find trial.point.id = some i ∧
        proRound lib fuel { w with plug := w.plug.record i trial.perf } = (0, w₁) ∧
        w' = { w₁ with plug := { w₁.plug with best := best, bestPerf := bestPerf } } := by
  unfold proAnalyze at h
  dsimp only at h
  cases hfind : w.plug.find trial.point.id with
  | none =>
    rw [hfind] at h
    exact Or.inl ⟨rfl, (Prod.mk.inj h).2.symm⟩
  | some i =>
    right
    rw [hfind] at h
    dsimp only at h
    generalize hround : proRound lib fuel { w with plug := w.plug.record i trial.perf } = res at h
    obtain ⟨ret, w₁⟩ := res
    dsimp only at h
    by_cases hret : ret ≠ 0
    · rw [if_pos hret] at h
      exact absurd (congrArg Prod.fst h) (by simp)
    · rw [if_neg hret] at h
      obtain rfl := not_not.mp hret
      have hw' := (Prod.mk.inj h).2
      by_cases hbest : hperfUnify trial.perf < w₁.plug.bestPerf
      · rw [if_pos hbest] at hw'
        exact ⟨i, w₁, _, _, rfl, hround, hw'.symm⟩
      · rw [if_neg hbest] at hw'
        exact ⟨i, w₁, w₁.plug.best, w₁.plug.bestPerf, rfl, hround, hw'.symm⟩

/-- What a successful `strategy_rejected` does to the vertex `i`. -/
inductive ProReject (lib : ProLib K T V W ρ) (fuel : ℕ) (w : ProWorld K T V W ρ) (i : ℕ) (flow : Flow V)
    (id : ℤ) : Pro K T V W ρ → FlowStatus → ℤ → Prop
  | hint (term : T) (hhint : flow.point.id ≠ -1) : ProReject lib fuel w i flow id
      { w.plug with test := w.plug.test.modify i fun v => { v with term := term } } .accept id
  | random (term : T) (rand : ρ) (hhint : flow.point.id = -1) (htype : w.plug.cfg.rejectType = .random) :
      ProReject lib fuel w i flow id
        { w.plug with
          test := w.plug.test.modify i fun v => { v with term := term }.resetPerf
          rand := rand } .accept id
  | full {w₁} (hhint : flow.point.id = -1) (htype : w.plug.cfg.rejectType = .penalty)
      (hround : proRound lib fuel { w with plug := w.plug.penalize i } = (0, w₁)) :
      ProReject lib fuel w i flow id w₁.plug .wait id
  | next {w₁ m point} (hhint : flow.point.id = -1) (htype : w.plug.cfg.rejectType = .penalty)
      (hround : proRound lib fuel { w with plug := w.plug.penalize i } = (0, w₁))
      (hsend : w₁.plug.send lib = some (point, m)) :
      ProReject lib fuel w i flow id m .accept point.id

lemma proRejected_inv {w w' : ProWorld K T V W ρ} {fuel : ℕ} {flow flow' : Flow V}
    {point point' : HPoint V} (h : proRejected lib fuel w flow point = (0, w', flow', point')) :
    ∃ i, w.plug.find point.id = some i ∧
      ProReject lib fuel w i flow point.id w'.plug flow'.status point'.id := by
  unfold proRejected at h
  dsimp only at h
  cases hfind : w.plug.find point.id with
  | none =>
    rw [hfind] at h
    exact absurd (congrArg Prod.fst h) (by simp)
  | some i =>
    refine ⟨i, rfl, ?_⟩
    rw [hfind] at h
    dsimp only at h
    by_cases hhint : flow.point.id ≠ -1
    · rw [if_pos hhint] at h
      simp only [Prod.mk.injEq, true_and] at h
      obtain ⟨rfl, rfl, rfl⟩ := h
      exact .hint _ hhint
    · rw [if_neg hhint] at h
      cases htype : w.plug.cfg.rejectType with
      | penalty =>
        rw [htype] at h
        dsimp only at h
        generalize hround : proRound lib fuel { w with plug := { w.plug with
          test := w.plug.test.modify i Vertex.resetPerf, reported := w.plug.reported + 1 } } = res at h
        obtain ⟨ret, w₁⟩ := res
        dsimp only at h
        by_cases hret : ret ≠ 0
        · rw [if_pos hret] at h
          exact absurd (congrArg Prod.fst h) (by simp)
        · rw [if_neg hret] at h
          obtain rfl := not_not.mp hret
          by_cases hfull : w₁.plug.sendIdx = w₁.plug.simplexSize
          · rw [if_pos hfull] at h
            simp only [Prod.mk.injEq, true_and] at h
            obtain ⟨rfl, rfl, rfl⟩ := h
            exact .full (not_not.mp hhint) htype hround
          · rw [if_neg hfull] at h
            cases hsend : w₁.plug.send lib with
            | none =>
              rw [hsend] at h
              exact absurd (congrArg Prod.fst h) (by simp)
            | some sent =>
              obtain ⟨point₁, m⟩ := sent
              rw [hsend] at h
              simp only [Prod.mk.injEq, true_and] at h
              obtain ⟨rfl, rfl, rfl⟩ := h
              exact .next (not_not.mp hhint) htype hround hsend
      | random =>
        rw [htype] at h
        dsimp only at h
        obtain ⟨-, v, hv, hid⟩ := Pro.find_lt hfind
        have hat : (w.plug.test.modify i fun v =>
            { v with term := (lib.vertexRand w.plug.rand).1 }.resetPerf)[i]? =
              some { v with term := (lib.vertexRand w.plug.rand).1 }.resetPerf := by
          rw [List.getElem?_modify, hv]
          simp
        rw [hat] at h
        simp only [Prod.mk.injEq, true_and] at h
        obtain ⟨rfl, rfl, rfl⟩ := h
        have hsame : ({ v with term := (lib.vertexRand w.plug.rand).1 }.resetPerf.proToHpoint lib).id =
          point.id := hid
        rw [hsame]
        exact .random _ _ (not_not.mp hhint) htype

variable (lib)

/-- The calls of `pro_algorithm` in the state `w`, with the state they get. -/
inductive ProCall (w : ProWorld K T V W ρ) : ProWorld K T V W ρ → Prop
  | analyze {i} (trial : HTrial V W) (hperf : trial.perf.p.length = lib.perfCount)
      (hfind : w.plug.find trial.point.id = some i) (hfull : w.plug.reported + 1 = w.plug.simplexSize) :
      ProCall w { w with plug := w.plug.record i trial.perf }
  | rejected {i} (point : HPoint V) (hpenalty : w.plug.cfg.rejectType = .penalty)
      (hfind : w.plug.find point.id = some i) (hfull : w.plug.reported + 1 = w.plug.simplexSize) :
      ProCall w { w with plug := w.plug.penalize i }

end

/-! ## An example -/

/-- The coefficients of a configuration without keys. -/
def tenStepsCfg : ProCfg ℚ where
  rejectType := .penalty
  reflect := 1
  expand := 2
  shrink := 1 / 2
  fvalTol := 1 / 10000
  sizeTol := 1 / 20

/-- One variable from 0 to 10, and three vertices. -/
def tenSteps : ProLib ℚ (Fin 1 → ℚ) ℚ (WithTop ℚ) Unit where
  strategyCfg := fun _ => some tenStepsCfg
  simplexSize := fun _ => 3
  perfCount := 1
  initial := fun _ _ _ => ([fun _ => 4, fun _ => 5, fun _ => 1], ())
  vertexRand := fun _ => (fun _ => 2, ())
  vertexToHpoint := fun term => List.ofFn fun i => .real (term i)
  vertexFromHpoint := fun vals => match vals with
    | .real r :: _ => fun _ => r
    | _ => fun _ => 0
  vertexTransform := vertexTransform
  vertexOutofbounds := vertexOutofbounds (fun _ => .real 0 10 0) (fun _ => 10)
  hasConverged := fun _ _ => false

/-- The state of `pro.c` when it is loaded. -/
def tenStepsPro : Pro ℚ (Fin 1 → ℚ) ℚ (WithTop ℚ) Unit where
  best := hpointInitializer ℚ
  bestPerf := ⊤
  cfg := tenStepsCfg
  simplexSize := 0
  state := .init
  base := []
  test := []
  bestBase := 0
  bestTest := 0
  bestStash := 0
  nextId := 0
  sendIdx := 0
  reported := 0
  rand := ()

/-- The session of `tenSteps` when the plug-in is loaded. -/
def tenStepsLoaded : ProWorld ℚ (Fin 1 → ℚ) ℚ (WithTop ℚ) Unit :=
  { plug := tenStepsPro, cfg := hcfgAlloc, errmsg := none }

end ActiveHarmony

import ActiveHarmony.Lib.ListModify
import ActiveHarmony.Lib.XReal
import ActiveHarmony.Strategy.Nemo

/-!
# The phases of `nemo.c`

A session that calls `strategy_init` once stays within its vectors: the phases come in order from the first
to the last objective, the threshold of a phase is written when the phase is left, and the search has
converged only in the last phase. The phase is not set back by `strategy_init`, so a restart goes on with
the phase after the last one.
-/

namespace ActiveHarmony

variable {T V W ρ : Type} {n p : ℕ} {m m' : Nemo T V W ρ}

/-! ## Accesses -/

section

variable {α : Type} {l : List α} {i : ℕ}

lemma readAt_natCast : readAt l (i : ℤ) = l[i]? := by
  unfold readAt
  rw [if_neg (by omega), Int.toNat_natCast]
  rfl

lemma readAt_of_lt (h : i < l.length) : ∃ x, readAt l (i : ℤ) = some x := by
  rw [readAt_natCast]
  exact BoundedBuffer.read_of_lt h

lemma writeAt_of_lt (h : i < l.length) (x : α) : writeAt l (i : ℤ) x = some (l.set i x) := by
  unfold writeAt
  rw [if_neg (by omega), Int.toNat_natCast]
  exact BoundedBuffer.write_of_lt h x

end

/-! ## Invariants -/

/-- The vertices of a simplex have performances for `n` objectives. -/
def SimplexSized (n size : ℕ) (vs : List (Vertex T W)) : Prop :=
  vs.length = size ∧ ∀ v ∈ vs, v.perf.p.length = n

/-- The vectors have the lengths for `n` objectives. -/
structure Nemo.Sized (n : ℕ) (m : Nemo T V W ρ) : Prop where
  pos : 0 < m.simplexSize
  thresh : m.thresh.length = n - 1
  leeway : m.leeway.length = n - 1
  range : m.range.length = n
  bestPerf : m.bestPerf.p.length = n
  base : SimplexSized n m.simplexSize m.base
  init : SimplexSized n m.simplexSize m.init
  test : m.test.perf.p.length = n
  centroid : m.centroid.perf.p.length = n

/-- The history of a search in phase `p`. -/
def searchHistory (p : ℕ) : List NemoEvent :=
  [.converged false, .phase 0] ++
    (List.range p).flatMap fun i : ℕ => [NemoEvent.threshold i, NemoEvent.phase (i + 1)]

/-- The search is in phase `p`: it has gone through the phases before, and has written their thresholds and
no others. -/
structure Nemo.InPhase (n p : ℕ) (m : Nemo T V W ρ) : Prop where
  phase : m.phase = p
  lt : p < n
  written : ∀ i, (∃ x, m.thresh[i]? = some (some x)) ↔ i < p
  history : m.history = searchHistory p ++ if m.state = .converged then [.converged true] else []
  last : m.state = .converged → p + 1 = n

/-- The vertices and the index into the simplex that a state of the search uses. -/
structure Nemo.Indexed (m : Nemo T V W ρ) : Prop where
  best : m.state ≠ .init → ∃ i, m.simplexBest = some i ∧ i < m.simplexSize
  worst : m.state ≠ .init → ∃ i, m.simplexWorst = some i ∧ i < m.simplexSize
  first : m.state = .init → 0 ≤ m.currIdx
  currIdx : m.state = .init ∨ m.state = .shrink → -1 ≤ m.currIdx ∧ m.currIdx < m.simplexSize

/-- The vertex that the search tries next is there. -/
def Nemo.HasNext (m : Nemo T V W ρ) : Prop :=
  m.next = some .test ∨ ∃ i, m.next = some (.base i) ∧ i < m.simplexSize

/-- What holds while the search is in phase `p`. -/
structure Nemo.Searching (n p : ℕ) (m : Nemo T V W ρ) : Prop where
  sized : m.Sized n
  inPhase : m.InPhase n p
  indexed : m.Indexed
  hasNext : m.HasNext

lemma Nemo.InPhase.congr (h : m.InPhase n p) (hphase : m'.phase = m.phase) (hthresh : m'.thresh = m.thresh)
    (hhistory : m'.history = m.history) (hstate : m'.state = .converged ↔ m.state = .converged) :
    m'.InPhase n p where
  phase := hphase.trans h.phase
  lt := h.lt
  written := by rw [hthresh]; exact h.written
  history := by
    rw [hhistory, h.history]
    simp only [hstate]
  last := fun hconv => h.last (hstate.mp hconv)

lemma searchHistory_succ (p : ℕ) :
    searchHistory (p + 1) = searchHistory p ++ [.threshold p, NemoEvent.phase (p + 1)] := by
  unfold searchHistory
  rw [List.range_succ, List.flatMap_append, List.append_assoc]
  rfl

lemma SimplexSized.getElem {size i : ℕ} {vs : List (Vertex T W)} (h : SimplexSized n size vs)
    (hi : i < size) :
    ∃ v, vs[i]? = some v ∧ v.perf.p.length = n := by
  have hlt : i < vs.length := by rw [h.1]; exact hi
  exact ⟨vs[i], List.getElem?_eq_getElem hlt, h.2 _ (List.getElem_mem hlt)⟩

lemma SimplexSized.set {size i : ℕ} {vs : List (Vertex T W)} {v : Vertex T W} (h : SimplexSized n size vs)
    (hv : v.perf.p.length = n) : SimplexSized n size (vs.set i v) := by
  refine ⟨List.length_set.trans h.1, ?_⟩
  intro u hu
  obtain hu | rfl := List.mem_or_eq_of_mem_set hu
  · exact h.2 u hu
  · exact hv

lemma Vertex.perfAt_of_lt {v : Vertex T W} {i : ℕ} (hv : v.perf.p.length = n) (hi : i < n) :
    ∃ x, v.perfAt (i : ℤ) = some x :=
  readAt_of_lt (by rw [hv]; exact hi)

/-- The vertex that `next` points to. -/
lemma Nemo.Searching.nextVertex (h : m.Searching n p) :
    ∃ v, m.nextVertex = some v ∧ v.perf.p.length = n := by
  unfold Nemo.nextVertex
  obtain hnext | ⟨i, hnext, hi⟩ := h.hasNext
  · rw [hnext]
    exact ⟨m.test, rfl, h.sized.test⟩
  · rw [hnext]
    exact h.sized.base.getElem hi

lemma perfAt_base (hsized : m.Sized n) (hphase : m.InPhase n p) {i : ℕ} (hi : i < m.simplexSize) :
    ∃ x, (m.base[i]?.bind fun v => v.perfAt m.phase) = some x := by
  obtain ⟨v, hv, hlen⟩ := hsized.base.getElem hi
  rw [hv, hphase.phase]
  exact Vertex.perfAt_of_lt hlen hphase.lt

lemma perfAt_best (h : m.Searching n p) (hinit : m.state ≠ .init) :
    ∃ x, (m.bestVertex.bind fun v => v.perfAt m.phase) = some x := by
  obtain ⟨b, hbest, hb⟩ := h.indexed.best hinit
  unfold Nemo.bestVertex
  rw [hbest]
  exact perfAt_base h.sized h.inPhase hb

lemma perfAt_worst (h : m.Searching n p) (hinit : m.state ≠ .init) :
    ∃ x, (m.worstVertex.bind fun v => v.perfAt m.phase) = some x := by
  obtain ⟨w, hworst, hw⟩ := h.indexed.worst hinit
  unfold Nemo.worstVertex
  rw [hworst]
  exact perfAt_base h.sized h.inPhase hw

/-! ## Moves of the search -/

/-- The search turns to the state `st` with new pivots. -/
def Nemo.turn (m : Nemo T V W ρ) (b w : ℕ) (c : Vertex T W) (st : SimplexState) : Nemo T V W ρ :=
  { m with simplexBest := some b, simplexWorst := some w, centroid := c, state := st }

lemma Nemo.Sized.turn {b w : ℕ} {c : Vertex T W} {st : SimplexState} (h : m.Sized n)
    (hc : c.perf.p.length = n) : (m.turn b w c st).Sized n where
  pos := h.pos
  thresh := h.thresh
  leeway := h.leeway
  range := h.range
  bestPerf := h.bestPerf
  base := h.base
  init := h.init
  test := h.test
  centroid := hc

/-- A turn gives the search new pivots, so nothing of the old state is needed. -/
lemma Nemo.Searching.turn {b w : ℕ} {c : Vertex T W} {st : SimplexState} (hsized : m.Sized n)
    (hphase : m.InPhase n p) (hgoing : m.state ≠ .converged) (hnext : m.HasNext)
    (hc : c.perf.p.length = n) (hb : b < m.simplexSize) (hw : w < m.simplexSize)
    (hst : st = .reflect ∨ st = .contract) : (m.turn b w c st).Searching n p where
  sized := hsized.turn hc
  inPhase := by
    refine Nemo.InPhase.congr hphase rfl rfl rfl ?_
    show st = .converged ↔ m.state = .converged
    obtain rfl | rfl := hst
    · simp [hgoing]
    · simp [hgoing]
  indexed := by
    constructor
    · intro _
      exact ⟨b, rfl, hb⟩
    · intro _
      exact ⟨w, rfl, hw⟩
    · intro hinit
      obtain rfl | rfl := hst <;> cases hinit
    · intro hidx
      obtain rfl | rfl := hst
      · obtain hinit | hshrink := hidx
        · cases hinit
        · cases hshrink
      · obtain hinit | hshrink := hidx
        · cases hinit
        · cases hshrink
  hasNext := hnext

lemma Nemo.replaceWorst_eq {i : ℕ} (h : m.simplexWorst = some i) :
    m.replaceWorst = { m with base := m.base.set i m.test } := by
  unfold Nemo.replaceWorst
  rw [h]

/-- The test vertex takes the place of the worst one. -/
lemma Nemo.Searching.replaceWorst (h : m.Searching n p) (hinit : m.state ≠ .init) :
    m.replaceWorst.Searching n p := by
  obtain ⟨i, hworst, -⟩ := h.indexed.worst hinit
  rw [Nemo.replaceWorst_eq hworst]
  exact {
    sized := { h.sized with base := h.sized.base.set h.sized.test }
    inPhase := h.inPhase.congr rfl rfl rfl Iff.rfl
    indexed := { h.indexed with }
    hasNext := h.hasNext }

lemma Nemo.replaceWorst_state : m.replaceWorst.state = m.state := by
  unfold Nemo.replaceWorst
  cases m.simplexWorst <;> rfl

/-- The search keeps its pivots and goes on to expand. -/
lemma Nemo.Searching.expand (h : m.Searching n p) (hinit : m.state ≠ .init)
    (hgoing : m.state ≠ .converged) : Nemo.Searching n p { m with state := .expand } where
  sized := { h.sized with }
  inPhase := h.inPhase.congr rfl rfl rfl (by simp [hgoing])
  indexed := {
    best := fun _ => h.indexed.best hinit
    worst := fun _ => h.indexed.worst hinit
    first := fun hst => SimplexState.noConfusion hst
    currIdx := fun hst => by obtain hst | hst := hst <;> cases hst }
  hasNext := h.hasNext

/-- The search keeps its pivots and goes on to shrink. -/
lemma Nemo.Searching.shrink (h : m.Searching n p) (hinit : m.state ≠ .init)
    (hgoing : m.state ≠ .converged) : Nemo.Searching n p { m with currIdx := -1, state := .shrink } where
  sized := { h.sized with }
  inPhase := h.inPhase.congr rfl rfl rfl (by simp [hgoing])
  indexed := {
    best := fun _ => h.indexed.best hinit
    worst := fun _ => h.indexed.worst hinit
    first := fun hst => SimplexState.noConfusion hst
    currIdx := fun _ => show -1 ≤ (-1 : ℤ) ∧ (-1 : ℤ) < m.simplexSize by omega }
  hasNext := h.hasNext

/-- A search that has converged in the last phase is over. -/
lemma Nemo.Searching.converge (h : m.Searching n p) (hinit : m.state ≠ .init)
    (hgoing : m.state ≠ .converged) (hlast : p + 1 = n) :
    Nemo.Searching n p { m with state := .converged, history := m.history ++ [.converged true] } where
  sized := { h.sized with }
  inPhase := {
    phase := h.inPhase.phase
    lt := h.inPhase.lt
    written := h.inPhase.written
    history := by
      show m.history ++ [_] = _
      rw [h.inPhase.history, if_neg hgoing, List.append_nil]
      rfl
    last := fun _ => hlast }
  indexed := {
    best := fun _ => h.indexed.best hinit
    worst := fun _ => h.indexed.worst hinit
    first := fun hst => SimplexState.noConfusion hst
    currIdx := fun hst => by obtain hst | hst := hst <;> cases hst }
  hasNext := h.hasNext

/-! ## The simplex -/

section

variable [LT W] [DecidableLT W]

lemma nemoCompareVertex_spec (hsized : m.Sized n) (hphase : m.InPhase n p) {pivots : ℕ × ℕ}
    (hb : pivots.1 < m.simplexSize) (hw : pivots.2 < m.simplexSize) {i : ℕ} (hi : i < m.simplexSize) :
    ∃ pivots', nemoCompareVertex m pivots i = some pivots' ∧
      pivots'.1 < m.simplexSize ∧ pivots'.2 < m.simplexSize := by
  obtain ⟨perf, hperf⟩ := perfAt_base hsized hphase hi
  obtain ⟨bestPerf, hbest⟩ := perfAt_base hsized hphase hb
  obtain ⟨worstPerf, hworst⟩ := perfAt_base hsized hphase hw
  unfold nemoCompareVertex
  rw [hperf, hbest, hworst]
  refine ⟨_, rfl, ?_, ?_⟩
  · dsimp only
    split_ifs
    · exact hi
    · exact hb
  · dsimp only
    split_ifs
    · exact hi
    · exact hw

/-- The best and the worst vertex are found in range. -/
lemma nemoUpdateIndex_spec (hsized : m.Sized n) (hphase : m.InPhase n p) :
    ∃ b w, nemoUpdateIndex m = some { m with simplexBest := some b, simplexWorst := some w } ∧
      b < m.simplexSize ∧ w < m.simplexSize := by
  obtain ⟨pivots, hfold, hb, hw⟩ := BoundedBuffer.foldlM_spec
    (f := nemoCompareVertex m) (l := List.range' 1 (m.simplexSize - 1))
    (P := fun pivots => pivots.1 < m.simplexSize ∧ pivots.2 < m.simplexSize)
    (fun pivots hpivots i hi => nemoCompareVertex_spec hsized hphase hpivots.1 hpivots.2
      (by have hmem := List.mem_range'_1.mp hi; omega))
    (s := (0, 0)) ⟨hsized.pos, hsized.pos⟩
  unfold nemoUpdateIndex
  rw [hfold]
  exact ⟨_, _, rfl, hb, hw⟩

variable {lib : NemoLib T V W ρ}

/-- With a new centroid the search can reflect or contract. -/
lemma nemoUpdateCentroid_spec (hsized : m.Sized lib.perfCount) (hphase : m.InPhase lib.perfCount p)
    (hgoing : m.state ≠ .converged) (hnext : m.HasNext) :
    ∃ b w c, nemoUpdateCentroid lib m =
        some { m with simplexBest := some b, simplexWorst := some w, centroid := c } ∧
      ∀ st, st = .reflect ∨ st = .contract → (m.turn b w c st).Searching lib.perfCount p := by
  obtain ⟨b, w, hindex, hb, hw⟩ := nemoUpdateIndex_spec hsized hphase
  unfold nemoUpdateCentroid
  rw [hindex]
  refine ⟨b, w, _, rfl, ?_⟩
  intro st hst
  apply Nemo.Searching.turn hsized hphase hgoing hnext _ hb hw hst
  show (List.map _ (List.range lib.perfCount)).length = lib.perfCount
  rw [List.length_map, List.length_range]

/-- The search tries the vertices of the simplex one after the other, and then reflects. -/
lemma nemoNextIndex_spec (h : m.Searching lib.perfCount p) (hst : m.state = .init ∨ m.state = .shrink) :
    ∃ m', nemoNextIndex lib m = some m' ∧ m'.Searching lib.perfCount p ∧ m'.state ≠ .converged := by
  have hgoing : m.state ≠ .converged := by
    obtain hst | hst := hst
    · simp [hst]
    · simp [hst]
  have hsized : Nemo.Sized lib.perfCount { m with currIdx := m.currIdx + 1 } := { h.sized with }
  have hphase : Nemo.InPhase lib.perfCount p { m with currIdx := m.currIdx + 1 } := { h.inPhase with }
  have hidx := h.indexed.currIdx hst
  unfold nemoNextIndex
  dsimp only
  by_cases hfull : m.currIdx + 1 = m.simplexSize
  · obtain ⟨b, w, c, hcentroid, hturn⟩ := nemoUpdateCentroid_spec hsized hphase hgoing h.hasNext
    rw [if_pos hfull, hcentroid]
    exact ⟨_, rfl, hturn _ (.inl rfl), SimplexState.noConfusion⟩
  · rw [if_neg hfull]
    refine ⟨_, rfl, ?_, hgoing⟩
    exact {
      sized := hsized
      inPhase := hphase
      indexed := {
        best := h.indexed.best
        worst := h.indexed.worst
        first := fun _ => show 0 ≤ m.currIdx + 1 by omega
        currIdx := fun _ => show -1 ≤ m.currIdx + 1 ∧ m.currIdx + 1 < m.simplexSize by omega }
      hasNext := h.hasNext }

/-- The centroid of a search that is past the first vertices. -/
lemma nemoUpdateCentroid_searching (h : m.Searching lib.perfCount p) (hgoing : m.state ≠ .converged) :
    ∃ b w c, nemoUpdateCentroid lib m =
        some { m with simplexBest := some b, simplexWorst := some w, centroid := c } ∧
      ∀ st, st = .reflect ∨ st = .contract → (m.turn b w c st).Searching lib.perfCount p :=
  nemoUpdateCentroid_spec h.sized h.inPhase hgoing h.hasNext

lemma nemoReflected_spec (h : m.Searching lib.perfCount p) (hinit : m.state ≠ .init)
    (hgoing : m.state ≠ .converged) (perf : W) :
    ∃ m', nemoReflected lib m perf = some m' ∧ m'.Searching lib.perfCount p ∧ m'.state ≠ .converged := by
  obtain ⟨bestPerf, hbest⟩ := perfAt_best h hinit
  obtain ⟨worstPerf, hworst⟩ := perfAt_worst h hinit
  have hreplaced := h.replaceWorst hinit
  have hstate := m.replaceWorst_state
  unfold nemoReflected
  rw [hbest, hworst, Option.bind_eq_bind, Option.bind_some]
  by_cases hlt : perf < bestPerf
  · rw [if_pos hlt]
    refine ⟨_, rfl, hreplaced.expand ?_ ?_, SimplexState.noConfusion⟩
    · rw [hstate]
      exact hinit
    · rw [hstate]
      exact hgoing
  · rw [if_neg hlt, Option.bind_some]
    by_cases hmid : perf < worstPerf
    · rw [if_pos hmid]
      obtain ⟨b, w, c, hcentroid, hturn⟩ := nemoUpdateCentroid_searching hreplaced
        (by rw [hstate]; exact hgoing)
      rw [hcentroid]
      refine ⟨_, rfl, hturn _ ?_, ?_⟩
      · split_ifs
        · exact .inr rfl
        · exact .inl rfl
      · dsimp only
        split_ifs
        · exact SimplexState.noConfusion
        · exact SimplexState.noConfusion
    · rw [if_neg hmid]
      obtain ⟨b, w, c, hcentroid, hturn⟩ := nemoUpdateCentroid_searching h hgoing
      rw [hcentroid]
      exact ⟨_, rfl, hturn _ (.inr rfl), SimplexState.noConfusion⟩

lemma nemoExpanded_spec (h : m.Searching lib.perfCount p) (hinit : m.state ≠ .init)
    (hgoing : m.state ≠ .converged) (perf : W) :
    ∃ m', nemoExpanded lib m perf = some m' ∧ m'.Searching lib.perfCount p ∧ m'.state ≠ .converged := by
  obtain ⟨bestPerf, hbest⟩ := perfAt_best h hinit
  unfold nemoExpanded
  rw [hbest, Option.bind_eq_bind, Option.bind_some]
  by_cases hlt : perf < bestPerf
  · rw [if_pos hlt]
    obtain ⟨b, w, c, hcentroid, hturn⟩ := nemoUpdateCentroid_searching (h.replaceWorst hinit)
      (by rw [m.replaceWorst_state]; exact hgoing)
    rw [hcentroid]
    exact ⟨_, rfl, hturn _ (.inl rfl), SimplexState.noConfusion⟩
  · rw [if_neg hlt]
    obtain ⟨b, w, c, hcentroid, hturn⟩ := nemoUpdateCentroid_searching h hgoing
    rw [hcentroid]
    exact ⟨_, rfl, hturn _ (.inl rfl), SimplexState.noConfusion⟩

lemma nemoContracted_spec (h : m.Searching lib.perfCount p) (hinit : m.state ≠ .init)
    (hgoing : m.state ≠ .converged) (perf : W) :
    ∃ m', nemoContracted lib m perf = some m' ∧ m'.Searching lib.perfCount p ∧ m'.state ≠ .converged := by
  obtain ⟨worstPerf, hworst⟩ := perfAt_worst h hinit
  unfold nemoContracted
  rw [hworst, Option.bind_eq_bind, Option.bind_some]
  by_cases hlt : perf < worstPerf
  · rw [if_pos hlt]
    obtain ⟨b, w, c, hcentroid, hturn⟩ := nemoUpdateCentroid_searching (h.replaceWorst hinit)
      (by rw [m.replaceWorst_state]; exact hgoing)
    rw [hcentroid]
    exact ⟨_, rfl, hturn _ (.inl rfl), SimplexState.noConfusion⟩
  · rw [if_neg hlt]
    exact ⟨_, rfl, h.shrink hinit hgoing, SimplexState.noConfusion⟩

/-- A transition stays in the phase. -/
lemma nemoStateTransition_spec (h : m.Searching lib.perfCount p) (hgoing : m.state ≠ .converged) :
    ∃ m', nemoStateTransition lib m = some (0, m') ∧ m'.Searching lib.perfCount p ∧
      m'.state ≠ .converged := by
  obtain ⟨next, hnext, hlen⟩ := h.nextVertex
  obtain ⟨perf, hperf⟩ := Vertex.perfAt_of_lt hlen h.inPhase.lt
  rw [← h.inPhase.phase] at hperf
  unfold nemoStateTransition
  rw [hnext, Option.bind_eq_bind, Option.bind_some, hperf, Option.bind_eq_bind, Option.bind_some]
  cases hst : m.state with
  | init =>
    obtain ⟨m', hm', hrest⟩ := nemoNextIndex_spec h (.inl hst)
    exact ⟨m', by rw [hm']; rfl, hrest⟩
  | shrink =>
    obtain ⟨m', hm', hrest⟩ := nemoNextIndex_spec h (.inr hst)
    exact ⟨m', by rw [hm']; rfl, hrest⟩
  | reflect =>
    obtain ⟨m', hm', hrest⟩ := nemoReflected_spec h (by simp [hst]) hgoing perf
    exact ⟨m', by rw [hm']; rfl, hrest⟩
  | expand =>
    obtain ⟨m', hm', hrest⟩ := nemoExpanded_spec h (by simp [hst]) hgoing perf
    exact ⟨m', by rw [hm']; rfl, hrest⟩
  | contract =>
    obtain ⟨m', hm', hrest⟩ := nemoContracted_spec h (by simp [hst]) hgoing perf
    exact ⟨m', by rw [hm']; rfl, hrest⟩
  | converged => exact absurd hst hgoing

end

/-! ## The next phase -/

/-- The thresholds and the history are those for phase `p`, which is next. -/
structure Nemo.Entering (n p : ℕ) (m : Nemo T V W ρ) : Prop where
  phase : m.phase + 1 = p
  lt : p < n
  written : ∀ i, (∃ x, m.thresh[i]? = some (some x)) ↔ i < p
  history : m.history ++ [.phase p] = searchHistory p

lemma Nemo.Entering.inPhase (h : m.Entering n p) (hphase : m'.phase = m.phase + 1)
    (hthresh : m'.thresh = m.thresh) (hhistory : m'.history = m.history ++ [.phase (m.phase + 1)])
    (hgoing : m'.state ≠ .converged) : m'.InPhase n p where
  phase := by rw [hphase, h.phase]
  lt := h.lt
  written := by rw [hthresh]; exact h.written
  history := by rw [if_neg hgoing, List.append_nil, hhistory, h.phase, h.history]
  last := fun hconv => absurd hconv hgoing

/-- A phase that is not the last one has a place for its threshold. -/
lemma nemoThreshold_spec [Add W] [Sub W] [Mul W] (h : m.Searching n p) (hgoing : m.state ≠ .converged)
    (hlast : p + 1 < n) :
    ∃ x, nemoThreshold m =
        some { m with thresh := m.thresh.set p (some x), history := m.history ++ [.threshold p] } ∧
      Nemo.Entering n (p + 1)
        { m with thresh := m.thresh.set p (some x), history := m.history ++ [.threshold p] } := by
  have hsized := h.sized
  obtain ⟨range, hrange⟩ := readAt_of_lt (l := m.range) (i := p) (by rw [hsized.range]; omega)
  obtain ⟨leeway, hleeway⟩ := readAt_of_lt (l := m.leeway) (i := p) (by rw [hsized.leeway]; omega)
  have hroom : p < m.thresh.length := by rw [hsized.thresh]; omega
  refine ⟨range.min + (range.max - range.min) * leeway, ?_, ?_⟩
  · unfold nemoThreshold
    rw [h.inPhase.phase, if_pos (by omega), hrange, hleeway, Option.bind_eq_bind, Option.bind_some,
      Option.bind_eq_bind, Option.bind_some, writeAt_of_lt hroom]
    rfl
  · constructor
    · show m.phase + 1 = _
      rw [h.inPhase.phase]
      omega
    · exact hlast
    · intro i
      show (∃ y, (m.thresh.set p _)[i]? = some (some y)) ↔ _
      by_cases hi : p = i
      · rw [← hi, List.getElem?_set_self hroom]
        exact ⟨fun _ => by omega, fun _ => ⟨_, rfl⟩⟩
      · rw [List.getElem?_set_ne hi, h.inPhase.written i]
        omega
    · show (m.history ++ [_]) ++ [_] = _
      rw [searchHistory_succ, h.inPhase.history, if_neg hgoing, List.append_nil, List.append_assoc]
      rfl

section

variable [LT W] [DecidableLT W] [Top W] {lib : NemoLib T V W ρ}

omit [LT W] [DecidableLT W] in
/-- The initial simplex has a vertex in each place. -/
lemma nemoInitSimplex_spec (lib : NemoLib T V W ρ) (m : Nemo T V W ρ) :
    ∃ ret vs rand, nemoInitSimplex lib m = (ret, { m with init := vs, rand := rand }) ∧
      SimplexSized lib.perfCount m.simplexSize vs := by
  refine ⟨_, _, _, rfl, ?_, ?_⟩
  · rw [List.length_map, List.length_range]
  · intro v hv
    obtain ⟨i, -, rfl⟩ := List.mem_map.mp hv
    exact List.length_replicate

lemma nemoAnchor_spec (lib : NemoLib T V W ρ) (h : m.Sized n) :
    ∃ test base, nemoAnchor lib m = { m with test := test, base := base } ∧
      test.perf.p.length = n ∧ SimplexSized n m.simplexSize base :=
  ⟨_, _, rfl, h.test, h.base.set h.test⟩

omit [LT W] [DecidableLT W] in
lemma Nemo.Sized.reset (h : m.Sized n) (best : HPoint V) :
    Nemo.Sized n { m with bestPerf := hperfReset m.bestPerf, best := best } := by
  refine { h with bestPerf := ?_ }
  show (m.bestPerf.p.map _).length = n
  rw [List.length_map, h.bestPerf]

/-- A phase starts with the vertices of the initial simplex. -/
lemma nemoStartPhase_sized (h : m.Sized n) : (nemoStartPhase lib m).Sized n := by
  have hstart : Nemo.Sized n { m with base := m.init } := { h with base := h.init }
  unfold nemoStartPhase
  dsimp only
  by_cases hbest : m.best.id > 0
  · rw [if_pos hbest]
    by_cases hanchor : m.cfg.anchor = true
    · obtain ⟨test, base, heq, htest, hbase⟩ := nemoAnchor_spec lib hstart
      rw [if_pos hanchor, heq]
      have hanchored : Nemo.Sized n { m with base := base, test := test } :=
        { h with base := hbase, test := htest }
      exact { hanchored.reset { m.best with id := 0 } with }
    · rw [if_neg hanchor]
      exact { hstart.reset { m.best with id := 0 } with }
  · rw [if_neg hbest]
    exact { hstart with }

/-- What a new phase keeps of the search. -/
structure Nemo.Kept (m m' : Nemo T V W ρ) : Prop where
  phase : m'.phase = m.phase
  thresh : m'.thresh = m.thresh
  history : m'.history = m.history
  next : m'.next = m.next
  simplexSize : m'.simplexSize = m.simplexSize

lemma nemoStartPhase_kept (lib : NemoLib T V W ρ) (m : Nemo T V W ρ) : m.Kept (nemoStartPhase lib m) := by
  unfold nemoStartPhase nemoAnchor
  dsimp only
  split_ifs
  · exact ⟨rfl, rfl, rfl, rfl, rfl⟩
  · exact ⟨rfl, rfl, rfl, rfl, rfl⟩
  · exact ⟨rfl, rfl, rfl, rfl, rfl⟩

lemma nemoStartPhase_indexed (h : 0 < m.simplexSize) : (nemoStartPhase lib m).Indexed := by
  constructor
  · intro hst
    exact absurd rfl hst
  · intro hst
    exact absurd rfl hst
  · intro _
    exact le_refl 0
  · intro _
    rw [(nemoStartPhase_kept lib m).simplexSize]
    show -1 ≤ (0 : ℤ) ∧ (0 : ℤ) < m.simplexSize
    omega

end

section

variable [Add W] [Sub W] [Mul W] [LT W] [DecidableLT W] [Top W]
variable {lib : NemoLib T V W ρ} {world : NemoWorld T V W ρ}

/-- The phase is the next one, also when its simplex cannot be made. -/
lemma nemoPhaseIncr_spec (hthresh : nemoThreshold world.plug = some m) (hsized : m.Sized lib.perfCount)
    (henter : m.Entering lib.perfCount p) :
    ∃ ret world', nemoPhaseIncr lib world = some (ret, world') ∧
      (ret = 0 → world'.plug.Sized lib.perfCount ∧ world'.plug.InPhase lib.perfCount p ∧
        world'.plug.Indexed) ∧
      (m.state ≠ .converged → m.Indexed → m.HasNext → world'.plug.Searching lib.perfCount p) := by
  let entered := { m with phase := m.phase + 1, history := m.history ++ [NemoEvent.phase (m.phase + 1)] }
  obtain ⟨ret, vs, rand, hinit, hvs⟩ : ∃ ret vs rand,
      (if entered.cfg.samesimplex then (0, entered) else nemoInitSimplex lib entered) =
        (ret, { entered with init := vs, rand := rand }) ∧
      SimplexSized lib.perfCount entered.simplexSize vs := by
    split_ifs
    · exact ⟨_, _, _, rfl, hsized.init⟩
    · exact nemoInitSimplex_spec lib entered
  have hsized' : Nemo.Sized lib.perfCount { entered with init := vs, rand := rand } :=
    { hsized with init := hvs }
  unfold nemoPhaseIncr
  rw [hthresh, Option.bind_eq_bind, Option.bind_some]
  dsimp only
  generalize sessionSetcfg _ _ _ = out
  obtain ⟨_, world₁⟩ := out
  dsimp only
  rw [hinit]
  dsimp only
  by_cases hret : ret = 0
  · rw [if_neg (by simpa using hret)]
    have hkept := nemoStartPhase_kept lib { entered with init := vs, rand := rand }
    have hphase := henter.inPhase hkept.phase hkept.thresh hkept.history SimplexState.noConfusion
    refine ⟨_, _, rfl, ?_, ?_⟩
    · intro _
      exact ⟨nemoStartPhase_sized hsized', hphase, nemoStartPhase_indexed hsized.pos⟩
    · intro _ _ hnext
      refine ⟨nemoStartPhase_sized hsized', hphase, nemoStartPhase_indexed hsized.pos, ?_⟩
      unfold Nemo.HasNext
      rw [hkept.next, hkept.simplexSize]
      exact hnext
  · rw [if_pos hret]
    refine ⟨_, _, rfl, fun h => absurd h (by decide), ?_⟩
    intro hgoing hindexed hnext
    exact ⟨hsized', henter.inPhase rfl rfl rfl hgoing, { hindexed with }, hnext⟩

end

/-! ## Convergence -/

section

variable [Add W] [Sub W] [Neg W] [Mul W] [Div W] [Zero W] [NatCast W] [LT W] [DecidableLT W] [Top W] [Bot W]
variable {lib : NemoLib T V W ρ} {world : NemoWorld T V W ρ}

omit [Neg W] [Top W] [Bot W] in
lemma nemoHasConverged_spec (h : m.Searching lib.perfCount p) :
    ∃ converged, nemoHasConverged lib m = some converged := by
  obtain ⟨baseVal, hbase⟩ := Vertex.perfAt_of_lt h.sized.centroid h.inPhase.lt
  obtain ⟨fvalErr, hfold, -⟩ := BoundedBuffer.foldlM_spec (f := nemoFvalErr m.phase baseVal) (l := m.base)
    (P := fun _ => True) (s := 0)
    (by
      intro fvalErr _ v hv
      obtain ⟨val, hval⟩ := Vertex.perfAt_of_lt (h.sized.base.2 v hv) h.inPhase.lt
      unfold nemoFvalErr
      rw [h.inPhase.phase, hval]
      exact ⟨_, rfl, trivial⟩) trivial
  rw [← h.inPhase.phase] at hbase
  unfold nemoHasConverged
  by_cases hcollapsed : lib.simplexCollapsed m.base = true
  · rw [if_pos hcollapsed]
    exact ⟨_, rfl⟩
  · rw [if_neg hcollapsed, hbase, Option.bind_eq_bind, Option.bind_some, hfold]
    exact ⟨_, rfl⟩

omit [Neg W] [Bot W] in
lemma nemoCheckConvergence_spec (h : world.plug.Searching lib.perfCount p)
    (hst : world.plug.state = .reflect) :
    ∃ world', nemoCheckConvergence lib world = some world' ∧
      ∃ p', world'.plug.Searching lib.perfCount p' := by
  have hinit : world.plug.state ≠ .init := by simp [hst]
  have hgoing : world.plug.state ≠ .converged := by simp [hst]
  obtain ⟨converged, hconv⟩ := nemoHasConverged_spec h
  unfold nemoCheckConvergence
  dsimp only
  rw [hconv, Option.bind_eq_bind, Option.bind_some]
  by_cases hc : converged = true
  · rw [if_pos hc]
    have hp := h.inPhase.lt
    by_cases hlast : world.plug.phase = lib.perfCount - 1
    · rw [if_pos hlast]
      refine ⟨_, rfl, p, ?_⟩
      rw [sessionSetcfg_plug]
      apply h.converge hinit hgoing
      rw [h.inPhase.phase] at hlast
      omega
    · rw [if_neg hlast]
      have hnext : p + 1 < lib.perfCount := by
        rw [h.inPhase.phase] at hlast
        omega
      obtain ⟨x, hthresh, henter⟩ := nemoThreshold_spec h hgoing hnext
      have hsized : Nemo.Sized lib.perfCount { world.plug with
          thresh := world.plug.thresh.set p (some x),
          history := world.plug.history ++ [.threshold p] } :=
        { h.sized with thresh := by rw [List.length_set, h.sized.thresh] }
      obtain ⟨ret, world', hincr, -, hsearch⟩ := nemoPhaseIncr_spec hthresh hsized henter
      rw [hincr]
      exact ⟨world', rfl, p + 1, hsearch hgoing { h.indexed with } h.hasNext⟩
  · rw [if_neg hc]
    exact ⟨world, rfl, p, h⟩

omit [Neg W] [Bot W] in
lemma nemoCheckReflect_spec (world : NemoWorld T V W ρ) (h : world.plug.Searching lib.perfCount p) :
    ∃ world', nemoCheckReflect lib world = some world' ∧
      ∃ p', world'.plug.Searching lib.perfCount p' := by
  unfold nemoCheckReflect
  by_cases hst : world.plug.state = .reflect
  · rw [if_pos hst]
    exact nemoCheckConvergence_spec h hst
  · rw [if_neg hst]
    exact ⟨world, rfl, p, h⟩

/-! ## The next vertex -/

omit [Add W] [Sub W] [Neg W] [Mul W] [Div W] [Zero W] [NatCast W] [LT W] [DecidableLT W] [Bot W] in
lemma resetPerf_length (v : Vertex T W) : v.resetPerf.perf.p.length = v.perf.p.length := by
  unfold Vertex.resetPerf hperfReset
  exact List.length_map _

omit [Add W] [Sub W] [Neg W] [Mul W] [Div W] [Zero W] [NatCast W] [LT W] [DecidableLT W] [Bot W] in
lemma nemoTransformWorst_spec (hsized : m.Sized n) (hphase : m.InPhase n p) (hindexed : m.Indexed)
    (hinit : m.state ≠ .init) (coefficient : W) :
    ∃ m', m.transformWorst lib coefficient = some m' ∧ m'.Searching n p := by
  obtain ⟨i, hworst, hi⟩ := hindexed.worst hinit
  obtain ⟨v, hv, -⟩ := hsized.base.getElem hi
  have hvertex : m.worstVertex = some v := by
    unfold Nemo.worstVertex
    rw [hworst]
    exact hv
  unfold Nemo.transformWorst
  rw [hvertex, Option.bind_eq_bind, Option.bind_some]
  refine ⟨_, rfl, ?_, { hphase with }, { hindexed with }, .inl rfl⟩
  refine { hsized with test := ?_ }
  show (Vertex.resetPerf _).perf.p.length = n
  rw [resetPerf_length]
  exact hsized.test

omit [Add W] [Sub W] [Neg W] [Mul W] [Div W] [Zero W] [NatCast W] [LT W] [DecidableLT W] [Bot W] in
lemma shrinkSimplex_spec (hsized : m.Sized n) (hphase : m.InPhase n p) (hindexed : m.Indexed)
    (hst : m.state = .shrink) :
    ∃ m', m.shrinkSimplex lib = some m' ∧ m'.Searching n p := by
  have hinit : m.state ≠ .init := by simp [hst]
  have hpos := hsized.pos
  obtain ⟨b, hbest, hb⟩ := hindexed.best hinit
  obtain ⟨v, hv, -⟩ := hsized.base.getElem hb
  unfold Nemo.shrinkSimplex
  rw [hbest, Option.bind_eq_bind, Option.bind_some, hv, Option.bind_eq_bind, Option.bind_some]
  refine ⟨_, rfl, ?_, { hphase with }, ?_, .inr ⟨0, rfl, hpos⟩⟩
  · refine { hsized with base := ⟨?_, ?_⟩ }
    · show (List.mapIdx _ m.base).length = m.simplexSize
      rw [List.length_mapIdx, hsized.base.1]
    · intro u hu
      obtain ⟨i, hi, rfl⟩ := List.mem_mapIdx.mp hu
      have hmem := hsized.base.2 _ (List.getElem_mem hi)
      split_ifs
      · exact hmem
      · rw [resetPerf_length]
        exact hmem
  · constructor
    · intro _
      exact ⟨b, rfl, hb⟩
    · intro _
      exact hindexed.worst hinit
    · intro _
      exact le_refl 0
    · intro _
      show -1 ≤ (0 : ℤ) ∧ (0 : ℤ) < m.simplexSize
      omega

omit [Add W] [Sub W] [Neg W] [Mul W] [Div W] [Zero W] [NatCast W] [LT W] [DecidableLT W] [Top W] [Bot W] in
lemma Nemo.Searching.setNext (hsized : m.Sized n) (hphase : m.InPhase n p) (hindexed : m.Indexed) {i : ℕ}
    (hi : i < m.simplexSize) : (m.setNext i).Searching n p where
  sized := { hsized with }
  inPhase := { hphase with }
  indexed := { hindexed with }
  hasNext := .inr ⟨i, rfl, hi⟩

omit [Add W] [Sub W] [Mul W] [Div W] [Zero W] [NatCast W] [LT W] [DecidableLT W] [Bot W] in
/-- There is a next vertex in every state. -/
lemma nemoNextVertex_spec (lib : NemoLib T V W ρ) (hsized : m.Sized n) (hphase : m.InPhase n p)
    (hindexed : m.Indexed) :
    ∃ m', nemoNextVertex lib m = some m' ∧ m'.Searching n p := by
  unfold nemoNextVertex
  cases hst : m.state with
  | init =>
    have hidx := hindexed.currIdx (.inl hst)
    have hfirst := hindexed.first hst
    exact ⟨_, rfl, .setNext hsized hphase hindexed (by omega)⟩
  | reflect => exact nemoTransformWorst_spec hsized hphase hindexed (by simp [hst]) _
  | expand => exact nemoTransformWorst_spec hsized hphase hindexed (by simp [hst]) _
  | contract => exact nemoTransformWorst_spec hsized hphase hindexed (by simp [hst]) _
  | shrink =>
    have hidx := hindexed.currIdx (.inr hst)
    dsimp only
    by_cases hbegin : m.currIdx = -1
    · rw [if_pos hbegin]
      exact shrinkSimplex_spec hsized hphase hindexed hst
    · rw [if_neg hbegin]
      exact ⟨_, rfl, .setNext hsized hphase hindexed (by omega)⟩
  | converged =>
    obtain ⟨b, hbest, hb⟩ := hindexed.best (by simp [hst])
    dsimp only
    rw [hbest]
    exact ⟨_, rfl, .setNext hsized hphase hindexed hb⟩

/-! ## The algorithm -/

omit [Bot W] in
/-- A round of the loop ends in a phase. -/
lemma nemoAlgorithm_spec (world : NemoWorld T V W ρ) (fuel : ℕ) (h : world.plug.Searching lib.perfCount p) :
    ∃ ret world', nemoAlgorithm lib fuel world = some (ret, world') ∧
      ∃ p', world'.plug.Searching lib.perfCount p' := by
  induction fuel generalizing world p with
  | zero => exact ⟨_, _, rfl, p, h⟩
  | succ fuel ih =>
    unfold nemoAlgorithm
    by_cases hconv : world.plug.state = .converged
    · rw [if_pos hconv]
      exact ⟨_, _, rfl, p, h⟩
    · obtain ⟨m, hstep, hm, -⟩ := nemoStateTransition_spec h hconv
      obtain ⟨world₁, hcheck, p₁, hworld₁⟩ := nemoCheckReflect_spec { world with plug := m } hm
      obtain ⟨m₂, hnext, hm₂⟩ :=
        nemoNextVertex_spec lib hworld₁.sized hworld₁.inPhase hworld₁.indexed
      obtain ⟨next, hvertex, -⟩ := hm₂.nextVertex
      rw [if_neg hconv, hstep, Option.bind_eq_bind, Option.bind_some]
      dsimp only
      rw [if_neg (by decide), hcheck, Option.bind_eq_bind, Option.bind_some, hnext, Option.bind_eq_bind,
        Option.bind_some, hvertex, Option.bind_eq_bind, Option.bind_some]
      by_cases hout : lib.vertexOutofbounds next.term = true
      · rw [if_pos hout]
        exact ih { world₁ with plug := m₂ } hm₂
      · rw [if_neg hout]
        exact ⟨_, _, rfl, p₁, hm₂⟩

/-! ## `strategy_init` -/

omit [Add W] [Sub W] [Neg W] [Mul W] [Div W] [Zero W] [NatCast W] [LT W] [DecidableLT W] [Top W] [Bot W] in
lemma parseLeeway_length {strtod : Bytes → W × Bytes} {k : ℕ} {endp cfgval : Bytes} {leeway : List W}
    (h : parseLeeway strtod k endp cfgval = .ok leeway) : leeway.length = k := by
  induction k generalizing endp cfgval leeway with
  | zero =>
    cases h
    rfl
  | succ k ih =>
    unfold parseLeeway at h
    split_ifs at h
    dsimp only at h
    split_ifs at h
    cases hrest : parseLeeway strtod k (strtod cfgval).2
        ((strtod cfgval).2.dropWhile fun c => TextScan.isSpace c || c == 44) with
    | error msg =>
      rw [hrest] at h
      cases h
    | ok rest =>
      rw [hrest] at h
      cases h
      rw [List.length_cons, ih hrest]

omit [Add W] [Sub W] [Neg W] [Mul W] [Zero W] [LT W] [DecidableLT W] [Top W] [Bot W] in
lemma nemoLeeway_length {cfg : Hcfg} {leeway : List W} (h : nemoLeeway lib cfg = .ok leeway) :
    leeway.length = lib.perfCount - 1 := by
  unfold nemoLeeway at h
  cases hget : hcfgGet cfg (cstr "NEMO_LEEWAY") with
  | none =>
    rw [hget] at h
    cases h
    exact List.length_replicate
  | some cfgval =>
    rw [hget] at h
    exact parseLeeway_length h

omit [Add W] [Sub W] [Neg W] [Mul W] [Div W] [Zero W] [NatCast W] [LT W] [DecidableLT W] [Top W] [Bot W] in
lemma nemoSimplexSize_pos (cfg : Hcfg) (simplexSize : ℕ) : 0 < nemoSimplexSize lib cfg simplexSize := by
  unfold nemoSimplexSize
  dsimp only
  split_ifs <;> omega

/-- The program has just started: no `strategy_init` has run. -/
structure Nemo.Fresh (m : Nemo T V W ρ) : Prop where
  phase : m.phase = -1
  history : m.history = []

omit [Add W] [Sub W] [Neg W] [Mul W] [Zero W] [LT W] [DecidableLT W] in
lemma nemoBase_sized {cfg : NemoCfg W} {leeway : List W} {vs : List (Vertex T W)} {rand : ρ}
    (hleeway : nemoLeeway lib world.cfg = .ok leeway)
    (hvs : SimplexSized lib.perfCount (nemoAlloc lib world cfg leeway).simplexSize vs) :
    (nemoBase lib { nemoAlloc lib world cfg leeway with init := vs, rand := rand }).Sized lib.perfCount where
  pos := nemoSimplexSize_pos _ _
  thresh := List.length_replicate
  leeway := nemoLeeway_length hleeway
  range := List.length_replicate
  bestPerf := List.length_replicate
  base := by
    refine ⟨(List.length_map _).trans hvs.1, ?_⟩
    intro v hv
    obtain ⟨u, -, rfl⟩ := List.mem_map.mp hv
    exact List.length_replicate
  init := hvs
  test := List.length_replicate
  centroid := List.length_replicate

omit [Add W] [Sub W] [Neg W] [Mul W] [Div W] [Zero W] [NatCast W] [LT W] [DecidableLT W] in
lemma nemoBase_entering (hn : 0 < lib.perfCount) (hfresh : world.plug.Fresh) (cfg : NemoCfg W)
    (leeway : List W) (vs : List (Vertex T W)) (rand : ρ) :
    (nemoBase lib { nemoAlloc lib world cfg leeway with init := vs, rand := rand }).Entering
      lib.perfCount 0 where
  phase := by
    show world.plug.phase + 1 = _
    rw [hfresh.phase]
    rfl
  lt := hn
  written := by
    intro i
    refine ⟨?_, fun hi => absurd hi (Nat.not_lt_zero i)⟩
    intro hsome
    obtain ⟨x, hx⟩ := hsome
    -- No threshold has a value yet.
    have hmem : some x ∈ List.replicate (lib.perfCount - 1) (none : Option W) := List.mem_of_getElem? hx
    cases List.eq_of_mem_replicate hmem
  history := by
    show (world.plug.history ++ [_]) ++ [_] = _
    rw [hfresh.history]
    rfl

omit [Div W] [Zero W] [NatCast W] [Bot W] in
/-- The search begins in the phase 0. -/
lemma nemoBegin_spec (hsized : world.plug.Sized lib.perfCount)
    (henter : world.plug.Entering lib.perfCount 0) :
    ∃ ret world', nemoBegin lib world = some (ret, world') ∧
      (ret = 0 → world'.plug.Searching lib.perfCount 0) := by
  have hplug := sessionSetcfg_plug world cfgkeyStrategyConverged (cstr "0")
  unfold nemoBegin
  generalize sessionSetcfg world cfgkeyStrategyConverged (cstr "0") = out at hplug
  obtain ⟨ret, world₁⟩ := out
  dsimp only at hplug ⊢
  by_cases hret : ret = 0
  · rw [if_neg (by simpa using hret)]
    have hthresh : nemoThreshold world₁.plug = some world.plug := by
      have hphase := henter.phase
      rw [hplug]
      exact if_neg (by omega)
    obtain ⟨ret₂, world₂, hincr, hzero, -⟩ := nemoPhaseIncr_spec hthresh hsized henter
    rw [hincr, Option.bind_eq_bind, Option.bind_some]
    dsimp only
    by_cases hret₂ : ret₂ = 0
    · obtain ⟨hsized₂, hphase₂, hindexed₂⟩ := hzero hret₂
      obtain ⟨m, hnext, hm⟩ := nemoNextVertex_spec lib hsized₂ hphase₂ hindexed₂
      rw [if_neg (by simpa using hret₂), hnext]
      exact ⟨_, _, rfl, fun _ => hm⟩
    · rw [if_pos hret₂]
      exact ⟨_, _, rfl, fun h => absurd h (by decide)⟩
  · rw [if_pos hret]
    exact ⟨_, _, rfl, fun h => absurd h (by decide)⟩

omit [Zero W] in
/-- The first `strategy_init` enters the phase 0, or fails. -/
lemma nemoInit_spec (hn : 0 < lib.perfCount) (hfresh : world.plug.Fresh) :
    ∃ ret world', nemoInit lib world = some (ret, world') ∧
      (ret = 0 → world'.plug.Searching lib.perfCount 0) := by
  unfold nemoInit
  cases hcfg : lib.strategyCfg world.cfg with
  | error msg => exact ⟨_, _, rfl, fun h => absurd h (by decide)⟩
  | ok cfg =>
    cases hleeway : nemoLeeway lib world.cfg with
    | error msg => exact ⟨_, _, rfl, fun h => absurd h (by decide)⟩
    | ok leeway =>
      obtain ⟨ret, vs, rand, hinit, hvs⟩ := nemoInitSimplex_spec lib (nemoAlloc lib world cfg leeway)
      dsimp only
      rw [hinit]
      dsimp only
      by_cases hret : ret = 0
      · rw [if_neg (by simpa using hret)]
        exact nemoBegin_spec (nemoBase_sized hleeway hvs) (nemoBase_entering hn hfresh cfg leeway vs rand)
      · rw [if_pos hret]
        exact ⟨_, _, rfl, fun h => absurd h (by decide)⟩

/-! ## Points and results -/

omit [Add W] [Sub W] [Neg W] [Mul W] [Div W] [Zero W] [NatCast W] [LT W] [DecidableLT W] [Top W] [Bot W] in
/-- A write through `next` keeps the search, if it keeps the number of performances. -/
lemma Nemo.Searching.modifyNext (h : m.Searching n p) {f : Vertex T W → Vertex T W}
    (hf : ∀ v, v.perf.p.length = n → (f v).perf.p.length = n) : (m.modifyNext f).Searching n p := by
  have htest := hf m.test h.sized.test
  obtain hnext | ⟨i, hnext, -⟩ := h.hasNext
  · have heq : m.modifyNext f = { m with test := f m.test } := by
      unfold Nemo.modifyNext
      rw [hnext]
    rw [heq]
    exact ⟨{ h.sized with test := htest }, { h.inPhase with }, { h.indexed with }, h.hasNext⟩
  · have heq : m.modifyNext f = { m with base := m.base.modify i f } := by
      unfold Nemo.modifyNext
      rw [hnext]
    rw [heq]
    refine ⟨{ h.sized with base := ⟨?_, ?_⟩ }, { h.inPhase with }, { h.indexed with }, h.hasNext⟩
    · show (m.base.modify i f).length = m.simplexSize
      rw [List.length_modify, h.sized.base.1]
    · exact ListModify.forall_mem h.sized.base.2 hf

omit [Add W] [Sub W] [Neg W] [Mul W] [Div W] [Zero W] [NatCast W] [LT W] [DecidableLT W] [Top W] [Bot W] in
lemma nemoGenerate_spec (lib : NemoLib T V W ρ) (h : world.plug.Searching n p) (flow : Flow V)
    (point : HPoint V) :
    ∃ out, nemoGenerate lib world flow point = some out ∧ out.2.1.plug.Searching n p := by
  obtain ⟨next, hnext, -⟩ := h.nextVertex
  unfold nemoGenerate
  dsimp only
  rw [hnext, Option.bind_eq_bind, Option.bind_some]
  by_cases hid : next.id = world.plug.nextId
  · rw [if_pos hid]
    exact ⟨_, rfl, h⟩
  · rw [if_neg hid]
    exact ⟨_, rfl, h.modifyNext fun v hv => hv⟩

omit [Bot W] in
/-- The penalty is written to each of the performances. -/
lemma nemoRejected_spec (h : world.plug.Searching lib.perfCount p) (fuel : ℕ) (flow : Flow V)
    (point : HPoint V) :
    ∃ out, nemoRejected lib fuel world flow point = some out ∧
      ∃ p', out.2.1.plug.Searching lib.perfCount p' := by
  obtain ⟨next, hnext, hlen⟩ := h.nextVertex
  obtain ⟨perf, hfold, hperf⟩ := BoundedBuffer.foldlM_spec
    (f := fun (perf : List W) (i : ℕ) => writeAt perf i ⊤) (l := List.range lib.perfCount)
    (P := fun perf => perf.length = lib.perfCount) (s := next.perf.p)
    (by
      intro perf hperf i hi
      have hlt : i < perf.length := by
        rw [hperf]
        exact List.mem_range.mp hi
      exact ⟨_, writeAt_of_lt hlt _, List.length_set.trans hperf⟩) hlen
  unfold nemoRejected
  dsimp only
  rw [hnext, Option.bind_eq_bind, Option.bind_some]
  by_cases hhint : flow.point.id = -1
  · rw [if_neg (by simpa using hhint)]
    cases hmethod : world.plug.cfg.rejectType with
    | penalty =>
      have hpenalty := h.modifyNext (f := fun v => { v with perf := { p := perf } }) fun v _ => hperf
      obtain ⟨ret, world₁, halg, p₁, hworld₁⟩ := nemoAlgorithm_spec
        { world with plug := world.plug.modifyNext fun v => { v with perf := { p := perf } } } fuel hpenalty
      dsimp only
      rw [hfold, Option.bind_eq_bind, Option.bind_some, halg, Option.bind_eq_bind, Option.bind_some]
      dsimp only
      by_cases hret : ret = 0
      · rw [if_neg (by simpa using hret)]
        have hnumbered := hworld₁.modifyNext
          (f := fun v => { v with id := world₁.plug.nextId }) fun v hv => hv
        obtain ⟨next₁, hnext₁, -⟩ := hnumbered.nextVertex
        rw [hnext₁]
        exact ⟨_, rfl, p₁, hnumbered⟩
      · rw [if_pos hret]
        exact ⟨_, rfl, p₁, hworld₁⟩
    | random =>
      refine ⟨_, rfl, p, ?_⟩
      have hrand : Nemo.Searching lib.perfCount p
          { world.plug with rand := (lib.vertexRand world.plug.rand).2 } :=
        ⟨{ h.sized with }, { h.inPhase with }, { h.indexed with }, h.hasNext⟩
      apply hrand.modifyNext
      intro v hv
      rw [resetPerf_length]
      exact hv
  · rw [if_pos hhint]
    exact ⟨_, rfl, p, h.modifyNext fun v hv => hv⟩

omit [Add W] [Sub W] [Neg W] [Mul W] [Div W] [Zero W] [NatCast W] [Bot W] in
lemma nemoObserve_spec (next : Vertex T W) (hnext : next.perf.p.length = n) {range : List (ValueRange W)}
    (hrange : range.length = n) {i : ℕ} (hi : i < n) :
    ∃ range', nemoObserve next range i = some range' ∧ range'.length = n := by
  obtain ⟨perf, hperf⟩ := Vertex.perfAt_of_lt hnext hi
  obtain ⟨r, hr⟩ := readAt_of_lt (l := range) (i := i) (by rw [hrange]; exact hi)
  unfold nemoObserve
  rw [hperf, Option.bind_eq_bind, Option.bind_some, hr, Option.bind_eq_bind, Option.bind_some]
  dsimp only
  rw [writeAt_of_lt (by rw [hrange]; exact hi)]
  exact ⟨_, rfl, List.length_set.trans hrange⟩

omit [Neg W] [Zero W] [Top W] [Bot W] in
/-- The thresholds of the phases before have their values. -/
lemma nemoMissed_spec (h : m.Searching n p) (next : Vertex T W) (hnext : next.perf.p.length = n) {i : ℕ}
    (hi : i < p) (sum : W × W) : ∃ sum', nemoMissed m next sum i = some sum' := by
  have hlt : i < n := lt_trans hi h.inPhase.lt
  obtain ⟨perf, hperf⟩ := Vertex.perfAt_of_lt hnext hlt
  obtain ⟨x, hx⟩ := (h.inPhase.written i).mpr hi
  obtain ⟨r, hr⟩ := readAt_of_lt (l := m.range) (i := i) (by rw [h.sized.range]; exact hlt)
  unfold nemoMissed
  rw [hperf, Option.bind_eq_bind, Option.bind_some, readAt_natCast, hx, Option.join_some,
    Option.bind_eq_bind, Option.bind_some, hr]
  exact ⟨_, rfl⟩

omit [Neg W] [Div W] [Top W] [Bot W] in
lemma nemoPenalize_spec (h : m.Searching n p) (next : Vertex T W) (hnext : next.perf.p.length = n)
    (penalty : W) : ∃ next', nemoPenalize m next penalty = some next' ∧ next'.perf.p.length = n := by
  obtain ⟨perf, hperf⟩ := Vertex.perfAt_of_lt hnext h.inPhase.lt
  obtain ⟨r, hr⟩ := readAt_of_lt (l := m.range) (i := p) (by rw [h.sized.range]; exact h.inPhase.lt)
  unfold nemoPenalize
  by_cases hpos : 0 < penalty
  · rw [if_pos hpos, h.inPhase.phase, hr, Option.bind_eq_bind, Option.bind_some, hperf,
      Option.bind_eq_bind, Option.bind_some, writeAt_of_lt (by rw [hnext]; exact h.inPhase.lt)]
    exact ⟨_, rfl, List.length_set.trans hnext⟩
  · rw [if_neg hpos]
    exact ⟨_, rfl, hnext⟩

omit [Add W] [Sub W] [Neg W] [Mul W] [Div W] [Zero W] [NatCast W] [Top W] [Bot W] in
lemma nemoUpdateBest_spec (h : m.Searching n p) {next : Vertex T W} (hnext : next.perf.p.length = n)
    (point : HPoint V) : ∃ m', nemoUpdateBest m next point = some m' ∧ m'.Searching n p := by
  obtain ⟨perf, hperf⟩ := Vertex.perfAt_of_lt hnext h.inPhase.lt
  obtain ⟨bestPerf, hbest⟩ := readAt_of_lt (l := m.bestPerf.p) (i := p)
    (by rw [h.sized.bestPerf]; exact h.inPhase.lt)
  rw [← h.inPhase.phase] at hperf hbest
  unfold nemoUpdateBest
  rw [hbest, Option.bind_eq_bind, Option.bind_some, hperf]
  refine ⟨_, rfl, ?_⟩
  split_ifs
  · exact ⟨{ h.sized with bestPerf := hnext }, { h.inPhase with }, { h.indexed with }, h.hasNext⟩
  · exact h

omit [Bot W] in
/-- An analysis reads the range, the threshold and the performance of a phase only where they are. -/
lemma nemoAnalyze_spec (h : world.plug.Searching lib.perfCount p) (fuel : ℕ) {trial : HTrial V W}
    (htrial : trial.perf.p.length = lib.perfCount) :
    ∃ ret world', nemoAnalyze lib fuel world trial = some (ret, world') ∧
      ∃ p', world'.plug.Searching lib.perfCount p' := by
  obtain ⟨next, hnext, -⟩ := h.nextVertex
  unfold nemoAnalyze
  dsimp only
  rw [hnext, Option.bind_eq_bind, Option.bind_some]
  by_cases hid : trial.point.id ≠ next.id
  · rw [if_pos hid]
    exact ⟨_, _, rfl, p, h⟩
  · rw [if_neg hid]
    -- The observed ranges.
    obtain ⟨range, hobserve, hrange⟩ := BoundedBuffer.foldlM_spec
      (f := nemoObserve { next with perf := trial.perf }) (l := List.range lib.perfCount)
      (P := fun range => range.length = lib.perfCount) (s := world.plug.range)
      (fun range hrange i hi => nemoObserve_spec { next with perf := trial.perf } htrial hrange
        (List.mem_range.mp hi)) h.sized.range
    have hranged : Nemo.Searching lib.perfCount p { world.plug with range := range } :=
      ⟨{ h.sized with range := hrange }, { h.inPhase with }, { h.indexed with }, h.hasNext⟩
    -- The penalty.
    obtain ⟨sum, hmissed, -⟩ := BoundedBuffer.foldlM_spec
      (f := nemoMissed { world.plug with range := range } { next with perf := trial.perf })
      (l := (List.range world.plug.phase.toNat).reverse) (P := fun _ => True) (s := (0, ((1 : ℕ) : W)))
      (by
        intro sum _ i hi
        have hlt : i < p := by
          have hmem := List.mem_range.mp (List.mem_reverse.mp hi)
          rw [h.inPhase.phase] at hmem
          exact hmem
        obtain ⟨sum', hsum⟩ := nemoMissed_spec hranged { next with perf := trial.perf } htrial hlt sum
        exact ⟨sum', hsum, trivial⟩) trivial
    obtain ⟨next₁, hpenalize, hnext₁⟩ := nemoPenalize_spec hranged
      { next with perf := trial.perf } htrial sum.1
    have hwritten := hranged.modifyNext (f := fun v => { v with perf := next₁.perf }) fun v _ => hnext₁
    obtain ⟨m, hbest, hm⟩ := nemoUpdateBest_spec hwritten hnext₁ trial.point
    obtain ⟨ret, world₁, halg, p₁, hworld₁⟩ := nemoAlgorithm_spec { world with plug := m } fuel hm
    rw [hobserve, Option.bind_eq_bind, Option.bind_some, hmissed, Option.bind_eq_bind, Option.bind_some,
      hpenalize, Option.bind_eq_bind, Option.bind_some, hbest, Option.bind_eq_bind, Option.bind_some,
      halg, Option.bind_some]
    dsimp only
    by_cases hret : ret = 0
    · rw [if_neg (by simpa using hret)]
      refine ⟨_, _, rfl, p₁, ?_⟩
      dsimp only
      split_ifs
      · exact ⟨{ hworld₁.sized with }, { hworld₁.inPhase with }, { hworld₁.indexed with }, hworld₁.hasNext⟩
      · exact hworld₁
    · rw [if_pos hret]
      exact ⟨_, _, rfl, p₁, hworld₁⟩

/-! ## Runs -/

/-- The trials of a session have performances for its objectives. -/
def NemoCall.Sized (n : ℕ) : NemoCall V W → Prop
  | .analyze _ trial => trial.perf.p.length = n
  | _ => True

/-- A call of a running session stays within the vectors. -/
lemma nemoCall_spec (h : world.plug.Searching lib.perfCount p) {call : NemoCall V W}
    (hinit : call.IsInit = false) (hcall : call.Sized lib.perfCount) :
    ∃ ret world', nemoCall lib world call = some (ret, world') ∧
      ∃ p', world'.plug.Searching lib.perfCount p' := by
  cases call with
  | init => cases hinit
  | generate flow point =>
    obtain ⟨out, hout, hsearch⟩ := nemoGenerate_spec lib h flow point
    unfold nemoCall
    dsimp only
    rw [hout]
    exact ⟨_, _, rfl, p, hsearch⟩
  | rejected fuel flow point =>
    obtain ⟨out, hout, hsearch⟩ := nemoRejected_spec h fuel flow point
    unfold nemoCall
    dsimp only
    rw [hout]
    exact ⟨_, _, rfl, hsearch⟩
  | analyze fuel trial => exact nemoAnalyze_spec h fuel hcall
  | best point => exact ⟨_, _, rfl, p, h⟩

lemma nemoCalls_spec {calls : List (NemoCall V W)} (h : world.plug.Searching lib.perfCount p)
    (hinit : ∀ call ∈ calls, call.IsInit = false) (hcalls : ∀ call ∈ calls, call.Sized lib.perfCount) :
    ∃ world', nemoCalls lib world calls = some (true, world') ∧
      ∃ p', world'.plug.Searching lib.perfCount p' := by
  induction calls generalizing world p with
  | nil => exact ⟨world, rfl, p, h⟩
  | cons call calls ih =>
    obtain ⟨ret, world₁, hcall, p₁, hworld₁⟩ := nemoCall_spec h (hinit call List.mem_cons_self)
      (hcalls call List.mem_cons_self)
    have hnot : ¬ (call.IsInit = true ∧ ret ≠ 0) := by
      rw [hinit call List.mem_cons_self]
      simp
    unfold nemoCalls
    rw [hcall, Option.bind_eq_bind, Option.bind_some]
    dsimp only
    rw [if_neg hnot]
    exact ih hworld₁ (fun call hmem => hinit call (List.mem_cons_of_mem _ hmem))
      (fun call hmem => hcalls call (List.mem_cons_of_mem _ hmem))

/-- A session that calls `strategy_init` only at its start goes through the phases in order, makes no access
out of range, and is over only after the last phase. -/
theorem nemo_run_phases (lib : NemoLib T V W ρ) (world : NemoWorld T V W ρ) (calls : List (NemoCall V W))
    (hn : 0 < lib.perfCount) (hfresh : world.plug.Fresh) (hinit : ∀ call ∈ calls, call.IsInit = false)
    (hcalls : ∀ call ∈ calls, call.Sized lib.perfCount) :
    ∃ alive world', nemoCalls lib world (.init :: calls) = some (alive, world') ∧
      (alive = true → ∃ p, world'.plug.InPhase lib.perfCount p) := by
  obtain ⟨ret, world₁, hstart, hzero⟩ := nemoInit_spec hn hfresh
  have hrun : nemoCalls lib world (.init :: calls) =
      if ret ≠ 0 then some (false, world₁) else nemoCalls lib world₁ calls := by
    simp only [nemoCalls, nemoCall, hstart, NemoCall.IsInit, Option.bind_eq_bind, Option.bind_some, true_and]
  rw [hrun]
  by_cases hret : ret = 0
  · rw [if_neg (by simpa using hret)]
    obtain ⟨world', hrest, p, hsearch⟩ := nemoCalls_spec (hzero hret) hinit hcalls
    exact ⟨true, world', hrest, fun _ => ⟨p, hsearch.inPhase⟩⟩
  · rw [if_pos hret]
    exact ⟨false, world₁, rfl, fun h => absurd h Bool.false_ne_true⟩

end

/-- One variable from 0 to 4, a simplex of its bounds, and `n` objectives. -/
def oneVariable (n : ℕ) : NemoLib (XReal ℚ) (XReal ℚ) (XReal ℚ) Unit where
  strategyCfg := fun _ => .ok {
    rejectType := .penalty, reflect := .fin 1, expand := .fin 2, contract := .fin (1 / 2)
    shrink := .fin (1 / 2), fvalTol := .fin 100, sizeTol := .fin 5
    loose := false, mult := .fin 1, anchor := true, samesimplex := true }
  strtod := fun _ => (.fin 0, [])
  rangeLen := 1
  perfCount := n
  initSimplex := fun _ _ _ => (0, fun i => .fin (4 * i), ())
  vertexRand := fun _ => (.fin 2, ())
  vertexToHpoint := fun term => [.real term]
  vertexFromHpoint := fun vals => match vals with
    | .real r :: _ => r
    | _ => .fin 0
  vertexTransform := fun src wrt c => c * src + (.fin 1 - c) * wrt
  vertexOutofbounds := fun term => decide (term < .fin 0) || decide (.fin 4 < term)
  vertexDist := fun v w => if v < w then w - v else v - w
  simplexCentroid := fun vs =>
    ((vs.map Vertex.term).foldl (· + ·) 0 / vs.length,
      fun i => (vs.map fun v => v.perf.p.getD i 0).foldl (· + ·) 0 / vs.length)
  simplexCollapsed := fun vs => (vs.map Vertex.term).all fun term => term = ((vs.map Vertex.term).headD 0)
  stale := 0

/-- The session when `nemo.so` is loaded. -/
def oneVariableLoaded : NemoWorld (XReal ℚ) (XReal ℚ) (XReal ℚ) Unit where
  plug := {
    best := hpointInitializer _, bestPerf := { p := [] }
    cfg := {
      rejectType := .penalty, reflect := .fin 1, expand := .fin 2, contract := .fin (1 / 2)
      shrink := .fin (1 / 2), fvalTol := .fin 0, sizeTol := .fin 0
      loose := false, mult := .fin 0, anchor := false, samesimplex := false }
    simplexSize := 0, state := .init
    centroid := { id := 0, perf := { p := [] }, term := .fin 0 }
    test := { id := 0, perf := { p := [] }, term := .fin 0 }
    base := [], init := [], next := none, phase := -1, simplexBest := none, simplexWorst := none
    currIdx := 0, nextId := 0, thresh := [], range := [], leeway := [], rand := (), history := [] }
  cfg := hcfgAlloc
  errmsg := none

/-- A point is sent, and its result comes back. -/
def roundTrip (id : ℤ) (perf : List (XReal ℚ)) : List (NemoCall (XReal ℚ) (XReal ℚ)) :=
  [.generate { status := .accept, point := hpointInitializer _ } (hpointInitializer _),
    .analyze 5 { point := { id := id, val := [] }, perf := { p := perf } }]

/-- A search for two objectives that converges in both phases. -/
def twoPhases : List (NemoCall (XReal ℚ) (XReal ℚ)) :=
  roundTrip 1 [.fin 3, .fin 1] ++ roundTrip 2 [.fin 5, .fin 2] ++ roundTrip 3 [.fin 3, .fin 1] ++
    roundTrip 4 [.fin 5, .fin 2]

theorem nemo_run_phases_two_objectives : ∃ world,
    nemoCalls (oneVariable 2) oneVariableLoaded (.init :: twoPhases) = some (true, world) ∧
      world.plug.InPhase 2 1 ∧ world.plug.state = .converged := by
  have hrun : (nemoCalls (oneVariable 2) oneVariableLoaded (.init :: twoPhases)).map
      (fun out => (out.1, out.2.plug.phase, out.2.plug.state)) = some (true, 1, .converged) := by
    decide +kernel
  obtain ⟨alive, world, hcalls, hphase⟩ := nemo_run_phases (oneVariable 2) oneVariableLoaded
    twoPhases (by decide) ⟨rfl, rfl⟩ (by simp [twoPhases, roundTrip, NemoCall.IsInit])
    (by simp [twoPhases, roundTrip, NemoCall.Sized, oneVariable])
  rw [hcalls] at hrun
  simp only [Option.map_some, Option.some.injEq, Prod.mk.injEq] at hrun
  obtain ⟨halive, hone, hconv⟩ := hrun
  obtain ⟨p, hp⟩ := hphase halive
  have hp₁ : p = 1 := by
    have heq := hp.phase
    omega
  rw [hp₁] at hp
  rw [halive] at hcalls
  exact ⟨world, hcalls, hp, hconv⟩

/-- With one objective there is no threshold for the phase that a restart leaves. -/
theorem nemo_restart_out_of_range :
    (nemoCalls (oneVariable 1) oneVariableLoaded [.init]).map (fun out => (out.1, out.2.plug.phase)) =
        some (true, 0) ∧
      nemoCalls (oneVariable 1) oneVariableLoaded [.init, .init] = none := by
  refine ⟨by decide +kernel, ?_⟩
  have hnone : (nemoCalls (oneVariable 1) oneVariableLoaded [.init, .init]).isNone = true := by
    decide +kernel
  exact Option.isNone_iff_eq_none.mp hnone

end ActiveHarmony

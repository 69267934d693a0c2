import ActiveHarmony.Strategy.NelderMead
import Mathlib.Algebra.Order.BigOperators.Group.List
import Mathlib.Algebra.Order.Field.Basic
import Mathlib.Algebra.Order.Monoid.Unbundled.WithTop
import Mathlib.Algebra.Order.Pi
import Mathlib.Analysis.Convex.Basic

/-!
# Vertices with exact arithmetic

The functions of `libvertex.c` that move vertices, over an ordered field. The largest values of the
variables, `vmax`, are data. What stays within bounds stays so under a contraction towards a vertex within
bounds, and the mean of vertices within bounds is within bounds.
-/

namespace ActiveHarmony

/-! ## Points of a box -/

section Box

variable {ι R : Type} [Field R] [LinearOrder R] [IsStrictOrderedRing R] {lo hi : ι → R}

lemma combination_mem {src wrt : ι → R} (hsrc : src ∈ Set.Icc lo hi) (hwrt : wrt ∈ Set.Icc lo hi) {c : R}
    (hc : 0 ≤ c) (hc' : c ≤ 1) : (fun i => c * src i + (1 - c) * wrt i) ∈ Set.Icc lo hi :=
  (convex_Icc lo hi : Convex R _) hsrc hwrt hc (sub_nonneg.mpr hc') (add_sub_cancel c 1)

variable (lo hi) in
lemma mean_mem {points : List (ι → R)} (hne : points ≠ []) (h : ∀ t ∈ points, t ∈ Set.Icc lo hi) :
    (fun i => (points.map fun t => t i).sum / points.length) ∈ Set.Icc lo hi := by
  have hpos : (0 : R) < points.length := by
    exact_mod_cast List.length_pos_iff.mpr hne
  constructor
  · intro i
    have hsum := List.card_nsmul_le_sum (points.map fun t => t i) (lo i) (by
      intro x hx
      obtain ⟨t, ht, rfl⟩ := List.mem_map.mp hx
      exact (h t ht).1 i)
    rw [List.length_map, nsmul_eq_mul] at hsum
    show lo i ≤ _ / _
    rw [le_div_iff₀ hpos, mul_comm]
    exact hsum
  · intro i
    have hsum := List.sum_le_card_nsmul (points.map fun t => t i) (hi i) (by
      intro x hx
      obtain ⟨t, ht, rfl⟩ := List.mem_map.mp hx
      exact (h t ht).2 i)
    rw [List.length_map, nsmul_eq_mul] at hsum
    show _ / _ ≤ hi i
    rw [div_le_iff₀ hpos, mul_comm]
    exact hsum

end Box

/-! ## Comparing performances -/

section

variable {W : Type} [Add W] [Zero W] [LinearOrder W] {a b : HPerf W}

lemma hperfCmp_neg (hlen : a.p.length = b.p.length) : hperfCmp a b < 0 ↔ hperfUnify a < hperfUnify b := by
  unfold hperfCmp
  rw [if_neg (not_not.mpr hlen)]
  obtain hlt | heq | hgt := lt_trichotomy (hperfUnify a) (hperfUnify b)
  · simp [hlt, hlt.not_gt]
  · simp [heq]
  · simp [hgt, hgt.not_gt]

lemma hperfCmp_pos (hlen : a.p.length = b.p.length) : 0 < hperfCmp a b ↔ hperfUnify b < hperfUnify a := by
  unfold hperfCmp
  rw [if_neg (not_not.mpr hlen)]
  obtain hlt | heq | hgt := lt_trichotomy (hperfUnify a) (hperfUnify b)
  · simp [hlt, hlt.not_gt]
  · simp [heq]
  · simp [hgt, hgt.not_gt]

end

/-! ## `libvertex.c` with exact arithmetic -/

section

variable {N : ℕ} {R : Type} [Field R] [LinearOrder R]

/-- The smallest value of a range. -/
def lowerBound : HBounds R → R
  | .int min _ _ => min
  | .real min _ _ => min
  | .str _ => 0
  | .unknown => 0

/-- `vertex_transform`. -/
def vertexTransform (src wrt : Fin N → R) (coefficient : R) : Fin N → R :=
  fun i => coefficient * src i + (1 - coefficient) * wrt i

/-- `vertex_outofbounds`; it is not 0 for a range without a type. -/
def vertexOutofbounds (range : Fin N → HBounds R) (vmax term : Fin N → R) : Bool :=
  (List.finRange N).any fun i =>
    match range i with
    | .unknown => true
    | bounds => term i < lowerBound bounds || vmax i < term i

/-- The coordinates of `simplex_centroid`. -/
def centroidTerm {W : Type} (vs : List (Vertex (Fin N → R) W)) : Fin N → R :=
  fun j => (vs.map fun v => v.term j).sum / vs.length

/-- The vertex is within bounds. -/
def InBounds (range : Fin N → HBounds R) (vmax term : Fin N → R) : Prop :=
  vertexOutofbounds range vmax term = false

lemma inBounds_iff {range : Fin N → HBounds R} {vmax term : Fin N → R} :
    InBounds range vmax term ↔
      (∀ i, range i ≠ .unknown) ∧ term ∈ Set.Icc (fun i => lowerBound (range i)) vmax := by
  unfold InBounds vertexOutofbounds
  rw [List.any_eq_false]
  constructor
  · intro h
    have hin : ∀ i, range i ≠ .unknown ∧ lowerBound (range i) ≤ term i ∧ term i ≤ vmax i := by
      intro i
      have hi := h i (List.mem_finRange i)
      cases hrange : range i with
      | unknown => simp [hrange] at hi
      | _ => simpa [hrange] using hi
    exact ⟨fun i => (hin i).1, fun i => (hin i).2.1, fun i => (hin i).2.2⟩
  · intro ⟨hknown, hlo, hhi⟩ i _
    have hlo' := hlo i
    have hhi' := hhi i
    cases hrange : range i with
    | unknown => exact absurd hrange (hknown i)
    | _ => simpa [hrange] using ⟨hrange ▸ hlo', hhi'⟩

variable [IsStrictOrderedRing R] {range : Fin N → HBounds R} {vmax : Fin N → R}

lemma vertexTransform_inBounds {src wrt : Fin N → R} (hsrc : InBounds range vmax src)
    (hwrt : InBounds range vmax wrt) {c : R} (hc : 0 < c) (hc' : c < 1) :
    InBounds range vmax (vertexTransform src wrt c) := by
  obtain ⟨hknown, hsrc⟩ := inBounds_iff.mp hsrc
  obtain ⟨-, hwrt⟩ := inBounds_iff.mp hwrt
  exact inBounds_iff.mpr ⟨hknown, combination_mem hsrc hwrt hc.le hc'.le⟩

lemma centroidTerm_inBounds {W : Type} {vs : List (Vertex (Fin N → R) W)} (hne : vs ≠ [])
    (h : ∀ v ∈ vs, InBounds range vmax v.term) : InBounds range vmax (centroidTerm vs) := by
  obtain ⟨v, hv⟩ := List.exists_mem_of_ne_nil vs hne
  have hterms : ∀ t ∈ vs.map Vertex.term, t ∈ Set.Icc (fun i => lowerBound (range i)) vmax := by
    intro t ht
    obtain ⟨u, hu, rfl⟩ := List.mem_map.mp ht
    exact (inBounds_iff.mp (h u hu)).2
  have hmean := mean_mem (fun i => lowerBound (range i)) vmax
    (fun hnil => hne (List.map_eq_nil_iff.mp hnil)) hterms
  rw [List.length_map] at hmean
  simp only [List.map_map, Function.comp_def] at hmean
  exact inBounds_iff.mpr ⟨(inBounds_iff.mp (h v hv)).1, hmean⟩

end

/-! ## Vertices that were not tested -/

/-- The default performance of a vertex that was not tested. -/
def Vertex.Untested {T W : Type} [Top W] (v : Vertex T W) : Prop := ∀ x ∈ v.perf.p, x = ⊤

lemma untested_reset {T W : Type} [Top W] (v : Vertex T W) : v.resetPerf.Untested := by
  intro x hx
  obtain ⟨_, -, rfl⟩ := List.mem_map.mp hx
  rfl

section

variable {T R : Type} [Field R] [LinearOrder R] [IsStrictOrderedRing R]

lemma foldl_top (l : List (WithTop R)) : l.foldl (· + ·) ⊤ = ⊤ := by
  induction l with
  | nil => rfl
  | cons x l ih =>
    rw [List.foldl_cons, top_add]
    exact ih

/-- A vertex that was not tested is as bad as any. -/
lemma Vertex.Untested.perf_le {v : Vertex T (WithTop R)} (h : v.Untested) {perf : HPerf (WithTop R)}
    (hlen : v.perf.p.length = perf.p.length) : hperfUnify perf ≤ hperfUnify v.perf := by
  unfold hperfUnify
  match hperf : v.perf.p with
  | [] =>
    rw [hperf] at hlen
    rw [List.eq_nil_of_length_eq_zero hlen.symm]
  | x :: l =>
    have htop : x = ⊤ := h x (by rw [hperf]; exact List.mem_cons_self)
    rw [List.foldl_cons, htop, add_top, foldl_top]
    exact le_top

/-- A vertex that was not tested is not better than any. -/
lemma Vertex.Untested.not_better {v : Vertex T (WithTop R)} (h : v.Untested)
    {perf : HPerf (WithTop R)} (hlen : v.perf.p.length = perf.p.length) : ¬hperfCmp v.perf perf < 0 := by
  rw [hperfCmp_neg hlen]
  exact not_lt.mpr (h.perf_le hlen)

end

end ActiveHarmony

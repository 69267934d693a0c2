import Mathlib.Data.Matrix.Mul
import Mathlib.LinearAlgebra.AffineSpace.FiniteDimensional
import Mathlib.Tactic.FieldSimp
import Mathlib.Tactic.Linarith
import Mathlib.Tactic.LinearCombination

/-!
# Regular simplexes

`N + 1` unit vectors of `N` coordinates, any two of which have the inner product `-1 / N`, are the vertices
of a regular simplex about the origin. A staircase of coordinates makes such vectors: each column has one
value on the diagonal, one value below it, and zeros above it. Rotating two axes keeps them regular.
-/

namespace RegularSimplex

variable {N : ℕ} {K : Type*} [Field K]

/-- The vertices of a regular simplex about the origin, at distance 1 from it. -/
def Regular (v : Fin (N + 1) → Fin N → K) : Prop :=
  ∀ j l, v j ⬝ᵥ v l = if j = l then 1 else -1 / (N : K)

/-! ## What regular vertices have -/

section

variable {v : Fin (N + 1) → Fin N → K}

/-- Any two vertices are at the same distance. -/
theorem Regular.dist_sq (h : Regular v) {j l : Fin (N + 1)} (hne : j ≠ l) :
    (v j - v l) ⬝ᵥ (v j - v l) = 2 + 2 / (N : K) := by
  have hcross := h j l
  rw [if_neg hne] at hcross
  rw [sub_dotProduct, dotProduct_sub, dotProduct_sub, dotProduct_comm (v l) (v j), hcross, h j j, h l l,
    if_pos rfl, if_pos rfl]
  ring

section

variable [LinearOrder K] [IsStrictOrderedRing K]

/-- A unit vector has no coordinate beyond 1. -/
lemma Regular.abs_le_one (h : Regular v) (j : Fin (N + 1)) (i : Fin N) : |v j i| ≤ 1 := by
  have hself := h j j
  rw [if_pos rfl] at hself
  rw [abs_le_one_iff_mul_self_le_one, ← hself]
  exact Finset.single_le_sum (fun k _ => mul_self_nonneg (v j k)) (Finset.mem_univ i)

/-- The vertices are in general position. -/
theorem Regular.affineIndependent (h : Regular v) : AffineIndependent K v := by
  rw [affineIndependent_iff]
  intro s w hsum hzero l hl
  -- the inner product with vertex `l` leaves the weight of `l`
  have hdot : ∑ e ∈ s, w e * (v e ⬝ᵥ v l) = 0 := by
    have hprod := congrArg (· ⬝ᵥ v l) hzero
    simpa only [sum_dotProduct, smul_dotProduct, zero_dotProduct, smul_eq_mul] using hprod
  have hterm : ∀ e, w e * (v e ⬝ᵥ v l) = w e * (-1 / N) + if e = l then w e * (1 + 1 / N) else 0 := by
    intro e
    rw [h e l]
    split_ifs with hel
    · ring
    · rw [add_zero]
  simp only [hterm] at hdot
  rw [Finset.sum_add_distrib, ← Finset.sum_mul, hsum, zero_mul, zero_add, Finset.sum_ite_eq' s l,
    if_pos hl] at hdot
  have hpos : (0 : K) < 1 + 1 / N := by positivity
  exact (mul_eq_zero.mp hdot).resolve_right hpos.ne'

end

/-- Stretching the axes and moving the origin keep the vertices in general position. -/
lemma affineIndependent_stretch (h : AffineIndependent K v) {size : Fin N → K} (hsize : ∀ i, size i ≠ 0)
    (term : Fin N → K) : AffineIndependent K fun j i => v j i * size i + term i := by
  rw [affineIndependent_iff] at h ⊢
  intro s w hsum hzero
  apply h s w hsum
  funext i
  have hi := congrFun hzero i
  simp only [Finset.sum_apply, Pi.smul_apply, smul_eq_mul, Pi.zero_apply] at hi ⊢
  have hsplit : ∑ e ∈ s, w e * (v e i * size i + term i) =
      (∑ e ∈ s, w e * v e i) * size i + (∑ e ∈ s, w e) * term i := by
    rw [Finset.sum_mul, Finset.sum_mul, ← Finset.sum_add_distrib]
    exact Finset.sum_congr rfl fun e _ => by ring
  rw [hsplit, hsum, zero_mul, add_zero] at hi
  exact (mul_eq_zero.mp hi).resolve_right (hsize i)

/-- `N + 1` points in general position do not agree in any coordinate. -/
lemma affineIndependent_coord_ne (h : AffineIndependent K v) (i : Fin N) (c : K) : ∃ j, v j i ≠ c := by
  by_contra hconst
  simp only [not_exists, not_not] at hconst
  have hspan : affineSpan K (Set.range v) = ⊤ := by
    rw [h.affineSpan_eq_top_iff_card_eq_finrank_add_one]
    simp
  -- the points lie in a plane, and a point beside it is not in their span
  have hle : affineSpan K (Set.range v) ≤ AffineSubspace.mk' (Function.const (Fin N) c)
      (LinearMap.ker (LinearMap.proj i : (Fin N → K) →ₗ[K] K)) := by
    rw [affineSpan_le]
    rintro _ ⟨j, rfl⟩
    simp [hconst j]
  rw [hspan] at hle
  have hmem := hle (AffineSubspace.mem_top K (Fin N → K) (Function.const (Fin N) (c + 1)))
  simp at hmem

/-- They stay so exactly when no axis is shrunken to a point. -/
lemma affineIndependent_stretch_iff (h : AffineIndependent K v) (size term : Fin N → K) :
    (AffineIndependent K fun j i => v j i * size i + term i) ↔ ∀ i, size i ≠ 0 := by
  constructor
  · intro hind i hzero
    obtain ⟨j, hj⟩ := affineIndependent_coord_ne hind i (term i)
    rw [hzero, mul_zero, zero_add] at hj
    exact hj rfl
  · intro hsize
    exact affineIndependent_stretch h hsize term

end

/-! ## Rotations -/

/-- The rotation of the axes `x` and `y` by an angle with cosine `c` and sine `s`. -/
def rotation (x y : Fin N) (c s : K) (v : Fin N → K) : Fin N → K :=
  Function.update (Function.update v x (v x * c - v y * s)) y (v x * s + v y * c)

lemma rotation_dotProduct {x y : Fin N} (hxy : x ≠ y) {c s : K} (hcs : c * c + s * s = 1)
    (v w : Fin N → K) : rotation x y c s v ⬝ᵥ rotation x y c s w = v ⬝ᵥ w := by
  have hx : ∀ u : Fin N → K, rotation x y c s u x = u x * c - u y * s := fun u => by
    rw [rotation, Function.update_of_ne hxy, Function.update_self]
  have hy : ∀ u : Fin N → K, rotation x y c s u y = u x * s + u y * c := fun u => by
    rw [rotation, Function.update_self]
  have hother : ∀ (u : Fin N → K) k, k ≠ x ∧ k ≠ y → rotation x y c s u k = u k := fun u k hk => by
    rw [rotation, Function.update_of_ne hk.2, Function.update_of_ne hk.1]
  -- the two products differ at most in two places, and there they cancel out
  rw [← sub_eq_zero, dotProduct, dotProduct, ← Finset.sum_sub_distrib, Fintype.sum_eq_add x y hxy]
  · rw [hx, hx, hy, hy]
    linear_combination (v x * w x + v y * w y) * hcs
  · intro k hk
    rw [hother v k hk, hother w k hk, sub_self]

lemma Regular.rotation {v : Fin (N + 1) → Fin N → K} (h : Regular v) {x y : Fin N} (hxy : x ≠ y) {c s : K}
    (hcs : c * c + s * s = 1) : Regular fun j => rotation x y c s (v j) := fun j l => by
  rw [rotation_dotProduct hxy hcs]
  exact h j l

/-! ## Staircases -/

/-- What the squares of a row add up to in the first `n` columns. -/
def share (K : Type*) [Field K] (N n : ℕ) : K := n / (N * (N - n + 1))

/-- The value below the diagonal value `diag` in column `n`. -/
def step (N n : ℕ) (diag : K) : K := (-1 / N - share K N n) / diag

/-- Coordinates with the values `diag` on the diagonal. -/
def staircase (diag : Fin N → K) : Fin (N + 1) → Fin N → K := fun j k =>
  if j = k.castSucc then diag k else if k.castSucc < j then step N k (diag k) else 0

section

variable [LinearOrder K] [IsStrictOrderedRing K] {n : ℕ}

lemma one_sub_share (h : n < N) : 1 - share K N n = (N + 1) * (N - n) / (N * (N - n + 1)) := by
  have hle : (n : K) + 1 ≤ N := by exact_mod_cast h
  have hn : (0 : K) ≤ n := n.cast_nonneg
  have h1 : (N : K) ≠ 0 := by linarith
  have h2 : (N : K) - n + 1 ≠ 0 := by linarith
  unfold share
  field_simp
  ring

lemma share_lt_one (h : n < N) : share K N n < 1 := by
  have hle : (n : K) + 1 ≤ N := by exact_mod_cast h
  have hn : (0 : K) ≤ n := n.cast_nonneg
  rw [← sub_pos, one_sub_share h]
  apply div_pos <;> apply mul_pos <;> linarith

/-- The square below the diagonal is what the next share has more. -/
lemma share_succ (h : n < N) {diag : K} (hdiag : diag * diag = 1 - share K N n) :
    share K N (n + 1) = share K N n + step N n diag * step N n diag := by
  have hle : (n : K) + 1 ≤ N := by exact_mod_cast h
  have hn : (0 : K) ≤ n := n.cast_nonneg
  have h1 : (N : K) ≠ 0 := by linarith
  have h2 : (N : K) - n + 1 ≠ 0 := by linarith
  have h3 : (N : K) - n ≠ 0 := by linarith
  have h4 : (N : K) + 1 ≠ 0 := by linarith
  have hsq : step N n diag * step N n diag = (-1 / N - share K N n) ^ 2 / (1 - share K N n) := by
    rw [step, ← hdiag]
    ring
  rw [hsq, one_sub_share h]
  unfold share
  push_cast
  have h5 : (N : K) - (n + 1) + 1 ≠ 0 := by linarith
  field_simp
  ring

omit [LinearOrder K] [IsStrictOrderedRing K] in
lemma sum_lt_succ (f : Fin N → K) (h : n < N) :
    ∑ k : Fin N, (if (k : ℕ) < n + 1 then f k else 0) =
      (∑ k : Fin N, if (k : ℕ) < n then f k else 0) + f ⟨n, h⟩ := by
  have hterm : ∀ k : Fin N, (if (k : ℕ) < n + 1 then f k else 0) =
      (if (k : ℕ) < n then f k else 0) + if k = ⟨n, h⟩ then f k else 0 := by
    intro k
    by_cases hk : k = ⟨n, h⟩
    · subst hk
      simp
    · have hne : (k : ℕ) ≠ n := fun heq => hk (Fin.ext heq)
      rw [if_neg hk, add_zero]
      exact if_congr (by omega) rfl rfl
  simp only [hterm]
  rw [Finset.sum_add_distrib, Finset.sum_ite_eq' Finset.univ, if_pos (Finset.mem_univ _)]

/-- The share is what its name says. -/
lemma sum_step_sq {diag : Fin N → K} (hdiag : ∀ k, diag k * diag k = 1 - share K N k) (hn : n ≤ N) :
    (∑ k : Fin N, if (k : ℕ) < n then step N k (diag k) * step N k (diag k) else 0) = share K N n := by
  induction n with
  | zero => simp [share]
  | succ n ih => rw [sum_lt_succ _ hn, ih (Nat.le_of_succ_le hn), share_succ hn (hdiag ⟨n, hn⟩)]

/-- The inner product of a row with itself or with one below it. -/
lemma staircase_dotProduct {diag : Fin N → K} (hdiag : ∀ k, diag k * diag k = 1 - share K N k)
    {j l : Fin (N + 1)} (hjl : j ≤ l) :
    staircase diag j ⬝ᵥ staircase diag l =
      share K N j + ∑ k : Fin N, if j = k.castSucc then diag k * staircase diag l k else 0 := by
  have hj : (j : ℕ) ≤ N := Nat.lt_succ_iff.mp j.isLt
  rw [← sum_step_sq hdiag hj, ← Finset.sum_add_distrib]
  refine Finset.sum_congr rfl fun k _ => ?_
  unfold staircase
  obtain hlt | heq | hgt := lt_trichotomy k.castSucc j
  · have hlt' : (k : ℕ) < j := hlt
    rw [if_neg hlt.ne', if_pos hlt, if_neg (hlt.trans_le hjl).ne', if_pos (hlt.trans_le hjl), if_pos hlt',
      if_neg hlt.ne', add_zero]
  · have hself : ¬(k : ℕ) < j := by
      rw [← heq]
      exact lt_irrefl _
    rw [if_pos heq.symm, if_neg hself, if_pos heq.symm, zero_add]
  · have hge : ¬(k : ℕ) < j := not_lt.mpr (le_of_lt hgt)
    rw [if_neg hgt.ne, if_neg hgt.not_gt, if_neg hge, if_neg hgt.ne, zero_mul, zero_add]

theorem staircase_regular (hN : N ≠ 0) {diag : Fin N → K} (hdiag : ∀ k, diag k * diag k = 1 - share K N k) :
    Regular (staircase diag) := by
  have hle : ∀ j l, j ≤ l → staircase diag j ⬝ᵥ staircase diag l = if j = l then 1 else -1 / (N : K) := by
    intro j l hjl
    rw [staircase_dotProduct hdiag hjl]
    induction j using Fin.lastCases with
    | last =>
      -- the last row has no value on the diagonal
      obtain rfl : l = Fin.last N := le_antisymm (Fin.le_last l) hjl
      have hnone : ∀ k : Fin N, Fin.last N ≠ k.castSucc := fun k => (Fin.castSucc_lt_last k).ne'
      have hN' : (N : K) ≠ 0 := Nat.cast_ne_zero.mpr hN
      simp only [hnone, if_false, Finset.sum_const_zero, add_zero, if_true, Fin.val_last, share]
      rw [sub_self, zero_add, mul_one, div_self hN']
    | cast i =>
      simp only [Fin.castSucc_inj]
      rw [Finset.sum_ite_eq Finset.univ, if_pos (Finset.mem_univ _)]
      by_cases hil : i.castSucc = l
      · subst hil
        rw [if_pos rfl, staircase, if_pos rfl, hdiag]
        exact add_sub_cancel _ _
      · have hlt := lt_of_le_of_ne hjl hil
        have hne : diag i ≠ 0 := by
          intro hzero
          have hd := hdiag i
          rw [hzero, mul_zero] at hd
          exact absurd hd (sub_pos.mpr (share_lt_one i.isLt)).ne
        rw [if_neg hil, staircase, if_neg (Ne.symm hil), if_pos hlt, step, mul_div_cancel₀ _ hne]
        exact add_sub_cancel _ _
  intro j l
  obtain hjl | hlj := le_total j l
  · exact hle j l hjl
  · rw [dotProduct_comm, hle l j hlj]
    exact if_congr eq_comm rfl rfl

end

end RegularSimplex

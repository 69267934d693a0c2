import ActiveHarmony.Lib.RegularSimplex
import ActiveHarmony.Strategy.SimplexFit
import Mathlib.Analysis.SpecialFunctions.Trigonometric.Basic

/-!
# The unit simplex

`unit_simplex` fills the coordinates of `N + 1` vertices column by column, and `rotate` turns them by random
angles, in every plane of two axes, in a random order. With exact arithmetic the vertices are those of a
regular simplex about the origin, whatever the generator returns, so the simplex that `simplex_from_vertex`
makes is not flat and has edges of one length, in units of the size it grows to.
-/

namespace ActiveHarmony

/-! ## The functions of the C library -/

/-- What is used of `math.h`. -/
structure Libm (K : Type) [Field K] [LE K] where
  sqrt : K → K
  cos : K → K
  sin : K → K
  pi : K
  sqrt_mul_self : ∀ x, 0 ≤ x → sqrt x * sqrt x = x
  cos_sq_add_sin_sq : ∀ theta, cos theta * cos theta + sin theta * sin theta = 1

/-- The generator of `lrand48` and `drand48`, with its state. -/
structure Rand48 (K ρ : Type) [Zero K] [One K] [LE K] [LT K] where
  lrand48 : ρ → ℕ × ρ
  drand48 : ρ → K × ρ
  drand48_nonneg : ∀ rand, 0 ≤ (drand48 rand).1
  drand48_lt_one : ∀ rand, (drand48 rand).1 < 1

/-! ## `unit_simplex` -/

/-- The coordinates of `N + 1` vertices. -/
abbrev Coords (N : ℕ) (K : Type) := Fin (N + 1) → Fin N → K

section

variable {N : ℕ} {K : Type} [Field K]

/-- The loops that add up the products of the coordinates before `i`. -/
def partialDot (v w : Fin N → K) (i : Fin N) : K := ∑ k, if k < i then v k * w k else 0

/-- `s->vertex[j]->term[i] = x`. -/
def setTerm (u : Coords N K) (j : Fin (N + 1)) (i : Fin N) (x : K) : Coords N K :=
  Function.update u j (Function.update (u j) i x)

/-- The inner loop of `unit_simplex` over `j`. -/
def unitBelow (i : Fin N) (u : Coords N K) : Coords N K :=
  (List.finRange (N + 1)).foldl
    (fun u j =>
      if i.castSucc < j then
        setTerm u j i ((-1 / (N : K) - partialDot (u i.castSucc) (u j) i) / u i.castSucc i)
      else u) u

variable [LE K] (libm : Libm K)

/-- One round of the outer loop of `unit_simplex`. -/
def unitColumn (u : Coords N K) (i : Fin N) : Coords N K :=
  unitBelow i
    (setTerm u i.castSucc i (libm.sqrt (1 - partialDot (u i.castSucc) (u i.castSucc) i)))

/-- `unit_simplex`. -/
def unitSimplex (N : ℕ) : Coords N K := (List.finRange N).foldl (unitColumn libm) fun _ _ => 0

end

/-! ## `rotate` -/

/-- Two terms, with the order that is drawn for them: `rparam_t`. -/
structure RParam (N : ℕ) where
  order : ℕ
  x : Fin N
  y : Fin N
  lt : x < y

/-- All pairs of terms, before their orders are drawn. -/
def termPairs (N : ℕ) : List (RParam N) :=
  (List.finRange N).flatMap fun j =>
    (List.finRange N).filterMap fun k => if h : j < k then some ⟨0, j, k, h⟩ else none

/-- `rparam_sort`; the difference of two `unsigned long` becomes an `int`. -/
def rparamSort {N : ℕ} (a b : RParam N) : ℤ := ((a.order : ℤ) - b.order).bmod (2 ^ 32)

section

variable {N : ℕ} {K ρ : Type} [Field K] [LE K] [LT K]

/-- The orders of the pairs, one after the other. -/
def drawOrders (gen : Rand48 K ρ) : List (RParam N) → ρ → List (RParam N) × ρ
  | [], rand => ([], rand)
  | rp :: rps, rand =>
    let (order, rand) := gen.lrand48 rand
    let (rps, rand) := drawOrders gen rps rand
    ({ rp with order := order } :: rps, rand)

attribute [local instance] two_atLeastTwo in
/-- The loop of `rotate` over the pairs. -/
def rotateLoop (libm : Libm K) (gen : Rand48 K ρ) : List (RParam N) → ρ → Coords N K → Coords N K × ρ
  | [], rand, u => (u, rand)
  | rp :: rps, rand, u =>
    let (r, rand) := gen.drand48 rand
    let theta := r * (2 * libm.pi)
    rotateLoop libm gen rps rand fun j =>
      RegularSimplex.rotation rp.x rp.y (libm.cos theta) (libm.sin theta) (u j)

/-- `rotate`. -/
def rotate (libm : Libm K) (gen : Rand48 K ρ) (u : Coords N K) (rand : ρ) : Coords N K × ρ :=
  let (rp, rand) := drawOrders gen (termPairs N) rand
  rotateLoop libm gen (rp.mergeSort fun a b => rparamSort a b ≤ 0) rand u

end

/-! ## The staircase of `unit_simplex` -/

/-- A loop that writes one row a round reads this row and rows that it does not write. -/
lemma foldl_update {ι α : Type} [DecidableEq ι] (p : ι → Prop) [DecidablePred p] {g : (ι → α) → ι → α}
    (hg : ∀ u u' j, u j = u' j → (∀ l, ¬p l → u l = u' l) → g u j = g u' j) {js : List ι}
    (hnodup : js.Nodup) (u : ι → α) :
    js.foldl (fun u j => if p j then Function.update u j (g u j) else u) u =
      fun j => if j ∈ js ∧ p j then g u j else u j := by
  induction js generalizing u with
  | nil => simp
  | cons j js ih =>
    obtain ⟨hnot, hnodup⟩ := List.nodup_cons.mp hnodup
    rw [List.foldl_cons, ih hnodup]
    funext l
    by_cases hp : p j
    · rw [if_pos hp]
      have hother : ∀ l, l ≠ j → Function.update u j (g u j) l = u l := fun l hl =>
        Function.update_of_ne hl _ _
      by_cases hl : l = j
      · subst hl
        rw [if_neg (fun h => hnot h.1), Function.update_self, if_pos ⟨List.mem_cons_self, hp⟩]
      · have hsame : g (Function.update u j (g u j)) l = g u l := by
          apply hg _ _ _ (hother l hl)
          intro l' hl'
          exact hother l' fun heq => hl' (heq ▸ hp)
        rw [hsame, hother l hl]
        simp only [List.mem_cons, hl, false_or]
    · rw [if_neg hp]
      by_cases hl : l = j
      · subst hl
        rw [if_neg (fun h => hnot h.1), if_neg (fun h => hp h.2)]
      · simp only [List.mem_cons, hl, false_or]

section

variable {N : ℕ} {K : Type} [Field K]

open RegularSimplex

/-- The staircase as far as column `n`. -/
def stairs (diag : Fin N → K) (n : ℕ) : Coords N K := fun j k =>
  if (k : ℕ) < n then staircase diag j k else 0

/-- The products of two rows that both go on below column `i` add up to the share. -/
lemma partialDot_stairs [LinearOrder K] [IsStrictOrderedRing K] {diag : Fin N → K}
    (hdiag : ∀ k, diag k * diag k = 1 - share K N k) {i : Fin N} {v w : Fin N → K} {j l : Fin (N + 1)}
    (hj : i.castSucc ≤ j) (hl : i.castSucc ≤ l) (hv : ∀ k < i, v k = staircase diag j k)
    (hw : ∀ k < i, w k = staircase diag l k) : partialDot v w i = share K N i := by
  rw [← sum_step_sq hdiag i.isLt.le]
  refine Finset.sum_congr rfl fun k _ => ?_
  by_cases hk : k < i
  · have hbelow : ∀ {m : Fin (N + 1)}, i.castSucc ≤ m → staircase diag m k = step N k (diag k) := by
      intro m hm
      have hlt : k.castSucc < m := lt_of_lt_of_le hk hm
      rw [staircase, if_neg hlt.ne', if_pos hlt]
    rw [if_pos hk, if_pos (show (k : ℕ) < i from hk), hv k hk, hw k hk, hbelow hj, hbelow hl]
  · rw [if_neg hk, if_neg (show ¬(k : ℕ) < i from hk)]

lemma stairs_of_lt {diag : Fin N → K} {i k : Fin N} (hk : k < i) (j : Fin (N + 1)) :
    stairs diag i j k = staircase diag j k := if_pos hk

/-- The inner loop writes column `i` below the diagonal. -/
lemma unitBelow_apply (i : Fin N) (u : Coords N K) (j : Fin (N + 1)) :
    unitBelow i u j =
      if i.castSucc < j then
        Function.update (u j) i
          ((-1 / (N : K) - partialDot (u i.castSucc) (u j) i) / u i.castSucc i)
      else u j := by
  unfold unitBelow setTerm
  rw [foldl_update (fun j => i.castSucc < j) ?_ (List.nodup_finRange _)]
  · simp only [List.mem_finRange, true_and]
  · intro u u' j hj hother
    rw [hj, hother _ (lt_irrefl _)]

variable [LinearOrder K] [IsStrictOrderedRing K] (libm : Libm K)

/-- The values on the diagonal. -/
def diagonal (N : ℕ) : Fin N → K := fun k => libm.sqrt (1 - share K N k)

lemma diagonal_sq (k : Fin N) : diagonal libm N k * diagonal libm N k = 1 - share K N k :=
  libm.sqrt_mul_self _ (sub_nonneg.mpr (share_lt_one k.isLt).le)

/-- One round makes one more column of the staircase. -/
lemma unitColumn_stairs (i : Fin N) :
    unitColumn libm (stairs (diagonal libm N) i) i = stairs (diagonal libm N) (i + 1) := by
  have hdiag := diagonal_sq (N := N) libm
  have hrow : partialDot (stairs (diagonal libm N) i i.castSucc) (stairs (diagonal libm N) i i.castSucc) i =
      share K N i :=
    partialDot_stairs hdiag le_rfl le_rfl (fun k hk => stairs_of_lt hk _) fun k hk => stairs_of_lt hk _
  unfold unitColumn
  rw [hrow]
  set u := setTerm (stairs (diagonal libm N) i) i.castSucc i (libm.sqrt (1 - share K N i)) with hu
  have hself : u i.castSucc = Function.update (stairs (diagonal libm N) i i.castSucc) i (diagonal libm N i) :=
    Function.update_self _ _ _
  have hother : ∀ j, j ≠ i.castSucc → u j = stairs (diagonal libm N) i j := fun j hj =>
    Function.update_of_ne hj _ _
  have hleft : ∀ k < i, u i.castSucc k = staircase (diagonal libm N) i.castSucc k := by
    intro k hk
    rw [hself, Function.update_of_ne hk.ne]
    exact stairs_of_lt hk _
  -- a column that is not `i` keeps its values
  have hkeep : ∀ j (x : K) k, k ≠ i →
      Function.update (stairs (diagonal libm N) i j) i x k = stairs (diagonal libm N) (i + 1) j k := by
    intro j x k hk
    have hne : (k : ℕ) ≠ i := fun heq => hk (Fin.ext heq)
    rw [Function.update_of_ne hk]
    exact if_congr (by omega) rfl rfl
  funext j k
  rw [unitBelow_apply]
  obtain hlt | heq | hgt := lt_trichotomy i.castSucc j
  · rw [if_pos hlt, hother j hlt.ne']
    by_cases hk : k = i
    · subst hk
      rw [Function.update_self, partialDot_stairs hdiag le_rfl hlt.le hleft fun k' hk' => stairs_of_lt hk' _,
        hself, Function.update_self, stairs, if_pos (Nat.lt_succ_self _), staircase, if_neg hlt.ne', if_pos hlt]
      rfl
    · exact hkeep j _ k hk
  · subst heq
    rw [if_neg (lt_irrefl _), hself]
    by_cases hk : k = i
    · subst hk
      rw [Function.update_self, stairs, if_pos (Nat.lt_succ_self _), staircase, if_pos rfl]
    · exact hkeep _ _ k hk
  · rw [if_neg hgt.not_gt, hother j hgt.ne]
    by_cases hk : k = i
    · subst hk
      rw [stairs, if_neg (lt_irrefl _), stairs, if_pos (Nat.lt_succ_self _), staircase, if_neg hgt.ne,
        if_neg hgt.not_gt]
    · have hsame := hkeep j 0 k hk
      rw [Function.update_of_ne hk] at hsame
      exact hsame

/-- `unit_simplex` makes the staircase. -/
theorem unitSimplex_eq (N : ℕ) : unitSimplex libm N = staircase (diagonal libm N) := by
  have htake : ∀ n ≤ N, ((List.finRange N).take n).foldl (unitColumn libm) (fun _ _ => 0) =
      stairs (diagonal libm N) n := by
    intro n hn
    induction n with
    | zero => rfl
    | succ n ih =>
      have hget : (List.finRange N)[n]? = some ⟨n, hn⟩ := by
        rw [List.getElem?_eq_getElem (by rw [List.length_finRange]; exact hn), List.getElem_finRange]
        rfl
      rw [List.take_add_one, hget, List.foldl_append, ih (Nat.le_of_succ_le hn)]
      exact unitColumn_stairs libm ⟨n, hn⟩
  have hall := htake N le_rfl
  rw [List.take_of_length_le (List.length_finRange).le] at hall
  rw [unitSimplex, hall]
  funext j k
  exact if_pos k.isLt

end

/-! ## The simplex of `simplex_from_vertex` -/

section

variable {N : ℕ} {K W ρ : Type} [Field K] [LinearOrder K] (libm : Libm K) (gen : Rand48 K ρ)

/-- `simplex_from_vertex`, with the unit simplex that it makes. -/
def simplexFromVertexRotated [Top W] (vmin vmax : Fin N → K) (vertexRand : ρ → (Fin N → K) × ρ)
    (term : Fin N → K) (percent : K) (s : Simplex N K W) (rand : ρ) : ℤ × Simplex N K W × ρ :=
  let (unit, rand) := rotate libm gen (unitSimplex libm N) rand
  simplexFromVertex vmin vmax unit vertexRand term percent s rand

/-- A rotation keeps a simplex regular, so all rotations do. -/
lemma rotateLoop_regular (rps : List (RParam N)) (rand : ρ) {u : Coords N K}
    (h : RegularSimplex.Regular u) :
    RegularSimplex.Regular (rotateLoop libm gen rps rand u).1 := by
  induction rps generalizing rand u with
  | nil => exact h
  | cons rp rps ih => exact ih _ (h.rotation rp.lt.ne (libm.cos_sq_add_sin_sq _))

variable [IsStrictOrderedRing K]

lemma rotate_regular (hN : N ≠ 0) (rand : ρ) :
    RegularSimplex.Regular (rotate libm gen (unitSimplex libm N) rand).1 := by
  rw [unitSimplex_eq]
  exact rotateLoop_regular libm gen _ _ (RegularSimplex.staircase_regular hN (diagonal_sq libm))

/-- Whatever the generator returns, the new simplex is within bounds, and it is a regular simplex, stretched and
moved. -/
lemma simplexFromVertexRotated_spec [Top W] {vmin vmax : Fin N → K} (hbounds : vmin ≤ vmax)
    (vertexRand : ρ → (Fin N → K) × ρ) (term : Fin N → K) {percent : K} (hpos : 0 < percent)
    (hle : percent ≤ 1) (s : Simplex N K W) (rand : ρ) :
    ∃ s' rand' unit,
      simplexFromVertexRotated libm gen vmin vmax vertexRand term percent s rand = (0, s', rand') ∧
        (∀ j i, s'.coord j i ∈ Set.Icc (vmin i) (vmax i)) ∧ (N ≠ 0 → RegularSimplex.Regular unit) ∧
        ∀ j l i, s'.coord j i - s'.coord l i =
          (unit j i - unit l i) * vertexPercent vmin vmax (percent / 2) i := by
  generalize hunit : (rotate libm gen (unitSimplex libm N) rand).1 = unit
  have hregular : N ≠ 0 → RegularSimplex.Regular unit := by
    intro hN
    rw [← hunit]
    exact rotate_regular libm gen hN rand
  have habs : ∀ j i, |unit j i| ≤ 1 := by
    intro j i
    have hN : N ≠ 0 := (Nat.zero_lt_of_lt i.isLt).ne'
    exact (hregular hN).abs_le_one j i
  obtain ⟨s', rand', hrun, hin, hdiff⟩ := simplexFromVertex_fits hbounds habs vertexRand term hpos hle s
    (rotate libm gen (unitSimplex libm N) rand).2
  refine ⟨s', rand', unit, ?_, hin, hregular, hdiff⟩
  unfold simplexFromVertexRotated
  dsimp only
  rw [hunit]
  exact hrun

/-- A simplex that is a regular one, stretched and moved, is flat exactly when a width is 0. -/
lemma stretched_independent_iff {vmin vmax : Fin N → K} (hbounds : vmin ≤ vmax) {percent : K} (hpos : 0 < percent)
    {coord unit : Coords N K} (hregular : N ≠ 0 → RegularSimplex.Regular unit)
    (hdiff : ∀ j l i, coord j i - coord l i = (unit j i - unit l i) * vertexPercent vmin vmax (percent / 2) i) :
    AffineIndependent K coord ↔ ∀ i, vmin i < vmax i := by
  have hhalf : percent / 2 ≠ 0 := by positivity
  have hwidth : ∀ i, vmin i < vmax i ↔ vertexPercent vmin vmax (percent / 2) i ≠ 0 := by
    intro i
    rw [vertexPercent, mul_ne_zero_iff, and_iff_left hhalf, sub_ne_zero]
    exact ⟨fun h => h.ne', fun h => lt_of_le_of_ne (hbounds i) h.symm⟩
  simp only [hwidth]
  obtain rfl | hN := eq_or_ne N 0
  · have hone : Subsingleton (Fin (0 + 1)) := Fin.subsingleton_one
    exact ⟨fun _ i => i.elim0, fun _ => affineIndependent_of_subsingleton K _⟩
  have hcoord : coord = fun j i => unit j i * vertexPercent vmin vmax (percent / 2) i +
      (coord 0 i - unit 0 i * vertexPercent vmin vmax (percent / 2) i) := by
    funext j i
    linear_combination hdiff j 0 i
  rw [hcoord]
  exact RegularSimplex.affineIndependent_stretch_iff (hregular hN).affineIndependent _ _

/-- The new simplex is within bounds. In units of the widths of the search space all its edges have one length,
and it is flat exactly when a variable has one value only. -/
theorem simplexFromVertex_regular [Top W] {vmin vmax : Fin N → K} (hbounds : vmin ≤ vmax)
    (vertexRand : ρ → (Fin N → K) × ρ) (term : Fin N → K) {percent : K} (hpos : 0 < percent)
    (hle : percent ≤ 1) (s : Simplex N K W) (rand : ρ) :
    ∃ s' rand',
      simplexFromVertexRotated libm gen vmin vmax vertexRand term percent s rand = (0, s', rand') ∧
        (∀ j i, s'.coord j i ∈ Set.Icc (vmin i) (vmax i)) ∧
        ((∀ i, vmin i < vmax i) → ∀ j l, j ≠ l →
          ∑ i, ((s'.coord j i - s'.coord l i) / (vmax i - vmin i)) ^ 2 =
            (percent / 2) ^ 2 * (2 + 2 / N)) ∧
        (AffineIndependent K s'.coord ↔ ∀ i, vmin i < vmax i) := by
  obtain ⟨s', rand', unit, hrun, hin, hregular, hdiff⟩ :=
    simplexFromVertexRotated_spec libm gen hbounds vertexRand term hpos hle s rand
  refine ⟨s', rand', hrun, hin, ?_, stretched_independent_iff hbounds hpos hregular hdiff⟩
  intro hwide j l hjl
  obtain rfl | hN := eq_or_ne N 0
  · exact absurd (Fin.subsingleton_one.elim j l) hjl
  rw [← (hregular hN).dist_sq hjl, dotProduct, Finset.mul_sum]
  refine Finset.sum_congr rfl fun i _ => ?_
  have hne : vmax i - vmin i ≠ 0 := (sub_pos.mpr (hwide i)).ne'
  rw [hdiff, vertexPercent, Pi.sub_apply]
  field_simp

end

/-- `math.h` with real numbers. -/
noncomputable def realLibm : Libm ℝ where
  sqrt := Real.sqrt
  cos := Real.cos
  sin := Real.sin
  pi := Real.pi
  sqrt_mul_self _ hx := Real.mul_self_sqrt hx
  cos_sq_add_sin_sq theta := by
    rw [← sq, ← sq]
    exact Real.cos_sq_add_sin_sq theta

attribute [local instance] two_atLeastTwo in
/-- A generator that counts, and whose fractions are all one half. -/
noncomputable def countingRand : Rand48 ℝ ℕ where
  lrand48 rand := (rand, rand + 1)
  drand48 rand := (1 / 2, rand + 1)
  drand48_nonneg _ := by norm_num
  drand48_lt_one _ := by norm_num

/-- Three vertices for two variables. -/
def threeVertices : Simplex 2 ℝ (WithTop ℝ) := ⟨List.replicate 3 ⟨0, ⟨[]⟩, fun _ => 0⟩, by decide⟩

/-- The default percentage, about a corner of the search space. -/
theorem simplexFromVertex_regular_at_corner : ∃ s' rand',
    simplexFromVertexRotated realLibm countingRand (fun _ => 0) (fun _ => 10) (fun rand => (fun _ => 0, rand))
        (fun _ => 10) (35 / 100) threeVertices 0 = (0, s', rand') ∧
      (∀ j i, s'.coord j i ∈ Set.Icc 0 10) ∧ AffineIndependent ℝ s'.coord := by
  have hbounds : (fun _ : Fin 2 => (0 : ℝ)) ≤ fun _ => 10 := fun _ => by norm_num
  have hpos : (0 : ℝ) < 35 / 100 := by norm_num
  obtain ⟨s', rand', hrun, hin, -, hflat⟩ :=
    simplexFromVertex_regular realLibm countingRand hbounds (fun rand => (fun _ => 0, rand)) (fun _ => 10)
      hpos (by norm_num) threeVertices 0
  exact ⟨s', rand', hrun, hin, hflat.mpr fun _ => by norm_num⟩

end ActiveHarmony

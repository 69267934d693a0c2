import ActiveHarmony.Signature.Range
import ActiveHarmony.Strategy.Libvertex

/-!
# The points of vertices

`vertex_to_hpoint` makes the point to test from the coordinates of a vertex, and `simplex_collapsed` compares
the vertices of a simplex after `vertex_regrid`. With exact arithmetic, the point has the value at the least
distance from each coordinate, but for integers: their coordinate becomes a `long` before it is rounded, and
what this cuts off can take it across the middle of two values. Both functions round alike.
-/

namespace ActiveHarmony

/-! ## `libvertex.c` -/

section

variable {N : ℕ} {K W : Type} [Field K] [LinearOrder K] [FloorRing K]

/-- The implicit conversion of a `double` to `long`, towards zero. -/
def toLong (x : K) : ℤ := if 0 ≤ x then ⌊x⌋ else ⌈x⌉

/-- `hrange_str_max_idx`, of type `unsigned long`. -/
def hrangeStrMaxIdx (set : List Bytes) : ℕ := if set.length = 0 then 2 ^ 64 - 1 else set.length - 1

/-- `hrange_max_idx`. -/
def hrangeMaxIdx : HBounds K → ℕ
  | .int min max step => hrangeIntMaxIdx min max step
  | .real min max step => hrangeRealMaxIdx min max step
  | .str set => hrangeStrMaxIdx set
  | .unknown => 0

/-- `hrange_str_value`. -/
def hrangeStrValue (set : List Bytes) (idx : ℕ) : Option Bytes :=
  let idx := if idx < 0 then 0 else idx
  let idx := if idx > hrangeStrMaxIdx set then hrangeStrMaxIdx set else idx
  set[idx]?

/-- `internal_vertex_max`; the greatest index goes through an `int`. -/
def internalVertexMax (range : Fin N → HBounds K) : Fin N → K := fun i =>
  let idx := ((hrangeMaxIdx (range i) : ℤ).bmod (2 ^ 32) % 2 ^ 64).toNat
  match range i with
  | .int min max step => hrangeIntValue min max step idx
  | .real min max step => if step > 0 then hrangeRealValue min max step idx else max
  | .str set => (set.length : K) - 1
  | .unknown => 0

attribute [local instance] two_atLeastTwo in
/-- One coordinate of `vertex_regrid`. -/
def termRegrid : HBounds K → K → K
  | .int min max step, x => hrangeIntNearest K min max step (toLong x)
  | .real min max step, x => hrangeRealNearest min max step x
  | .str set, x =>
    let x := if x < 0 then 0 else x
    let x := if x > (set.length : K) - 1 then (set.length : K) - 1 else x
    (⌊x + 1 / 2⌋₊ : K)
  | .unknown, x => x

/-- `vertex_regrid`, with its result. -/
def vertexRegrid [Top W] (range : Fin N → HBounds K) (vmax : Fin N → K) (v : Vertex (Fin N → K) W) :
    ℤ × Vertex (Fin N → K) W :=
  if vertexOutofbounds range vmax v.term then (-1, v)
  else (0, { v.resetPerf with id := 0, term := fun i => termRegrid (range i) (v.term i) })

attribute [local instance] two_atLeastTwo in
/-- One value of `vertex_to_hpoint`. -/
def termToHval : HBounds K → K → Option (HVal K)
  | .int min max step, x => some (.int (hrangeIntNearest K min max step (toLong x)))
  | .real min max step, x => some (.real (hrangeRealNearest min max step x))
  | .str set, x =>
    let idx := ⌊x + 1 / 2⌋₊
    let idx := if idx < 0 then 0 else idx
    let idx := if idx > hrangeStrMaxIdx set then hrangeStrMaxIdx set else idx
    some (.str (hrangeStrValue set idx))
  | .unknown, _ => none

/-- `vertex_to_hpoint`; -1 is `none`. -/
def vertexToHpoint (range : Fin N → HBounds K) (v : Vertex (Fin N → K) W) : Option (HPoint K) := do
  let val ← (List.finRange N).mapM fun i => termToHval (range i) (v.term i)
  return { id := v.id, val := val }

end

/-- `simplex_t`; `simplex_alloc` makes more vertices than there are variables. -/
structure Simplex (N : ℕ) (K W : Type) where
  vertex : List (Vertex (Fin N → K) W)
  len : N < vertex.length

section

variable {N : ℕ} {K W : Type} [Field K] [LinearOrder K] [FloorRing K]

/-- `simplex_collapsed`; `a` and `b` are its copies of two vertices. -/
def simplexCollapsed [Top W] (range : Fin N → HBounds K) (vmax : Fin N → K) (s : Simplex N K W) : ℤ :=
  let first := s.vertex.head (List.ne_nil_of_length_pos (Nat.zero_lt_of_lt s.len))
  let a := (vertexRegrid range vmax first).2
  let same := s.vertex.tail.all fun v =>
    let b := (vertexRegrid range vmax v).2
    (List.finRange N).all fun j => a.term j = b.term j
  if same then 1 else 0

end

/-! ## Nearest values -/

section

variable {N : ℕ} {K W : Type} [Field K] [LinearOrder K] [FloorRing K]

/-- The range has values, and its step is positive, or 0 for a real range without a grid. -/
def HBounds.HasValues : HBounds K → Prop
  | .int min max step => min ≤ max ∧ 0 < step
  | .real min max step => min ≤ max ∧ 0 ≤ step
  | .str set => set ≠ []
  | .unknown => False

/-- A value of the range at the least distance from a coordinate; the coordinate of an enumeration is an
index. -/
def NearestValue : HBounds K → K → HVal K → Prop
  | .int min max step, x, val =>
    ∃ z : ℤ, val = .int z ∧ LeastDistance (Int.cast '' gridPoints min max step) x (z : K)
  | .real min max step, x, val =>
    ∃ r : K, val = .real r ∧
      LeastDistance (if 0 < step then gridPoints min max step else Set.Icc min max) x r
  | .str set, x, val =>
    ∃ k : ℕ, val = .str set[k]? ∧ LeastDistance {g : K | ∃ j : ℕ, j ≤ set.length - 1 ∧ g = j} x k
  | .unknown, _, _ => False

attribute [local instance] two_atLeastTwo in
/-- The conversion of the coordinate of an integer to `long` goes across the middle of two neighbouring
values. A middle belongs to the greater one. -/
def CutsAcross : HBounds K → K → Prop
  | .int min max step, x =>
    ∃ k : ℕ, min + (k + 1) * step ≤ max ∧
      ((toLong x : K) < min + (k + 1 / 2) * step ∧ (min : K) + (k + 1 / 2) * step < x ∨
        x < min + (k + 1 / 2) * step ∧ (min : K) + (k + 1 / 2) * step ≤ toLong x)
  | _, _ => False

/-! ## Values -/

section

variable [IsStrictOrderedRing K]

/-- The value of an integer coordinate is nearest unless the conversion goes across a middle. -/
lemma int_leastDistance_iff {min max step : ℤ} (hmm : min ≤ max) (hstep : 0 < step) (x : K) :
    LeastDistance (Int.cast '' gridPoints min max step) x
        ((hrangeIntNearest K min max step (toLong x) : ℤ) : K) ↔ ¬CutsAcross (.int min max step) x := by
  have hpos : (0 : K) < step := by exact_mod_cast hstep
  have hposition : ∀ y : K, y = min + ((y - min) / step) * step := by
    intro y
    rw [div_mul_cancel₀ _ hpos.ne', add_sub_cancel]
  -- the order of a coordinate and a middle is that of their positions
  have hbelow : ∀ (j : ℕ) (y : K), y < min + (j + 1 / 2) * step ↔ (y - min) / step < j + 1 / 2 := by
    intro j y
    rw [div_lt_iff₀ hpos, sub_lt_iff_lt_add']
  have habove : ∀ (j : ℕ) (y : K), (min : K) + (j + 1 / 2) * step < y ↔ j + 1 / 2 < (y - min) / step := by
    intro j y
    rw [lt_div_iff₀ hpos, lt_sub_iff_add_lt']
  have hat : ∀ (j : ℕ) (y : K), (min : K) + (j + 1 / 2) * step ≤ y ↔ j + 1 / 2 ≤ (y - min) / step := by
    intro j y
    rw [le_div_iff₀ hpos, le_sub_iff_add_le']
  have hnext : ∀ j : ℕ, min + ((j : ℤ) + 1) * step ≤ max ↔ j < hrangeIntMaxIdx min max step := by
    intro j
    have hle := le_hrangeIntMaxIdx hmm hstep (j + 1)
    rw [Nat.cast_add, Nat.cast_one] at hle
    rw [← hle]
    exact Nat.succ_le_iff
  have hcast : (((toLong x - min : ℤ) : K)) = (toLong x : K) - min := Int.cast_sub _ _
  obtain ⟨hlow, hhigh⟩ := nearestIndex_spec (((toLong x : K) - min) / step) (hrangeIntMaxIdx min max step)
  have hindex : hrangeIntIndex K min max step (toLong x) =
      nearestIndex (((toLong x : K) - min) / step) (hrangeIntMaxIdx min max step) := by
    unfold hrangeIntIndex
    rw [hcast]
  have hleast := LeastDistance.affine_iff (x := (x - min) / step)
    (S := {g : K | ∃ j : ℕ, j ≤ hrangeIntMaxIdx min max step ∧ g = j})
    (g := (hrangeIntIndex K min max step (toLong x) : K)) (min : K) hpos
  rw [← hposition x] at hleast
  rw [gridPoints_intCast hmm hstep, hrangeIntNearest_cast, hleast, hindex,
    LeastDistance.iff_no_middle (nearestIndex_le _ _) hlow hhigh]
  constructor
  · intro h hcut
    obtain ⟨k, hk, hbetween⟩ := hcut
    rw [hbelow, habove, hbelow, hat] at hbetween
    exact h k ((hnext k).mp hk) hbetween
  · intro h j hj hbetween
    apply h
    refine ⟨j, (hnext j).mpr hj, ?_⟩
    rw [hbelow, habove, hbelow, hat]
    exact hbetween

/-- A real range without a grid is cut at its ends. -/
lemma hrangeRealNearest_free {min max step : K} (hmm : min ≤ max) (hstep : ¬0 < step) (x : K) :
    LeastDistance (Set.Icc min max) x (hrangeRealNearest min max step x) := by
  unfold hrangeRealNearest
  rw [if_neg hstep]
  dsimp only
  split_ifs with hlow hhigh hhigh
  · exact absurd hhigh (not_lt.mpr hmm)
  · refine ⟨⟨le_refl min, hmm⟩, ?_⟩
    intro y hy
    rw [abs_of_pos (sub_pos.mpr hlow), abs_of_pos (sub_pos.mpr (hlow.trans_le hy.1))]
    exact sub_le_sub_right hy.1 x
  · refine ⟨⟨hmm, le_refl max⟩, ?_⟩
    intro y hy
    rw [abs_of_neg (sub_neg.mpr hhigh), abs_of_neg (sub_neg.mpr (hy.2.trans_lt hhigh))]
    exact neg_le_neg (sub_le_sub_right hy.2 x)
  · refine ⟨⟨not_lt.mp hlow, not_lt.mp hhigh⟩, ?_⟩
    intro y hy
    rw [sub_self, abs_zero]
    exact abs_nonneg _

lemma real_leastDistance {min max step : K} (hmm : min ≤ max) (x : K) :
    LeastDistance (if 0 < step then gridPoints min max step else Set.Icc min max) x
      (hrangeRealNearest min max step x) := by
  by_cases hstep : 0 < step
  · rw [if_pos hstep]
    exact (hrangeRealNearest_nearestPoint hmm hstep x).leastDistance
  · rw [if_neg hstep]
    exact hrangeRealNearest_free hmm hstep x

lemma hrangeStrMaxIdx_eq {set : List Bytes} (hset : set ≠ []) : hrangeStrMaxIdx set = set.length - 1 := by
  unfold hrangeStrMaxIdx
  rw [if_neg (List.length_pos_of_ne_nil hset).ne']

/-- An index that is cut after it is rounded. -/
lemma floor_cut_eq (x : K) (n : ℕ) :
    (if ⌊x + 1 / 2⌋₊ > n then n else ⌊x + 1 / 2⌋₊) = nearestIndex x n := by
  unfold nearestIndex
  dsimp only
  by_cases hneg : x + 1 / 2 < 0
  · rw [if_pos hneg, if_neg (not_lt.mpr n.cast_nonneg), Nat.floor_of_nonpos hneg.le, Nat.floor_zero,
      if_neg (Nat.not_lt_zero n)]
  · rw [if_neg hneg]
    by_cases hlt : x + 1 / 2 > n
    · rw [if_pos hlt, Nat.floor_natCast]
      have hle : n ≤ ⌊x + 1 / 2⌋₊ := Nat.le_floor hlt.le
      split_ifs with hgt
      · rfl
      · omega
    · rw [if_neg hlt]
      have hle : ⌊x + 1 / 2⌋₊ ≤ n := by
        have hmono := Nat.floor_le_floor (not_lt.mp hlt)
        rw [Nat.floor_natCast] at hmono
        exact hmono
      rw [if_neg (not_lt.mpr hle)]

/-- A coordinate that is cut before it is rounded. -/
lemma cut_floor_eq (x : K) (n : ℕ) :
    ⌊(if (if x < 0 then 0 else x) > n then (n : K) else if x < 0 then 0 else x) + 1 / 2⌋₊ =
      nearestIndex x n := by
  have hhalf : (0 : K) < 1 / 2 := by positivity
  have hfloor : ∀ k : ℕ, ⌊(k : K) + 1 / 2⌋₊ = k := by
    intro k
    rw [Nat.floor_eq_iff (add_nonneg k.cast_nonneg hhalf.le)]
    constructor
    · linarith
    · linarith
  rw [← floor_cut_eq]
  by_cases hneg : x < 0
  · rw [if_pos hneg, if_neg (not_lt.mpr n.cast_nonneg)]
    have hzero : ⌊x + 1 / 2⌋₊ = 0 := by
      rw [Nat.floor_eq_zero]
      linarith
    have h0 := hfloor 0
    rw [Nat.cast_zero] at h0
    rw [h0, hzero, if_neg (Nat.not_lt_zero n)]
  · rw [if_neg hneg]
    by_cases hlt : x > n
    · have hle : n ≤ ⌊x + 1 / 2⌋₊ := Nat.le_floor (by linarith)
      rw [if_pos hlt, hfloor]
      split_ifs with hgt
      · rfl
      · omega
    · have hle : ⌊x + 1 / 2⌋₊ ≤ n := by
        have hmono := Nat.floor_le_floor (add_le_add_left (not_lt.mp hlt) (1 / 2))
        rw [hfloor] at hmono
        exact hmono
      rw [if_neg hlt, if_neg (not_lt.mpr hle)]

/-- The coordinate of an enumeration is rounded to the nearest index. -/
lemma termToHval_str {set : List Bytes} (hset : set ≠ []) (x : K) :
    termToHval (.str set) x = some (.str set[nearestIndex x (set.length - 1)]?) := by
  unfold termToHval hrangeStrValue
  dsimp only
  simp only [Nat.not_lt_zero, if_false]
  rw [hrangeStrMaxIdx_eq hset, floor_cut_eq, if_neg (not_lt.mpr (nearestIndex_le _ _))]

lemma termRegrid_str {set : List Bytes} (hset : set ≠ []) (x : K) :
    termRegrid (.str set) x = (nearestIndex x (set.length - 1) : K) := by
  have hcast : ((set.length - 1 : ℕ) : K) = set.length - 1 := by
    rw [Nat.cast_sub (List.length_pos_of_ne_nil hset), Nat.cast_one]
  rw [← cut_floor_eq, hcast]
  rfl

/-- The value of one coordinate is nearest exactly when the conversion does not go across a middle. -/
lemma termToHval_spec {bounds : HBounds K} (h : bounds.HasValues) (x : K) :
    ∃ val, termToHval bounds x = some val ∧ (NearestValue bounds x val ↔ ¬CutsAcross bounds x) := by
  cases bounds with
  | unknown => exact absurd h (fun hfalse => hfalse)
  | int min max step =>
    refine ⟨.int (hrangeIntNearest K min max step (toLong x)), rfl, ?_⟩
    rw [← int_leastDistance_iff h.1 h.2 x]
    constructor
    · intro hnear
      obtain ⟨z, hz, hleast⟩ := hnear
      rw [HVal.int.inj hz]
      exact hleast
    · intro hleast
      exact ⟨_, rfl, hleast⟩
  | real min max step =>
    refine ⟨.real (hrangeRealNearest min max step x), rfl, ?_⟩
    constructor
    · intro _ hcut
      exact hcut
    · intro _
      exact ⟨_, rfl, real_leastDistance h.1 x⟩
  | str set =>
    refine ⟨.str set[nearestIndex x (set.length - 1)]?, termToHval_str h x, ?_⟩
    constructor
    · intro _ hcut
      exact hcut
    · intro _
      exact ⟨_, rfl, (nearestIndex_nearestPoint x (set.length - 1)).leastDistance⟩

omit [LinearOrder K] [FloorRing K] [IsStrictOrderedRing K] in
lemma mapM_finRange {α : Type} {f : Fin N → Option α} {g : Fin N → α} (h : ∀ i, f i = some (g i)) :
    (List.finRange N).mapM f = some (List.ofFn g) := by
  have hf : f = fun i => some (g i) := funext h
  rw [hf, List.ofFn_eq_map]
  exact List.mapM_pure

/-- The point of a vertex has the value at the least distance from each coordinate, within bounds or not,
exactly where the conversion to `long` does not go across the middle of two values of an integer range. -/
theorem vertex_to_hpoint_nearest_iff {range : Fin N → HBounds K} (h : ∀ i, (range i).HasValues)
    (v : Vertex (Fin N → K) W) :
    ∃ val : Fin N → HVal K, vertexToHpoint range v = some { id := v.id, val := List.ofFn val } ∧
      ((∀ i, NearestValue (range i) (v.term i) (val i)) ↔ ∀ i, ¬CutsAcross (range i) (v.term i)) := by
  choose val hval hnear using fun i => termToHval_spec (h i) (v.term i)
  refine ⟨val, ?_, forall_congr' hnear⟩
  unfold vertexToHpoint
  rw [mapM_finRange hval]
  rfl

/-- A vertex with one coordinate. -/
def pointVertex (x : ℚ) : Vertex (Fin 1 → ℚ) (WithTop ℚ) := { id := 1, perf := ⟨[⊤]⟩, term := fun _ => x }

/-- 6.5 is cut off to 6, at the middle of 4 and 8, and is tested at 8. -/
theorem vertex_to_hpoint_nearest_at_middle :
    ∃ val, vertexToHpoint (fun _ => .int 0 10 4) (pointVertex (13 / 2)) =
        some { id := 1, val := List.ofFn val } ∧
      ∀ i, NearestValue (.int 0 10 4) ((pointVertex (13 / 2)).term i) (val i) := by
  have hvalues : ∀ i : Fin 1, ((fun _ => .int 0 10 4 : Fin 1 → HBounds ℚ) i).HasValues :=
    fun _ => And.intro (by decide) (by decide)
  obtain ⟨val, hval, hnear⟩ := vertex_to_hpoint_nearest_iff hvalues (pointVertex (13 / 2))
  refine ⟨val, hval, hnear.mpr ?_⟩
  intro i hcut
  obtain ⟨k, hk, hbetween⟩ := hcut
  have hterm : (pointVertex (13 / 2)).term i = 13 / 2 := rfl
  have hlong : toLong (13 / 2 : ℚ) = 6 := by decide +kernel
  rw [hterm, hlong] at hbetween
  obtain rfl | rfl : k = 0 ∨ k = 1 := by omega
  · norm_num at hbetween
  · norm_num at hbetween

/-- 0.9 is cut off to 0 and is tested there. -/
theorem vertex_to_hpoint_cut_off :
    InBounds (fun _ => .int 0 10 1) (internalVertexMax fun _ => .int 0 10 1) (pointVertex (9 / 10)).term ∧
      vertexToHpoint (fun _ => .int 0 10 1) (pointVertex (9 / 10)) = some { id := 1, val := [.int 0] } ∧
      ¬NearestValue (.int 0 10 1) (9 / 10 : ℚ) (.int 0) := by
  have hin : vertexOutofbounds (fun _ => .int 0 10 1) (internalVertexMax fun _ => .int 0 10 1)
      (pointVertex (9 / 10)).term = false := by decide +kernel
  refine ⟨hin, by decide +kernel, ?_⟩
  intro hnear
  obtain ⟨z, hz, hleast⟩ := hnear
  obtain rfl := HVal.int.inj hz
  have hle := hleast.minimal 1 ⟨1, ⟨1, by decide, by decide⟩, Int.cast_one⟩
  norm_num [abs_of_neg, abs_of_pos] at hle

/-! ## Collapsed simplexes -/

variable [Top W] {range : Fin N → HBounds K} {vmax : Fin N → K}

omit [IsStrictOrderedRing K] in
lemma vertexRegrid_inBounds {v : Vertex (Fin N → K) W} (hin : InBounds range vmax v.term) :
    (vertexRegrid range vmax v).2.term = fun i => termRegrid (range i) (v.term i) := by
  unfold vertexRegrid
  rw [if_neg (by rw [hin]; exact Bool.false_ne_true)]

/-- Two coordinates have one term on the grid exactly when they have one value. -/
lemma termRegrid_eq_iff {bounds : HBounds K} (h : bounds.HasValues)
    (hnodup : ∀ set, bounds = .str set → set.Nodup) (x y : K) :
    termRegrid bounds x = termRegrid bounds y ↔ termToHval bounds x = termToHval bounds y := by
  cases bounds with
  | unknown => exact absurd h (fun hfalse => hfalse)
  | int min max step =>
    show ((_ : ℤ) : K) = ((_ : ℤ) : K) ↔ some (HVal.int _) = some (HVal.int _)
    rw [Int.cast_inj, Option.some.injEq, HVal.int.injEq]
  | real min max step =>
    show hrangeRealNearest min max step x = hrangeRealNearest min max step y ↔
      some (HVal.real _) = some (HVal.real _)
    rw [Option.some.injEq, HVal.real.injEq]
  | str set =>
    have hpos := List.length_pos_of_ne_nil h
    have hlt : ∀ z : K, nearestIndex z (set.length - 1) < set.length := by
      intro z
      have hle := nearestIndex_le z (set.length - 1)
      omega
    rw [termRegrid_str h, termRegrid_str h, termToHval_str h, termToHval_str h, Nat.cast_inj,
      Option.some.injEq, HVal.str.injEq]
    constructor
    · intro heq
      rw [heq]
    · intro heq
      exact (List.getElem?_inj (hlt x) (hnodup set rfl)).mp heq

omit [IsStrictOrderedRing K] in
/-- The vertices are compared with the first one. -/
lemma simplexCollapsed_cons {first : Vertex (Fin N → K) W} {rest : List (Vertex (Fin N → K) W)}
    (hlen : N < (first :: rest).length) (hin : ∀ v ∈ first :: rest, InBounds range vmax v.term) :
    simplexCollapsed range vmax ⟨first :: rest, hlen⟩ = 1 ↔
      ∀ v ∈ rest, ∀ i, termRegrid (range i) (first.term i) = termRegrid (range i) (v.term i) := by
  unfold simplexCollapsed
  dsimp only [List.head_cons, List.tail_cons]
  rw [vertexRegrid_inBounds (hin first List.mem_cons_self)]
  split_ifs with hall
  · rw [List.all_eq_true] at hall
    refine ⟨fun _ => ?_, fun _ => rfl⟩
    intro v hv i
    have hsame := List.all_eq_true.mp (hall v hv) i (List.mem_finRange i)
    rw [vertexRegrid_inBounds (hin v (List.mem_cons_of_mem _ hv))] at hsame
    exact of_decide_eq_true hsame
  · refine ⟨fun hzero => absurd hzero Int.zero_ne_one, fun hsame => absurd ?_ hall⟩
    apply List.all_eq_true.mpr
    intro v hv
    rw [vertexRegrid_inBounds (hin v (List.mem_cons_of_mem _ hv))]
    apply List.all_eq_true.mpr
    intro i _
    exact decide_eq_true (hsame v hv i)

/-- For vertices within bounds, `simplex_collapsed` finds that they are all tested at the same values. -/
theorem simplex_collapsed_iff (h : ∀ i, (range i).HasValues)
    (hnodup : ∀ i set, range i = .str set → set.Nodup) (s : Simplex N K W)
    (hin : ∀ v ∈ s.vertex, InBounds range (internalVertexMax range) v.term) :
    simplexCollapsed range (internalVertexMax range) s = 1 ↔
      ∃ vals, ∀ v ∈ s.vertex, (vertexToHpoint range v).map HPoint.val = some vals := by
  obtain ⟨vertex, hlen⟩ := s
  obtain _ | ⟨first, rest⟩ := vertex
  · exact absurd hlen (Nat.not_lt_zero N)
  choose val hval _ using fun i x => termToHval_spec (h i) x
  have hpoint : ∀ v : Vertex (Fin N → K) W, (vertexToHpoint range v).map HPoint.val =
      some (List.ofFn fun i => val i (v.term i)) := by
    intro v
    unfold vertexToHpoint
    rw [mapM_finRange fun i => hval i (v.term i)]
    rfl
  have hterm : ∀ v : Vertex (Fin N → K) W,
      (∀ i, termRegrid (range i) (first.term i) = termRegrid (range i) (v.term i)) ↔
        (List.ofFn fun i => val i (first.term i)) = List.ofFn fun i => val i (v.term i) := by
    intro v
    rw [List.ofFn_inj, funext_iff]
    apply forall_congr'
    intro i
    rw [termRegrid_eq_iff (h i) (hnodup i), hval, hval, Option.some.injEq]
  rw [simplexCollapsed_cons hlen hin]
  constructor
  · intro hsame
    refine ⟨List.ofFn fun i => val i (first.term i), ?_⟩
    intro v hv
    rw [hpoint]
    obtain rfl | hv := List.mem_cons.mp hv
    · rfl
    · rw [(hterm v).mp (hsame v hv)]
  · intro ⟨vals, hvals⟩ v hv
    have hfirst := hvals first List.mem_cons_self
    have hother := hvals v (List.mem_cons_of_mem _ hv)
    rw [hpoint] at hfirst hother
    exact (hterm v).mpr ((Option.some.inj hfirst).trans (Option.some.inj hother).symm)

end

end

/-- Two vertices between 0 and 1 that are both tested at 0. -/
theorem simplex_collapsed_at_zero :
    simplexCollapsed (fun _ => .int 0 10 1) (internalVertexMax fun _ => .int 0 10 1)
        ⟨[pointVertex (9 / 10), pointVertex (1 / 10)], by decide⟩ = 1 ∧
      ∃ vals, ∀ v ∈ [pointVertex (9 / 10), pointVertex (1 / 10)],
        (vertexToHpoint (fun _ => .int 0 10 1) v).map HPoint.val = some vals := by
  have hcollapsed : simplexCollapsed (fun _ => .int 0 10 1) (internalVertexMax fun _ => .int 0 10 1)
      ⟨[pointVertex (9 / 10), pointVertex (1 / 10)], by decide⟩ = 1 := by decide +kernel
  have hvalues : ∀ i : Fin 1, ((fun _ => .int 0 10 1 : Fin 1 → HBounds ℚ) i).HasValues :=
    fun _ => And.intro (by decide) (by decide)
  have hin : ∀ x : ℚ, x = 9 / 10 ∨ x = 1 / 10 → vertexOutofbounds (fun _ => .int 0 10 1)
      (internalVertexMax fun _ => .int 0 10 1) (pointVertex x).term = false := by
    intro x hx
    obtain rfl | rfl := hx
    · decide +kernel
    · decide +kernel
  refine ⟨hcollapsed, (simplex_collapsed_iff hvalues ?_ _ ?_).mp hcollapsed⟩
  · intro i set hset
    cases hset
  · intro v hv
    obtain rfl | hv := List.mem_cons.mp hv
    · exact hin _ (Or.inl rfl)
    · rw [List.mem_singleton.mp hv]
      exact hin _ (Or.inr rfl)

end ActiveHarmony

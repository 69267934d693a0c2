import ActiveHarmony.Strategy.UnitSimplex

/-!
# The initial simplex

The functions of `libvertex.c` that choose the initial point of `nm.c` and `pro.c` and the simplex around
it. The simplex is within bounds whatever the point is, also when `INIT_POINT` cannot be read and the point
is what was left in memory.
-/

namespace ActiveHarmony

/-! ## Points -/

section

variable {N : ℕ} {K ρ : Type} [Field K] [LinearOrder K]

/-- `internal_vertex_min`. -/
def internalVertexMin (range : Fin N → HBounds K) : Fin N → K := fun i => lowerBound (range i)

attribute [local instance] two_atLeastTwo in
/-- `vertex_center`. -/
def vertexCenter (vmin vmax : Fin N → K) : Fin N → K := fun i => vmin i + (vmax i - vmin i) / 2

variable [FloorRing K]

attribute [local instance] two_atLeastTwo in
/-- One round of the loop of `vertex_rand_trim`; the coordinate has the value `size` before. -/
def randTerm (gen : Rand48 K ρ) (bounds : HBounds K) (size : K) (rand : ρ) : Option (K × ρ) :=
  match bounds with
  | .int min max step =>
    let (r, rand) := gen.drand48 rand
    let rval := (((max - min : ℤ) : K) - size) * r
    let rval := rval + ((min : K) + size / 2)
    some ((hrangeIntNearest K min max step (toLong rval) : K), rand)
  | .real min max step =>
    let (r, rand) := gen.drand48 rand
    let rval := (max - min - size) * r
    let rval := rval + (min + size / 2)
    some (hrangeRealNearest min max step rval, rand)
  | .str set =>
    let (r, rand) := gen.drand48 rand
    let rval := ((set.length : K) - 1 - size) * r
    some (rval + size / 2, rand)
  | .unknown => none

/-- The loop of `vertex_rand_trim`. -/
def randTerms (gen : Rand48 K ρ) (range : Fin N → HBounds K) :
    List (Fin N) → (Fin N → K) → ρ → ℤ × (Fin N → K) × ρ
  | [], term, rand => (0, term, rand)
  | i :: is, term, rand =>
    match randTerm gen (range i) (term i) rand with
    | none => (-1, term, rand)
    | some (x, rand) => randTerms gen range is (Function.update term i x) rand

/-- `vertex_rand_trim`. -/
def vertexRandTrim (gen : Rand48 K ρ) (range : Fin N → HBounds K) (trimPercentage : K) (rand : ρ) :
    ℤ × (Fin N → K) × ρ :=
  randTerms gen range (List.finRange N)
    (vertexPercent (internalVertexMin range) (internalVertexMax range) trimPercentage) rand

/-- `vertex_rand`, without its return value. -/
def vertexRandTerm (gen : Rand48 K ρ) (range : Fin N → HBounds K) (rand : ρ) : (Fin N → K) × ρ :=
  (vertexRandTrim gen range 0 rand).2

/-- One round of the loop of `vertex_from_hpoint`; a string that is not in the set has the index behind
the last one. -/
def termFromHval : HBounds K → HVal K → Option K
  | .int .., .int i => some i
  | .real .., .real r => some r
  | .str set, .str (some s) => some (set.findIdx (· = s) : ℕ)
  | _, _ => none

end

section

variable {K : Type} [Field K] [LinearOrder K] [FloorRing K]

/-- `range`, which `libvertex_init` takes from the signature. -/
def HSignature.bounds (sig : HSignature K) : Fin sig.range.length → HBounds K := fun i => (sig.range.get i).bounds

/-- `vertex_from_hpoint`. -/
def vertexFromHpoint (sig : HSignature K) (val : List (HVal K)) : Option (Fin sig.range.length → K) :=
  if h : val.length = sig.range.length then
    let term := fun i : Fin sig.range.length => termFromHval (sig.bounds i) (val.get (i.cast h.symm))
    if ∀ i, (term i).isSome then some fun i => (term i).getD 0 else none
  else none

/-- `vertex_from_string`; the coordinates stay when it fails. The values that `hpoint_parse` reads are those of
`parse`. -/
def vertexFromString (parse : Bytes → Option (List (HVal K))) (sig : HSignature K) (str : Option Bytes)
    (result : Fin sig.range.length → K) : ℤ × (Fin sig.range.length → K) :=
  match ((str.bind parse).bind (hpointAlign sig.range)).bind (vertexFromHpoint sig) with
  | none => (-1, result)
  | some term => (0, term)

end

/-! ## The simplex around the point -/

/-- `init_method`. -/
inductive SimplexInit where
  | center | random | point
deriving DecidableEq, Repr

/-- The functions of the C library that the strategies call, and what `hpoint_parse` reads with these. -/
structure Libc (K ρ : Type) [Field K] [LinearOrder K] where
  libm : Libm K
  gen : Rand48 K ρ
  strtod : Bytes → K × Bytes
  parse : Bytes → Option (List (HVal K))

section

variable {K ρ : Type} [Field K] [LinearOrder K] [FloorRing K] (libc : Libc K ρ) (sig : HSignature K)

/-- The choice of `init_point` in `strategy_init`. -/
def initialPoint (method : SimplexInit) (percent : K) (cfg : Hcfg) (init : Fin sig.range.length → K) (rand : ρ) :
    (Fin sig.range.length → K) × ρ :=
  match method with
  | .center => (vertexCenter (internalVertexMin sig.bounds) (internalVertexMax sig.bounds), rand)
  | .random => (vertexRandTrim libc.gen sig.bounds percent rand).2
  | .point => ((vertexFromString libc.parse sig (hcfgGet cfg cfgkeyInitPoint) init).2, rand)

/-- The memory of `simplex_alloc`. -/
def simplexAlloc {N : ℕ} (m : ℕ) (h : N < m) : Simplex N K (WithTop K) where
  vertex := List.replicate m { id := 0, perf := ⟨[]⟩, term := fun _ => 0 }
  len := by rw [List.length_replicate]; exact h

/-- The end of `strategy_init`: `init_point` and `simplex_from_vertex`, whose return value is not used. The
coordinates that `init_point` has from before are `init`. -/
def initialSimplex (method : SimplexInit) (percent : K) (cfg : Hcfg) (size : ℕ)
    (state : ρ × (Fin sig.range.length → K)) :
    List (Fin sig.range.length → K) × ρ × (Fin sig.range.length → K) :=
  let (rand, init) := state
  let (init, rand) := initialPoint libc sig method percent cfg init rand
  if h : sig.range.length < size then
    let (_, s, rand) := simplexFromVertexRotated libc.libm libc.gen (internalVertexMin sig.bounds)
      (internalVertexMax sig.bounds) (vertexRandTerm libc.gen sig.bounds) init percent (simplexAlloc size h) rand
    (s.vertex.map Vertex.term, rand, init)
  else ([], rand, init)

end

/-! ## Bounds -/

section

variable {N : ℕ} {K W ρ : Type} [Field K] [LinearOrder K] [FloorRing K]

/-- The ranges have values, and their greatest indices go through an `int`. -/
structure HBounds.Indexed (bounds : HBounds K) : Prop where
  values : bounds.HasValues
  index_lt : hrangeMaxIdx bounds < 2 ^ 31

/-- The greatest value of a range. -/
def upperBound : HBounds K → K
  | .int min max step => min + (hrangeIntMaxIdx min max step : K) * step
  | .real min max step => if step > 0 then min + hrangeRealMaxIdx min max step * step else max
  | .str set => set.length - 1
  | .unknown => 0

lemma internalVertexMax_eq {range : Fin N → HBounds K} {i : Fin N} (h : (range i).Indexed) :
    internalVertexMax range i = upperBound (range i) := by
  have hidx : ((hrangeMaxIdx (range i) : ℤ).bmod (2 ^ 32) % 2 ^ 64).toNat = hrangeMaxIdx (range i) := by
    have hlt := h.index_lt
    rw [Int.bmod_eq_of_le (by omega) (by omega), Int.emod_eq_of_lt (by omega) (by omega), Int.toNat_natCast]
  unfold internalVertexMax
  dsimp only
  rw [hidx]
  cases hrange : range i with
  | int min max step =>
    simp only [hrangeMaxIdx, hrangeIntValue, upperBound, gt_iff_lt, lt_irrefl, if_false, Nat.not_lt_zero]
    push_cast
    rfl
  | real min max step =>
    simp only [hrangeMaxIdx, hrangeRealValue, upperBound, gt_iff_lt, lt_irrefl, if_false, Nat.not_lt_zero]
  | str set => rfl
  | unknown => rfl

variable [IsStrictOrderedRing K]

lemma lower_le_upper {bounds : HBounds K} (h : bounds.HasValues) : lowerBound bounds ≤ upperBound bounds := by
  cases bounds with
  | int min max step =>
    have hstep : (0 : K) ≤ step := by exact_mod_cast h.2.le
    exact le_add_of_nonneg_right (mul_nonneg (Nat.cast_nonneg _) hstep)
  | real min max step =>
    show min ≤ if step > 0 then min + hrangeRealMaxIdx min max step * step else max
    split_ifs with hstep
    · exact le_add_of_nonneg_right (mul_nonneg (Nat.cast_nonneg _) hstep.le)
    · exact h.1
  | str set =>
    have hpos : (1 : K) ≤ set.length := by exact_mod_cast List.length_pos_of_ne_nil h
    exact sub_nonneg.mpr hpos
  | unknown => exact absurd h (fun hfalse => hfalse)

/-- A random coordinate is within bounds. -/
lemma randTerm_spec (gen : Rand48 K ρ) {bounds : HBounds K} (h : bounds.HasValues) {size : K} (hnonneg : 0 ≤ size)
    (hsize : size ≤ upperBound bounds - lowerBound bounds) (rand : ρ) :
    ∃ x rand', randTerm gen bounds size rand = some (x, rand') ∧
      x ∈ Set.Icc (lowerBound bounds) (upperBound bounds) := by
  have hr := gen.drand48_nonneg rand
  have hr' := gen.drand48_lt_one rand
  cases bounds with
  | int min max step =>
    refine ⟨_, _, rfl, ?_⟩
    have hstep : (0 : K) ≤ step := by exact_mod_cast h.2.le
    rw [hrangeIntNearest_cast]
    constructor
    · exact le_add_of_nonneg_right (mul_nonneg (Nat.cast_nonneg _) hstep)
    · exact add_le_add_right (mul_le_mul_of_nonneg_right (Nat.cast_le.mpr (nearestIndex_le _ _)) hstep) _
  | real min max step =>
    refine ⟨_, _, rfl, ?_⟩
    by_cases hstep : step > 0
    · rw [hrangeRealNearest, if_pos hstep, upperBound, if_pos hstep]
      constructor
      · exact le_add_of_nonneg_right (mul_nonneg (Nat.cast_nonneg _) hstep.le)
      · exact add_le_add_right (mul_le_mul_of_nonneg_right (Nat.cast_le.mpr (nearestIndex_le _ _)) hstep.le) _
    · rw [upperBound, if_neg hstep]
      exact (hrangeRealNearest_free h.1 hstep _).mem
  | str set =>
    refine ⟨_, _, rfl, ?_⟩
    have hwidth : size ≤ (set.length : K) - 1 - 0 := hsize
    rw [sub_zero] at hwidth
    show 0 ≤ ((set.length : K) - 1 - size) * _ + size / 2 ∧ _ ≤ (set.length : K) - 1
    have hrest := sub_nonneg.mpr hwidth
    constructor
    · exact add_nonneg (mul_nonneg hrest hr) (by linarith)
    · have hle := mul_le_of_le_one_right hrest hr'.le
      linarith
  | unknown => exact absurd h (fun hfalse => hfalse)

/-- The loop over the coordinates brings each of them within bounds. -/
lemma randTerms_spec (gen : Rand48 K ρ) {range : Fin N → HBounds K} (h : ∀ i, (range i).HasValues) {is : List (Fin N)}
    (hnodup : is.Nodup) {term : Fin N → K}
    (hterm : ∀ i ∈ is, 0 ≤ term i ∧ term i ≤ upperBound (range i) - lowerBound (range i)) (rand : ρ) :
    ∃ term' rand', randTerms gen range is term rand = (0, term', rand') ∧ (∀ i ∉ is, term' i = term i) ∧
      ∀ i ∈ is, term' i ∈ Set.Icc (lowerBound (range i)) (upperBound (range i)) := by
  induction is generalizing term rand with
  | nil => exact ⟨term, rand, rfl, fun _ _ => rfl, fun _ hi => absurd hi List.not_mem_nil⟩
  | cons i is ih =>
    obtain ⟨hnot, hnodup⟩ := List.nodup_cons.mp hnodup
    obtain ⟨hnonneg, hle⟩ := hterm i List.mem_cons_self
    obtain ⟨x, rand₁, hx, hin⟩ := randTerm_spec gen (h i) hnonneg hle rand
    have hother : ∀ k, k ≠ i → Function.update term i x k = term k := fun k hk => Function.update_of_ne hk _ _
    have hterm' : ∀ k ∈ is, 0 ≤ Function.update term i x k ∧
        Function.update term i x k ≤ upperBound (range k) - lowerBound (range k) := by
      intro k hk
      rw [hother k fun heq => hnot (heq ▸ hk)]
      exact hterm k (List.mem_cons_of_mem _ hk)
    obtain ⟨term', rand', hrun, hkeep, hall⟩ := ih hnodup hterm' rand₁
    refine ⟨term', rand', ?_, ?_, ?_⟩
    · rw [randTerms, hx]
      exact hrun
    · intro k hk
      obtain ⟨hne, hk⟩ := not_or.mp (fun hor => hk (List.mem_cons.mpr hor))
      rw [hkeep k hk, hother k hne]
    · intro k hk
      obtain rfl | hk := List.mem_cons.mp hk
      · rw [hkeep k hnot, Function.update_self]
        exact hin
      · exact hall k hk

/-- Random vertices are within bounds, trimmed or not. -/
lemma vertexRandTrim_spec (gen : Rand48 K ρ) {range : Fin N → HBounds K} (h : ∀ i, (range i).Indexed) {trim : K}
    (hnonneg : 0 ≤ trim) (hle : trim ≤ 1) (rand : ρ) :
    ∃ term rand', vertexRandTrim gen range trim rand = (0, term, rand') ∧
      InBounds range (internalVertexMax range) term := by
  have hwidth : ∀ i, 0 ≤ upperBound (range i) - lowerBound (range i) := fun i =>
    sub_nonneg.mpr (lower_le_upper (h i).values)
  have hterm : ∀ i ∈ List.finRange N,
      0 ≤ vertexPercent (internalVertexMin range) (internalVertexMax range) trim i ∧
        vertexPercent (internalVertexMin range) (internalVertexMax range) trim i ≤
          upperBound (range i) - lowerBound (range i) := by
    intro i _
    rw [vertexPercent, internalVertexMax_eq (h i)]
    exact ⟨mul_nonneg (hwidth i) hnonneg, mul_le_of_le_one_right (hwidth i) hle⟩
  obtain ⟨term, rand', hrun, -, hin⟩ :=
    randTerms_spec gen (fun i => (h i).values) (List.nodup_finRange N) hterm rand
  refine ⟨term, rand', hrun, inBounds_iff.mpr ⟨fun i hi => ?_, fun i => ?_, fun i => ?_⟩⟩
  · have hvalues := (h i).values
    rw [hi] at hvalues
    exact hvalues
  · exact (hin i (List.mem_finRange i)).1
  · rw [internalVertexMax_eq (h i)]
    exact (hin i (List.mem_finRange i)).2

omit [LinearOrder K] [FloorRing K] [IsStrictOrderedRing K] [Field K] in
/-- The vertices behind the first `N + 1` come from the generator. -/
lemma fillRandom_term [Top W] (vertexRand : ρ → (Fin N → K) × ρ) {vs : List (Vertex (Fin N → K) W)} {rand : ρ}
    {v : Vertex (Fin N → K) W} (hv : v ∈ (fillRandom vertexRand vs rand).1) : ∃ rand, v.term = (vertexRand rand).1 := by
  induction vs generalizing rand with
  | nil => exact absurd hv List.not_mem_nil
  | cons u vs ih =>
    obtain rfl | hv := List.mem_cons.mp hv
    · exact ⟨rand, rfl⟩
    · exact ih hv

omit [Field K] [LinearOrder K] [FloorRing K] [IsStrictOrderedRing K] in
lemma length_fill [Top W] (s : Simplex N K W) (vertexRand : ρ → (Fin N → K) × ρ) (rand : ρ) :
    (s.fill vertexRand rand).1.vertex.length = s.vertex.length := by
  have hlen := s.len
  simp only [Simplex.fill, List.length_append, fillRandom_length, List.length_take, List.length_drop]
  omega

omit [Field K] [LinearOrder K] [FloorRing K] [IsStrictOrderedRing K] in
lemma mem_fill [Top W] {s : Simplex N K W} {vertexRand : ρ → (Fin N → K) × ρ} {rand : ρ}
    {v : Vertex (Fin N → K) W} (hv : v ∈ (s.fill vertexRand rand).1.vertex) :
    (∃ j, v.term = s.coord j) ∨ ∃ rand, v.term = (vertexRand rand).1 := by
  obtain hv | hv := List.mem_append.mp hv
  · obtain ⟨j, hj, rfl⟩ := List.mem_iff_getElem.mp hv
    have hj' : j < N + 1 := by
      rw [List.length_take] at hj
      omega
    refine Or.inl ⟨⟨j, hj'⟩, ?_⟩
    rw [List.getElem_take]
    rfl
  · exact Or.inr (fillRandom_term vertexRand hv)

omit [FloorRing K] in
/-- A simplex that fits has as many vertices as before; all behind the first `N + 1` are random. -/
lemma simplexFromVertex_vertex [Top W] {vmin vmax : Fin N → K} {unit : Coords N K} {vertexRand : ρ → (Fin N → K) × ρ}
    {term : Fin N → K} {percent : K} {s s' : Simplex N K W} {rand rand' : ρ}
    (hrun : simplexFromVertex vmin vmax unit vertexRand term percent s rand = (0, s', rand')) :
    s'.vertex.length = s.vertex.length ∧
      ∀ v ∈ s'.vertex, (∃ j : Fin (N + 1), v.term = s'.coord j) ∨ ∃ rand, v.term = (vertexRand rand).1 := by
  unfold simplexFromVertex at hrun
  dsimp only at hrun
  obtain ⟨-, hfail⟩ | ⟨-, d, hmove, -⟩ := simplexFit_cases vmin vmax
    (s.grow unit (vertexPercent vmin vmax (percent / 2)) term)
  · rw [hfail, if_pos (by decide)] at hrun
    have hret : (-1 : ℤ) = 0 := congrArg Prod.fst hrun
    exact absurd hret (by decide)
  · rw [hmove, if_neg (not_not.mpr rfl)] at hrun
    have hs' := congrArg (fun res => res.2.1) hrun
    dsimp only at hs'
    rw [← hs', length_fill]
    refine ⟨by simp [Simplex.translate, Simplex.grow], ?_⟩
    intro v hv
    obtain ⟨j, hj⟩ | hrand := mem_fill hv
    · refine Or.inl ⟨j, ?_⟩
      funext i
      rw [coord_fill, hj]
    · exact Or.inr hrand

/-- The initial simplex has its size, all its vertices are within bounds, and its first `N + 1` vertices are in
general position unless a variable has one value only. -/
lemma initialSimplex_spec (libc : Libc K ρ) {sig : HSignature K} (h : ∀ i, (sig.bounds i).Indexed)
    (method : SimplexInit) {percent : K} (hpos : 0 < percent) (hle : percent ≤ 1) (cfg : Hcfg) {size : ℕ}
    (hsize : sig.range.length < size) (state : ρ × (Fin sig.range.length → K)) :
    ∃ terms state', initialSimplex libc sig method percent cfg size state = (terms, state') ∧
      terms.length = size ∧ (∀ term ∈ terms, InBounds sig.bounds (internalVertexMax sig.bounds) term) ∧
      ∃ coord : Coords sig.range.length K, (∀ j, coord j ∈ terms) ∧
        (AffineIndependent K coord ↔ ∀ i, internalVertexMin sig.bounds i < internalVertexMax sig.bounds i) := by
  have hbounds : internalVertexMin sig.bounds ≤ internalVertexMax sig.bounds := fun i => by
    rw [internalVertexMax_eq (h i)]
    exact lower_le_upper (h i).values
  have hknown : ∀ i, sig.bounds i ≠ .unknown := by
    intro i hi
    have hvalues := (h i).values
    rw [hi] at hvalues
    exact hvalues
  obtain ⟨s', rand', unit, hrun, hin, hregular, hdiff⟩ := simplexFromVertexRotated_spec libc.libm libc.gen hbounds
    (vertexRandTerm libc.gen sig.bounds) (initialPoint libc sig method percent cfg state.2 state.1).1 hpos hle
    (simplexAlloc size hsize) (initialPoint libc sig method percent cfg state.2 state.1).2
  obtain ⟨hlength, hvertex⟩ := simplexFromVertex_vertex hrun
  refine ⟨s'.vertex.map Vertex.term, (rand', (initialPoint libc sig method percent cfg state.2 state.1).1),
    ?_, ?_, ?_, s'.coord, ?_, stretched_independent_iff hbounds hpos hregular hdiff⟩
  · unfold initialSimplex
    dsimp only
    rw [dif_pos hsize, hrun]
  · rw [List.length_map, hlength]
    exact List.length_replicate
  · intro term hterm
    obtain ⟨v, hv, rfl⟩ := List.mem_map.mp hterm
    obtain ⟨j, hj⟩ | ⟨rand, hrand⟩ := hvertex v hv
    · rw [hj]
      exact inBounds_iff.mpr ⟨hknown, fun i => (hin j i).1, fun i => (hin j i).2⟩
    · obtain ⟨term, rand'', heq, hterm⟩ := vertexRandTrim_spec libc.gen h le_rfl zero_le_one rand
      rw [hrand, vertexRandTerm, heq]
      exact hterm
  · intro j
    exact List.mem_map.mpr ⟨_, List.get_mem _ _, rfl⟩

end

end ActiveHarmony

import ActiveHarmony.Strategy.VertexPoint

/-!
# Fitting a simplex into the search space

`simplex_fit` moves the first `N + 1` vertices, one coordinate after the other, until they lie between `vmin`
and `vmax`. With exact arithmetic it moves the whole simplex by one vector, so its shape stays, and it fails
exactly when the simplex is wider than the search space in some coordinate. `simplex_from_vertex` never
makes such a simplex for a percentage that the strategies accept.
-/

namespace ActiveHarmony

section

variable {N : ℕ} {K W : Type} [Field K]

/-! ## The vertices that are moved -/

/-- `s->vertex[j]->term[i]`, for the first `N + 1` vertices. -/
def Simplex.coord (s : Simplex N K W) (j : Fin (N + 1)) (i : Fin N) : K :=
  (s.vertex.get ⟨j, j.isLt.trans_le s.len⟩).term i

/-- The loop that changes the coordinate `i` of the first `N + 1` vertices. -/
def Simplex.changeTerm (s : Simplex N K W) (i : Fin N) (f : K → K) : Simplex N K W where
  vertex := s.vertex.mapIdx fun j v =>
    if j ≤ N then { v with term := Function.update v.term i (f (v.term i)) } else v
  len := by rw [List.length_mapIdx]; exact s.len

/-- The first `N + 1` vertices moved by a vector. -/
def Simplex.translate (s : Simplex N K W) (d : Fin N → K) : Simplex N K W where
  vertex := s.vertex.mapIdx fun j v => if j ≤ N then { v with term := v.term + d } else v
  len := by rw [List.length_mapIdx]; exact s.len

omit [Field K] in
lemma Simplex.ext_vertex {s s' : Simplex N K W} (h : s.vertex = s'.vertex) : s = s' := by
  cases s
  cases s'
  cases h
  rfl

@[simp] lemma coord_translate (s : Simplex N K W) (d : Fin N → K) (j : Fin (N + 1)) (i : Fin N) :
    (s.translate d).coord j i = s.coord j i + d i := by
  have hj : (j : ℕ) ≤ N := Nat.lt_succ_iff.mp j.isLt
  simp [Simplex.coord, Simplex.translate, hj]

@[simp] lemma translate_zero (s : Simplex N K W) : s.translate 0 = s := by
  apply Simplex.ext_vertex
  apply List.ext_getElem?
  intro j
  simp [Simplex.translate]

@[simp] lemma translate_translate (s : Simplex N K W) (d e : Fin N → K) :
    (s.translate d).translate e = s.translate (d + e) := by
  apply Simplex.ext_vertex
  apply List.ext_getElem?
  intro j
  by_cases hj : j ≤ N
  · simp [Simplex.translate, hj, add_assoc, Function.comp_def]
  · simp [Simplex.translate, hj, Function.comp_def]

/-- Adding to one coordinate moves along its axis. -/
lemma changeTerm_add (s : Simplex N K W) (i : Fin N) (c : K) :
    s.changeTerm i (fun x => x + c) = s.translate (Pi.single i c) := by
  have hterm : ∀ t : Fin N → K, Function.update t i (t i + c) = t + Pi.single i c := by
    intro t
    funext i'
    by_cases hi : i' = i
    · subst hi
      simp
    · simp [hi]
  simp only [Simplex.changeTerm, Simplex.translate, hterm]

/-- The vertices behind the first `N + 1` stay, and so do the names and performances of the others. -/
lemma translate_vertex (s : Simplex N K W) (d : Fin N → K) (j : ℕ) :
    (s.translate d).vertex[j]? =
      s.vertex[j]?.map fun v => if j ≤ N then { v with term := v.term + d } else v := by
  simp [Simplex.translate]

end

/-! ## `simplex_fit` -/

section

variable {N : ℕ} {K W : Type} [Field K] [LinearOrder K]

/-- The loop that looks for the lowest and the highest value of coordinate `i`. -/
def Simplex.extremes (s : Simplex N K W) (i : Fin N) : K × K :=
  (List.finRange N).foldl
    (fun (lo, hi) j =>
      (if lo > s.coord j.succ i then s.coord j.succ i else lo,
        if hi < s.coord j.succ i then s.coord j.succ i else hi))
    (s.coord 0 i, s.coord 0 i)

/-- One round of the loop of `simplex_fit`; -1 is `none`. -/
def fitDimension (vmin vmax : Fin N → K) (s : Simplex N K W) (i : Fin N) : Option (Simplex N K W) :=
  let (lo, hi) := s.extremes i
  if hi - lo > vmax i - vmin i then none
  else
    let s := if lo < vmin i then s.changeTerm i (fun x => x + (vmin i - lo)) else s
    some (if hi > vmax i then s.changeTerm i (fun x => x - (hi - vmax i)) else s)

/-- The loop of `simplex_fit` over the coordinates. -/
def simplexFitLoop (vmin vmax : Fin N → K) : List (Fin N) → Simplex N K W → ℤ × Simplex N K W
  | [], s => (0, s)
  | i :: is, s =>
    match fitDimension vmin vmax s i with
    | none => (-1, s)
    | some s => simplexFitLoop vmin vmax is s

/-- `simplex_fit`. -/
def simplexFit (vmin vmax : Fin N → K) (s : Simplex N K W) : ℤ × Simplex N K W :=
  simplexFitLoop vmin vmax (List.finRange N) s

end

/-! ## One coordinate -/

section

variable {N : ℕ} {K W : Type} [Field K] [LinearOrder K] {s : Simplex N K W} {vmin vmax : Fin N → K}
  {i : Fin N}

/-- The first `N + 1` vertices are no further apart in coordinate `i` than the bounds. -/
def Simplex.Narrow (s : Simplex N K W) (vmin vmax : Fin N → K) (i : Fin N) : Prop :=
  ∀ j k, s.coord j i - s.coord k i ≤ vmax i - vmin i

/-- The first `N + 1` vertices are within the bounds in coordinate `i`. -/
def Simplex.Within (s : Simplex N K W) (vmin vmax : Fin N → K) (i : Fin N) : Prop :=
  ∀ j, s.coord j i ∈ Set.Icc (vmin i) (vmax i)

omit [Field K] in
lemma lower_eq_min (lo x : K) : (if lo > x then x else lo) = min lo x := by
  obtain hlt | hge := lt_or_ge x lo
  · rw [if_pos hlt, min_eq_right hlt.le]
  · rw [if_neg (not_lt.mpr hge), min_eq_left hge]

omit [Field K] in
lemma higher_eq_max (hi x : K) : (if hi < x then x else hi) = max hi x := by
  obtain hlt | hge := lt_or_ge hi x
  · rw [if_pos hlt, max_eq_right hlt.le]
  · rw [if_neg (not_lt.mpr hge), max_eq_left hge]

omit [Field K] in
/-- The loop for the two extremes is a fold for each. -/
lemma extremes_fold {ι : Type} (f : ι → K) (js : List ι) (lo hi : K) :
    js.foldl (fun (lo, hi) j => (if lo > f j then f j else lo, if hi < f j then f j else hi)) (lo, hi) =
      ((js.map f).foldl min lo, (js.map f).foldl max hi) := by
  induction js generalizing lo hi with
  | nil => rfl
  | cons j js ih =>
    rw [List.foldl_cons, ih, lower_eq_min, higher_eq_max]
    rfl

omit [Field K] [LinearOrder K] in
lemma mem_coords (s : Simplex N K W) (i : Fin N) (x : K) :
    x ∈ s.coord 0 i :: (List.finRange N).map (fun j => s.coord j.succ i) ↔ ∃ j, s.coord j i = x := by
  constructor
  · intro hx
    obtain rfl | hx := List.mem_cons.mp hx
    · exact ⟨0, rfl⟩
    · obtain ⟨j, -, rfl⟩ := List.mem_map.mp hx
      exact ⟨j.succ, rfl⟩
  · rintro ⟨j, rfl⟩
    -- every vertex is the first or comes behind another one
    induction j using Fin.cases with
    | zero => exact List.mem_cons_self
    | succ k => exact List.mem_cons_of_mem _ (List.mem_map.mpr ⟨k, List.mem_finRange k, rfl⟩)

omit [Field K] in
/-- The two extremes bound the coordinates of all vertices, and are coordinates of vertices. -/
lemma extremes_spec (s : Simplex N K W) (i : Fin N) :
    (∀ j, (s.extremes i).1 ≤ s.coord j i ∧ s.coord j i ≤ (s.extremes i).2) ∧
      (∃ j, s.coord j i = (s.extremes i).1) ∧ ∃ j, s.coord j i = (s.extremes i).2 := by
  have hmem := mem_coords s i
  unfold Simplex.extremes
  rw [extremes_fold]
  generalize (List.finRange N).map (fun j => s.coord j.succ i) = l at hmem ⊢
  have hmin := List.min?_eq_some_iff.mp (show (s.coord 0 i :: l).min? = _ from List.min?_cons')
  have hmax := List.max?_eq_some_iff.mp (show (s.coord 0 i :: l).max? = _ from List.max?_cons')
  refine ⟨fun j => ?_, (hmem _).mp hmin.1, (hmem _).mp hmax.1⟩
  have hj := (hmem _).mpr ⟨j, rfl⟩
  exact ⟨hmin.2 _ hj, hmax.2 _ hj⟩

variable [IsStrictOrderedRing K]

/-- The spread test. -/
lemma extremes_narrow : (s.extremes i).2 - (s.extremes i).1 ≤ vmax i - vmin i ↔ s.Narrow vmin vmax i := by
  obtain ⟨hall, ⟨jlo, hlo⟩, jhi, hhi⟩ := extremes_spec s i
  constructor
  · intro hle j k
    exact (sub_le_sub (hall j).2 (hall k).1).trans hle
  · intro h
    rw [← hlo, ← hhi]
    exact h jhi jlo

omit [IsStrictOrderedRing K] in
lemma narrow_translate (d : Fin N → K) : (s.translate d).Narrow vmin vmax i ↔ s.Narrow vmin vmax i := by
  simp only [Simplex.Narrow, coord_translate, add_sub_add_right_eq_sub]

lemma Simplex.Within.narrow (h : s.Within vmin vmax i) : s.Narrow vmin vmax i := by
  intro j k
  exact sub_le_sub (h j).2 (h k).1

/-- A round fails when the simplex is too wide. Otherwise it moves the simplex along one axis, into the bounds
of that coordinate, and not at all if it is there already. -/
lemma fitDimension_spec (vmin vmax : Fin N → K) (s : Simplex N K W) (i : Fin N) :
    (¬s.Narrow vmin vmax i → fitDimension vmin vmax s i = none) ∧
      (s.Narrow vmin vmax i → ∃ c, fitDimension vmin vmax s i = some (s.translate (Pi.single i c)) ∧
        (∀ j, s.coord j i + c ∈ Set.Icc (vmin i) (vmax i)) ∧ (s.Within vmin vmax i → c = 0)) := by
  obtain ⟨hall, ⟨jlo, hlo⟩, jhi, hhi⟩ := extremes_spec s i
  have hnarrow : (s.extremes i).2 - (s.extremes i).1 ≤ vmax i - vmin i ↔ s.Narrow vmin vmax i :=
    extremes_narrow
  unfold fitDimension
  generalize s.extremes i = r at hall hlo hhi hnarrow
  obtain ⟨lo, hi⟩ := r
  dsimp only at hall hlo hhi hnarrow ⊢
  constructor
  · intro hwide
    rw [if_pos (not_le.mp (fun hle => hwide (hnarrow.mp hle)))]
  intro hok
  have hle := hnarrow.mpr hok
  rw [if_neg (not_lt.mpr hle)]
  by_cases hlow : lo < vmin i
  · -- after a move up, the highest vertex is not above the upper bound, nor was it before
    have hhigh : ¬hi > vmax i := by
      intro hgt
      exact absurd hle (not_le.mpr (sub_lt_sub hgt hlow))
    refine ⟨vmin i - lo, ?_, fun j => ?_, fun hin => ?_⟩
    · rw [if_pos hlow, if_neg hhigh, changeTerm_add]
    · obtain ⟨h1, h2⟩ := hall j
      constructor
      · linarith
      · linarith
    · exact absurd (hin jlo).1 (by rw [hlo]; exact not_le.mpr hlow)
  · rw [if_neg hlow]
    have hlow' := not_lt.mp hlow
    by_cases hhigh : hi > vmax i
    · refine ⟨-(hi - vmax i), ?_, fun j => ?_, fun hin => ?_⟩
      · rw [if_pos hhigh, ← changeTerm_add]
        simp only [sub_eq_add_neg]
      · obtain ⟨h1, h2⟩ := hall j
        constructor
        · linarith
        · linarith
      · exact absurd (hin jhi).2 (by rw [hhi]; exact not_le.mpr hhigh)
    · refine ⟨0, ?_, fun j => ?_, fun _ => rfl⟩
      · rw [if_neg hhigh, Pi.single_zero, translate_zero]
      · obtain ⟨h1, h2⟩ := hall j
        rw [add_zero]
        exact ⟨hlow'.trans h1, h2.trans (not_lt.mp hhigh)⟩

/-! ## All coordinates -/

/-- A run over some coordinates that are all narrow enough moves the simplex by one vector. -/
lemma simplexFitLoop_narrow (is : List (Fin N)) (hnodup : is.Nodup) (s : Simplex N K W)
    (hok : ∀ i ∈ is, s.Narrow vmin vmax i) :
    ∃ d, simplexFitLoop vmin vmax is s = (0, s.translate d) ∧ (∀ i ∉ is, d i = 0) ∧
      (∀ i ∈ is, ∀ j, s.coord j i + d i ∈ Set.Icc (vmin i) (vmax i)) ∧
      ∀ i, s.Within vmin vmax i → d i = 0 := by
  induction is generalizing s with
  | nil => exact ⟨0, by rw [translate_zero]; rfl, fun _ _ => rfl, by simp, fun _ _ => rfl⟩
  | cons i is ih =>
    obtain ⟨hi, hnodup⟩ := List.nodup_cons.mp hnodup
    obtain ⟨c, hround, hinside, hstay⟩ := (fitDimension_spec vmin vmax s i).2 (hok i List.mem_cons_self)
    obtain ⟨d, hrun, hout, hin, hzero⟩ := ih hnodup (s.translate (Pi.single i c)) fun i' hi' =>
      (narrow_translate _).mpr (hok i' (List.mem_cons_of_mem i hi'))
    -- the rounds for the other coordinates leave this one alone
    have hself : (Pi.single i c + d : Fin N → K) i = c := by simp [hout i hi]
    have hother : ∀ i', i' ≠ i → (Pi.single i c + d : Fin N → K) i' = d i' := by
      intro i' hne
      simp [hne]
    refine ⟨Pi.single i c + d, ?_, fun i' hi' => ?_, fun i' hi' j => ?_, fun i' hin' => ?_⟩
    · rw [simplexFitLoop, hround]
      dsimp only
      rw [hrun, translate_translate]
    · obtain ⟨hne, hi'⟩ := not_or.mp (fun h => hi' (List.mem_cons.mpr h))
      rw [hother i' hne, hout i' hi']
    · by_cases hne : i' = i
      · subst hne
        rw [hself]
        exact hinside j
      · have hmem := hin i' ((List.mem_cons.mp hi').resolve_left hne) j
        rw [coord_translate, Pi.single_eq_of_ne hne, add_zero] at hmem
        rw [hother i' hne]
        exact hmem
    · by_cases hne : i' = i
      · subst hne
        rw [hself]
        exact hstay hin'
      · rw [hother i' hne]
        apply hzero
        intro j
        rw [coord_translate, Pi.single_eq_of_ne hne, add_zero]
        exact hin' j

/-- A run fails at the first coordinate that is too wide. -/
lemma simplexFitLoop_wide (is : List (Fin N)) (s : Simplex N K W)
    (hwide : ∃ i ∈ is, ¬s.Narrow vmin vmax i) : (simplexFitLoop vmin vmax is s).1 = -1 := by
  induction is generalizing s with
  | nil => simp at hwide
  | cons i is ih =>
    rw [simplexFitLoop]
    by_cases hok : s.Narrow vmin vmax i
    · obtain ⟨c, hround, -⟩ := (fitDimension_spec vmin vmax s i).2 hok
      rw [hround]
      apply ih
      obtain ⟨i', hi', hbad⟩ := hwide
      obtain rfl | hi' := List.mem_cons.mp hi'
      · exact absurd hok hbad
      · exact ⟨i', hi', fun h => hbad ((narrow_translate _).mp h)⟩
    · rw [(fitDimension_spec vmin vmax s i).1 hok]

/-- `simplex_fit` fails, or it moves the first `N + 1` vertices by one vector. -/
lemma simplexFit_cases (vmin vmax : Fin N → K) (s : Simplex N K W) :
    ((∃ i, ¬s.Narrow vmin vmax i) ∧ (simplexFit vmin vmax s).1 = -1) ∨
      (∀ i, s.Narrow vmin vmax i) ∧ ∃ d, simplexFit vmin vmax s = (0, s.translate d) ∧
        (∀ i, (s.translate d).Within vmin vmax i) ∧ ∀ i, s.Within vmin vmax i → d i = 0 := by
  by_cases hok : ∀ i, s.Narrow vmin vmax i
  · obtain ⟨d, hrun, -, hin, hzero⟩ := simplexFitLoop_narrow (List.finRange N) (List.nodup_finRange N) s
      fun i _ => hok i
    refine Or.inr ⟨hok, d, hrun, fun i j => ?_, hzero⟩
    rw [coord_translate]
    exact hin i (List.mem_finRange i) j
  · obtain ⟨i, hwide⟩ := not_forall.mp hok
    exact Or.inl ⟨⟨i, hwide⟩, simplexFitLoop_wide _ s ⟨i, List.mem_finRange i, hwide⟩⟩

/-- `simplex_fit` returns 0 exactly when no coordinate of the first `N + 1` vertices is spread more than the
bounds are. Then these vertices are within the bounds, their differences are what they were, and a simplex
that was within the bounds is unchanged. -/
theorem simplexFit_iff {s s' : Simplex N K W} {ret : ℤ} (hrun : simplexFit vmin vmax s = (ret, s')) :
    (ret = 0 ↔ ∀ i j k, s.coord j i - s.coord k i ≤ vmax i - vmin i) ∧ (ret = 0 ∨ ret = -1) ∧
      (ret = 0 →
        (∀ j i, s'.coord j i ∈ Set.Icc (vmin i) (vmax i)) ∧
        (∀ j k i, s'.coord j i - s'.coord k i = s.coord j i - s.coord k i) ∧
        (∀ j, N < j → s'.vertex[j]? = s.vertex[j]?) ∧
        ((∀ j i, s.coord j i ∈ Set.Icc (vmin i) (vmax i)) → s' = s)) := by
  obtain ⟨⟨i, hwide⟩, hfail⟩ | ⟨hok, d, hmove, hin, hzero⟩ := simplexFit_cases vmin vmax s
  · rw [hrun] at hfail
    obtain rfl : ret = -1 := hfail
    refine ⟨⟨fun h => absurd h (by decide), fun h => absurd (h i) hwide⟩, Or.inr rfl, ?_⟩
    intro h
    exact absurd h (by decide)
  · obtain ⟨rfl, rfl⟩ := Prod.mk.inj (hrun.symm.trans hmove)
    refine ⟨⟨fun _ => hok, fun _ => rfl⟩, Or.inl rfl, fun _ => ⟨fun j i => hin i j, ?_, ?_, ?_⟩⟩
    · intro j k i
      rw [coord_translate, coord_translate, add_sub_add_right_eq_sub]
    · intro j hj
      rw [translate_vertex]
      simp [not_le.mpr hj]
    · intro hinside
      have hd : d = 0 := funext fun i => hzero i fun j => hinside j i
      rw [hd, translate_zero]

end

/-- A simplex of one variable. -/
def highPair : Simplex 1 ℚ Unit :=
  ⟨[⟨0, ⟨[]⟩, fun _ => 5⟩, ⟨0, ⟨[]⟩, fun _ => 7⟩], by decide⟩

/-- It is moved down below the upper bound. -/
theorem simplexFit_iff_high : ∃ s', simplexFit (fun _ => 0) (fun _ => 6) highPair = (0, s') ∧
    s'.coord 1 0 ≤ 6 ∧ s'.coord 1 0 - s'.coord 0 0 = 2 := by
  have hcoord : ∀ j i, highPair.coord j i = if j = 0 then 5 else 7 := by
    intro j i
    fin_cases j <;> rfl
  obtain ⟨ret, s', hrun⟩ : ∃ ret s', simplexFit (fun _ => 0) (fun _ => 6) highPair = (ret, s') :=
    ⟨_, _, rfl⟩
  obtain ⟨hzero, -, hfit⟩ := simplexFit_iff hrun
  have hret : ret = 0 := by
    apply hzero.mpr
    intro i j k
    rw [hcoord, hcoord]
    split_ifs <;> norm_num
  obtain ⟨hin, hshape, -⟩ := hfit hret
  refine ⟨s', by rw [hrun, hret], (hin 1 0).2, ?_⟩
  rw [hshape, hcoord, hcoord]
  norm_num

/-! ## `simplex_from_vertex` -/

section

variable {N : ℕ} {K W ρ : Type} [Field K] [LinearOrder K]

/-- `vertex_percent`. -/
def vertexPercent (vmin vmax : Fin N → K) (percent : K) : Fin N → K :=
  fun i => (vmax i - vmin i) * percent

/-- `unit_simplex` and `rotate`, which make the coordinates `unit`, and the loop that grows and translates
these. -/
def Simplex.grow [Top W] (s : Simplex N K W) (unit : Fin (N + 1) → Fin N → K) (size term : Fin N → K) :
    Simplex N K W where
  vertex := s.vertex.mapIdx fun j v =>
    { v.resetPerf with
      id := 0
      term := if hj : j < N + 1 then fun i => unit ⟨j, hj⟩ i * size i + term i else fun _ => 0 }
  len := by rw [List.length_mapIdx]; exact s.len

/-- The loop that fills the remaining vertices with random ones. -/
def fillRandom [Top W] (vertexRand : ρ → (Fin N → K) × ρ) :
    List (Vertex (Fin N → K) W) → ρ → List (Vertex (Fin N → K) W) × ρ
  | [], rand => ([], rand)
  | v :: vs, rand =>
    let (term, rand) := vertexRand rand
    let (vs, rand) := fillRandom vertexRand vs rand
    ({ v with term := term }.resetPerf :: vs, rand)

omit [Field K] [LinearOrder K] in
lemma fillRandom_length [Top W] (vertexRand : ρ → (Fin N → K) × ρ) (vs : List (Vertex (Fin N → K) W))
    (rand : ρ) : (fillRandom vertexRand vs rand).1.length = vs.length := by
  induction vs generalizing rand with
  | nil => rfl
  | cons v vs ih => simp [fillRandom, ih]

/-- All vertices behind the first `N + 1` become random. -/
def Simplex.fill [Top W] (s : Simplex N K W) (vertexRand : ρ → (Fin N → K) × ρ) (rand : ρ) :
    Simplex N K W × ρ :=
  (⟨s.vertex.take (N + 1) ++ (fillRandom vertexRand (s.vertex.drop (N + 1)) rand).1, by
      have := s.len
      rw [List.length_append, fillRandom_length, List.length_take, List.length_drop]
      omega⟩,
    (fillRandom vertexRand (s.vertex.drop (N + 1)) rand).2)

attribute [local instance] two_atLeastTwo in
/-- `simplex_from_vertex`. The rotated unit simplex is `unit`. -/
def simplexFromVertex [Top W] (vmin vmax : Fin N → K) (unit : Fin (N + 1) → Fin N → K)
    (vertexRand : ρ → (Fin N → K) × ρ) (term : Fin N → K) (percent : K) (s : Simplex N K W) (rand : ρ) :
    ℤ × Simplex N K W × ρ :=
  let size := vertexPercent vmin vmax (percent / 2)
  let (ret, s) := simplexFit vmin vmax (s.grow unit size term)
  if ret ≠ 0 then (-1, s, rand) else (0, s.fill vertexRand rand)

omit [LinearOrder K] in
lemma coord_grow [Top W] (s : Simplex N K W) (unit : Fin (N + 1) → Fin N → K) (size term : Fin N → K)
    (j : Fin (N + 1)) (i : Fin N) : (s.grow unit size term).coord j i = unit j i * size i + term i := by
  simp only [Simplex.coord, Simplex.grow, List.get_eq_getElem, List.getElem_mapIdx, j.isLt, dif_pos]

omit [Field K] [LinearOrder K] in
lemma coord_fill [Top W] (s : Simplex N K W) (vertexRand : ρ → (Fin N → K) × ρ) (rand : ρ)
    (j : Fin (N + 1)) (i : Fin N) : (s.fill vertexRand rand).1.coord j i = s.coord j i := by
  have hj : (j : ℕ) < (s.vertex.take (N + 1)).length := by
    have := s.len
    have := j.isLt
    rw [List.length_take]
    omega
  simp only [Simplex.coord, Simplex.fill, List.get_eq_getElem]
  rw [List.getElem_append_left hj, List.getElem_take]

variable [IsStrictOrderedRing K]

/-- For a percentage between 0 and 1 the simplex about a vertex fits into the search space, so the functions
that make one need not look at the result. -/
theorem simplexFromVertex_fits [Top W] {vmin vmax : Fin N → K} (hbounds : vmin ≤ vmax)
    {unit : Fin (N + 1) → Fin N → K} (hunit : ∀ j i, |unit j i| ≤ 1) (vertexRand : ρ → (Fin N → K) × ρ)
    (term : Fin N → K) {percent : K} (hpos : 0 < percent) (hle : percent ≤ 1) (s : Simplex N K W) (rand : ρ) :
    ∃ s' rand', simplexFromVertex vmin vmax unit vertexRand term percent s rand = (0, s', rand') ∧
      (∀ j i, s'.coord j i ∈ Set.Icc (vmin i) (vmax i)) ∧
      ∀ j k i, s'.coord j i - s'.coord k i =
        (unit j i - unit k i) * vertexPercent vmin vmax (percent / 2) i := by
  have hsize : ∀ i, 0 ≤ vmax i - vmin i := fun i => sub_nonneg.mpr (hbounds i)
  have hdiff : ∀ i j k, (s.grow unit (vertexPercent vmin vmax (percent / 2)) term).coord j i -
      (s.grow unit (vertexPercent vmin vmax (percent / 2)) term).coord k i =
        (unit j i - unit k i) * vertexPercent vmin vmax (percent / 2) i := by
    intro i j k
    rw [coord_grow, coord_grow]
    ring
  have hnarrow : ∀ i, (s.grow unit (vertexPercent vmin vmax (percent / 2)) term).Narrow vmin vmax i := by
    intro i j k
    -- two vertices of the unit simplex are at most 2 apart, so these are at most `percent` of the width
    have htwo : unit j i - unit k i ≤ 2 := by
      have h1 := (abs_le.mp (hunit j i)).2
      have h2 := (abs_le.mp (hunit k i)).1
      linarith
    have hnonneg : 0 ≤ vertexPercent vmin vmax (percent / 2) i :=
      mul_nonneg (hsize i) (by linarith)
    calc (s.grow unit (vertexPercent vmin vmax (percent / 2)) term).coord j i -
          (s.grow unit (vertexPercent vmin vmax (percent / 2)) term).coord k i
        = (unit j i - unit k i) * vertexPercent vmin vmax (percent / 2) i := hdiff i j k
      _ ≤ 2 * vertexPercent vmin vmax (percent / 2) i := mul_le_mul_of_nonneg_right htwo hnonneg
      _ = (vmax i - vmin i) * percent := by rw [vertexPercent]; ring
      _ ≤ vmax i - vmin i := mul_le_of_le_one_right (hsize i) hle
  obtain ⟨⟨i, hwide⟩, -⟩ | ⟨-, d, hmove, hin, -⟩ := simplexFit_cases vmin vmax
    (s.grow unit (vertexPercent vmin vmax (percent / 2)) term)
  · exact absurd (hnarrow i) hwide
  generalize hs' : (s.grow unit (vertexPercent vmin vmax (percent / 2)) term).translate d = s' at hmove hin
  refine ⟨(s'.fill vertexRand rand).1, (s'.fill vertexRand rand).2, ?_, fun j i => ?_, fun j k i => ?_⟩
  · rw [simplexFromVertex, hmove]
    rfl
  · rw [coord_fill]
    exact hin i j
  · rw [coord_fill, coord_fill, ← hs', coord_translate, coord_translate, add_sub_add_right_eq_sub, hdiff]

end

end ActiveHarmony

import ActiveHarmony.Strategy.ExhaustiveConvergence

/-!
# The points of exhaustive search

The grid of a search space is the product of the values of its variables. `strategy_generate` goes through
it once for each pass: the look-ahead of `increment`, which uses the variable of its loop again, is the last
thing it does before it returns.
-/

namespace ActiveHarmony

variable {K W : Type} [Field K] [LinearOrder K] [FloorSemiring K]

/-! ## The grid -/

/-- The values of a variable in order. -/
def HRange.values (range : HRange K) : List (HVal K) := (List.range range.size).map range.value

/-- A variable as `hsignature_int`, `hsignature_real` and `hsignature_enum` declare it, with a step. The
successor of an INT value is a `long`. -/
def HRange.Declared (range : HRange K) : Prop :=
  match range.bounds with
  | .int min max step => 0 < step ∧ min ≤ max ∧ max + step < 2 ^ 63
  | .real min max step => 0 < step ∧ min ≤ max
  | .str set => set ≠ [] ∧ set.Nodup
  | .unknown => False

/-- The values that the bounds of a variable allow. -/
def HRange.Allows (range : HRange K) (val : HVal K) : Prop :=
  match range.bounds with
  | .int min max step => ∃ i : ℕ, val = .int (min + i * step) ∧ min + i * step ≤ max
  | .real min max step => ∃ i : ℕ, val = .real (min + i * step) ∧ min + i * step ≤ max
  | .str set => ∃ x ∈ set, val = .str (some x)
  | .unknown => False

/-- The points of the search space, the first variable fastest. -/
def grid (ranges : List (HRange K)) : List (List (HVal K)) :=
  Odometer.product (ranges.map HRange.values)

variable {range : HRange K} {ranges : List (HRange K)}

omit [FloorSemiring K] in
lemma HRange.Declared.stepped (h : range.Declared) : range.Stepped := by
  unfold HRange.Declared at h
  unfold HRange.Stepped
  cases hb : range.bounds with
  | unknown => rw [hb] at h; exact h
  | int min max step => rw [hb] at h; exact ⟨h.1, h.2.1⟩
  | real min max step => rw [hb] at h; exact h
  | str set => rw [hb] at h; exact h.1

lemma mem_values [IsStrictOrderedRing K] (h : range.Stepped) {val : HVal K} :
    val ∈ range.values ↔ range.Allows val := by
  unfold HRange.Stepped at h
  unfold HRange.values HRange.Allows HRange.size HRange.value
  rw [List.mem_map]
  simp only [List.mem_range]
  cases hb : range.bounds with
  | unknown => rw [hb] at h; exact h.elim
  | int min max step =>
    rw [hb] at h
    simp only at h ⊢
    constructor
    · rintro ⟨i, hi, hval⟩
      exact ⟨i, hval.symm, (int_in_range h.1 h.2 i).mpr hi⟩
    · rintro ⟨i, hval, hle⟩
      exact ⟨i, (int_in_range h.1 h.2 i).mp hle, hval.symm⟩
  | real min max step =>
    rw [hb] at h
    simp only at h ⊢
    constructor
    · rintro ⟨i, hi, hval⟩
      exact ⟨i, hval.symm, (real_in_range h.1 h.2 i).mpr hi⟩
    · rintro ⟨i, hval, hle⟩
      exact ⟨i, (real_in_range h.1 h.2 i).mp hle, hval.symm⟩
  | str set =>
    simp only
    constructor
    · rintro ⟨i, hi, hval⟩
      rw [List.getElem?_eq_getElem hi] at hval
      exact ⟨set[i], List.getElem_mem hi, hval.symm⟩
    · rintro ⟨x, hx, hval⟩
      obtain ⟨i, hi, rfl⟩ := List.mem_iff_getElem.mp hx
      exact ⟨i, hi, by rw [List.getElem?_eq_getElem hi, hval]⟩

lemma nodup_values [IsStrictOrderedRing K] (h : range.Declared) : range.values.Nodup := by
  unfold HRange.Declared at h
  unfold HRange.values HRange.size HRange.value
  cases hb : range.bounds with
  | unknown => rw [hb] at h; exact h.elim
  | int min max step =>
    rw [hb] at h
    apply List.nodup_range.map
    intro i j heq
    have hmul : (i : ℤ) * step = j * step := add_left_cancel (HVal.int.inj heq)
    exact_mod_cast Int.eq_of_mul_eq_mul_right (ne_of_gt h.1) hmul
  | real min max step =>
    rw [hb] at h
    apply List.nodup_range.map
    intro i j heq
    have hmul : (i : K) * step = j * step := add_left_cancel (HVal.real.inj heq)
    exact_mod_cast mul_right_cancel₀ (ne_of_gt h.1) hmul
  | str set =>
    rw [hb] at h
    apply List.nodup_range.map_on
    intro i hi j hj heq
    exact (List.getElem?_inj (List.mem_range.mp hi) h.2).mp (HVal.str.inj heq)

lemma nodup_grid [IsStrictOrderedRing K] (h : ∀ r ∈ ranges, r.Declared) : (grid ranges).Nodup := by
  apply Odometer.nodup_product
  intro column hcolumn
  obtain ⟨r, hr, rfl⟩ := List.mem_map.mp hcolumn
  exact nodup_values (h r hr)

lemma mem_grid [IsStrictOrderedRing K] (h : ∀ r ∈ ranges, r.Stepped) {vals : List (HVal K)} :
    vals ∈ grid ranges ↔ List.Forall₂ (fun val r => r.Allows val) vals ranges := by
  unfold grid
  rw [Odometer.mem_product, List.forall₂_map_right_iff, List.forall₂_iff_zip, List.forall₂_iff_zip]
  apply and_congr_right
  intro _
  constructor
  · intro hall val r hzip
    exact (mem_values (h r (List.of_mem_zip hzip).2)).mp (hall hzip)
  · intro hall val r hzip
    exact (mem_values (h r (List.of_mem_zip hzip).2)).mpr (hall hzip)

/-- The odometer shows the points of the grid in order. -/
lemma grid_eq (ranges : List (HRange K)) :
    grid ranges = (Odometer.rows (sizes ranges)).map (pointAt ranges) := by
  unfold grid Odometer.rows
  induction ranges with
  | nil => rfl
  | cons range ranges ih =>
    have hsizes : (sizes (range :: ranges)).map List.range =
        List.range range.size :: (sizes ranges).map List.range := rfl
    rw [List.map_cons, Odometer.product, ih, hsizes, Odometer.product, List.flatMap_map, List.map_flatMap]
    simp only [List.map_map, HRange.values, Function.comp_def]
    rfl

lemma length_grid (ranges : List (HRange K)) : (grid ranges).length = spaceSize ranges := by
  rw [grid_eq, List.length_map, Odometer.length_rows]

/-- The indices of the first point. -/
lemma within_first (h : ∀ r ∈ ranges, r.Stepped) :
    Odometer.Within (List.replicate ranges.length 0) (sizes ranges) := by
  have hlen : (sizes ranges).length = ranges.length := List.length_map _
  rw [← hlen]
  apply Odometer.within_zero
  intro n hn
  obtain ⟨r, hr, rfl⟩ := List.mem_map.mp hn
  exact (h r hr).size_pos

/-! ## The turns of the odometer -/

/-- The search shows the point `k` of `p` passes. -/
structure Exhaustive.Shows (ranges : List (HRange K)) (p k : ℕ) (s : Exhaustive K W) : Prop where
  range : s.range = ranges
  within : Odometer.Within s.idx (sizes ranges)
  vals : s.curr.val = pointAt ranges s.idx
  pos : Odometer.value (sizes ranges) s.idx = k % spaceSize ranges
  passes : s.remainingPasses = p - (k / spaceSize ranges : ℕ)

variable {p k : ℕ} {s s' : Exhaustive K W} {nextafter : K → K}

/-- The point that the search shows. -/
lemma Exhaustive.Shows.point (h : s.Shows ranges p k) :
    (grid ranges)[k % (grid ranges).length]? = some s.curr.val := by
  have hrow := Odometer.rows_getElem?_value h.within
  rw [h.pos] at hrow
  rw [length_grid, grid_eq, List.getElem?_map, hrow, h.vals]
  rfl

/-- Nothing but the position of the search matters. -/
lemma Exhaustive.Shows.congr (h : s.Shows ranges p k) (hrange : s'.range = s.range)
    (hidx : s'.idx = s.idx) (hvals : s'.curr.val = s.curr.val)
    (hpasses : s'.remainingPasses = s.remainingPasses) : s'.Shows ranges p k where
  range := hrange.trans h.range
  within := by rw [hidx]; exact h.within
  vals := by rw [hvals, hidx]; exact h.vals
  pos := by rw [hidx]; exact h.pos
  passes := hpasses.trans h.passes

variable (nextafter) in
omit [FloorSemiring K] in
lemma overflowsNext_isSome (h : range.Stepped) (i : ℕ) :
    ∃ b, overflowsNext nextafter range (range.value i) i = some b := by
  unfold HRange.Stepped at h
  unfold overflowsNext HRange.value
  cases hb : range.bounds with
  | unknown => rw [hb] at h; exact h.elim
  | int min max step => exact ⟨_, rfl⟩
  | real min max step => exact ⟨_, rfl⟩
  | str set => exact ⟨_, rfl⟩

variable (nextafter) in
/-- The look-ahead counts the variables of the point. -/
lemma countOverflows_isSome (h : ∀ r ∈ ranges, r.Stepped) {idx : List ℕ}
    (hwithin : Odometer.Within idx (sizes ranges)) :
    ∃ n, countOverflows nextafter ranges (pointAt ranges idx) idx = some n := by
  induction ranges generalizing idx with
  | nil =>
    cases hwithin
    exact ⟨0, rfl⟩
  | cons range ranges ih =>
    cases hwithin with
    | @cons i _ idx _ hi htail =>
      obtain ⟨b, hb⟩ := overflowsNext_isSome nextafter (h range List.mem_cons_self) i
      obtain ⟨n, hn⟩ := ih (fun r hr => h r (List.mem_cons_of_mem range hr)) htail
      refine ⟨if b then n + 1 else n, ?_⟩
      show countOverflows nextafter (range :: ranges) (range.value i :: pointAt ranges idx) (i :: idx) = _
      rw [countOverflows, hb, hn]
      rfl

/-- What a turn of `increment` leaves as it is. -/
structure Exhaustive.SameTrials (s s' : Exhaustive K W) : Prop where
  id : s'.curr.id = s.curr.id
  allocated : s'.allocated = s.allocated
  best : s'.best = s.best
  points : s'.outstandingPoints = s.outstandingPoints
  received : s'.finalPointReceived = s.finalPointReceived

variable (nextafter) in
/-- `increment` shows the next point. -/
lemma Exhaustive.Shows.increment [IsStrictOrderedRing K] (h : s.Shows ranges p k)
    (hst : ∀ r ∈ ranges, r.Stepped) (hk : k < p * spaceSize ranges) :
    ∃ s', ActiveHarmony.increment nextafter s = (0, s') ∧ s'.Shows ranges p (k + 1) ∧
      s.SameTrials s' ∧ (s'.finalId = s.finalId ∨ s'.finalId = s.curr.id ∨
        s'.finalId = s.curr.id - 1 ∧ k + 1 = p * spaceSize ranges) := by
  have hS := spaceSize_pos hst
  have hdiv := Nat.div_add_mod k (spaceSize ranges)
  have hmod := Nat.mod_lt k hS
  have hpass : k / spaceSize ranges < p := Nat.div_lt_of_lt_mul (by rwa [Nat.mul_comm])
  have hpasses := h.passes
  have hturn := turn_pointAt nextafter hst h.within
  have hmoved : (Odometer.next (sizes ranges) s.idx).2
      = decide (Odometer.value (sizes ranges) s.idx + 1 < spaceSize ranges) :=
    (Odometer.next_value h.within).1
  have hvalue : Odometer.value (sizes ranges) (Odometer.next (sizes ranges) s.idx).1
      = if Odometer.value (sizes ranges) s.idx + 1 < spaceSize ranges
        then Odometer.value (sizes ranges) s.idx + 1 else 0 := (Odometer.next_value h.within).2
  have hwithin := Odometer.next_within h.within
  unfold ActiveHarmony.increment
  rw [if_neg (by omega), h.range, h.vals, hturn, hmoved]
  rw [h.pos] at hvalue ⊢
  by_cases hroom : k % spaceSize ranges + 1 < spaceSize ranges
  · -- some variable does not overflow, and the look-ahead may set the final id
    rw [if_pos hroom] at hvalue
    rw [decide_eq_true hroom]
    obtain ⟨hquot, hrem⟩ := (Nat.div_mod_unique (a := k + 1) (c := k % spaceSize ranges + 1)
      (d := k / spaceSize ranges) hS).mpr ⟨by omega, hroom⟩
    obtain ⟨n, hn⟩ := countOverflows_isSome nextafter hst hwithin
    have hpos := hvalue.trans hrem.symm
    have hleft : s.remainingPasses = p - ((k + 1) / spaceSize ranges : ℕ) := by
      rw [hquot]
      exact hpasses
    simp only [hn]
    split_ifs
    · exact ⟨_, rfl, ⟨rfl, hwithin, rfl, hpos, hleft⟩, ⟨rfl, rfl, rfl, rfl, rfl⟩, Or.inr (Or.inl rfl)⟩
    · exact ⟨_, rfl, ⟨rfl, hwithin, rfl, hpos, hleft⟩, ⟨rfl, rfl, rfl, rfl, rfl⟩, Or.inl rfl⟩
  · -- all variables overflow: the pass ends
    have hfull : k % spaceSize ranges + 1 = spaceSize ranges := by omega
    rw [if_neg hroom] at hvalue
    rw [decide_eq_false hroom]
    obtain ⟨hquot, hrem⟩ := (Nat.div_mod_unique (a := k + 1) (c := 0)
      (d := k / spaceSize ranges + 1) hS).mpr ⟨by rw [Nat.mul_succ]; omega, hS⟩
    have hpos := hvalue.trans hrem.symm
    have hleft : s.remainingPasses - 1 = p - ((k + 1) / spaceSize ranges : ℕ) := by
      rw [hquot, hpasses]
      omega
    dsimp only
    split_ifs with hlast
    · have hend : k + 1 = p * spaceSize ranges := by
        have hp : p = k / spaceSize ranges + 1 := by omega
        rw [hp, Nat.succ_mul, Nat.mul_comm (k / spaceSize ranges)]
        omega
      exact ⟨_, rfl, ⟨rfl, hwithin, rfl, hpos, hleft⟩, ⟨rfl, rfl, rfl, rfl, rfl⟩,
        Or.inr (Or.inr ⟨rfl, hend⟩)⟩
    · exact ⟨_, rfl, ⟨rfl, hwithin, rfl, hpos, hleft⟩, ⟨rfl, rfl, rfl, rfl, rfl⟩, Or.inl rfl⟩

omit [FloorSemiring K] in
/-- Once the passes are used up, `increment` does nothing. -/
lemma increment_used_up (h : s.remainingPasses ≤ 0) : increment nextafter s = (0, s) := if_pos h

lemma Exhaustive.Shows.remaining_pos (h : s.Shows ranges p k) (hst : ∀ r ∈ ranges, r.Stepped) :
    0 < s.remainingPasses ↔ k < p * spaceSize ranges := by
  have hdiv : k / spaceSize ranges < p ↔ k < p * spaceSize ranges :=
    Nat.div_lt_iff_lt_mul (spaceSize_pos hst)
  rw [h.passes, ← hdiv]
  omega

variable (nextafter) in
/-- `strategy_generate` gives the point that the search shows. -/
lemma exGenerate_shows [IsStrictOrderedRing K] {w : World (Exhaustive K W)} (h : w.plug.Shows ranges p k)
    (hst : ∀ r ∈ ranges, r.Stepped) (hk : k < p * spaceSize ranges) (flow : Flow K) (point : HPoint K) :
    ∃ w', exGenerate nextafter w flow point =
        (0, w', { flow with status := .accept }, hpointCopy w.plug.curr) ∧
      w'.cfg = w.cfg ∧ w'.plug.Shows ranges p (k + 1) ∧ w'.plug.curr.id = w.plug.curr.id + 1 ∧
      w'.plug.best = w.plug.best ∧ w'.plug.finalPointReceived = w.plug.finalPointReceived ∧
      (w'.plug.finalId = w.plug.finalId ∨ w'.plug.finalId = w.plug.curr.id ∨
        w'.plug.finalId = w.plug.curr.id - 1 ∧ k + 1 = p * spaceSize ranges) := by
  obtain ⟨s', hinc, hshows, hsame, hfinal⟩ := h.increment nextafter hst hk
  have hnext : ({ s' with curr := { s'.curr with id := s'.curr.id + 1 } } : Exhaustive K W).Shows
      ranges p (k + 1) := hshows.congr rfl rfl rfl rfl
  have hid : s'.curr.id + 1 = w.plug.curr.id + 1 := by rw [hsame.id]
  unfold exGenerate
  simp only [gt_iff_lt, if_pos ((h.remaining_pos hst).mpr hk), hinc, ne_eq, not_true_eq_false, if_false]
  split_ifs
  · exact ⟨_, rfl, rfl, hnext.congr rfl rfl rfl rfl, hid, hsame.best, hsame.received, hfinal⟩
  · exact ⟨_, rfl, rfl, hnext, hid, hsame.best, hsame.received, hfinal⟩

/-! ## The start of a search -/

section

variable [Top W] {pointOf : Bytes → Option (List (HVal K) × List ℕ)} {sig : HSignature K}
  {w w' : World (Exhaustive K W)}

/-- The strategy after the one time initialization of `strategy_init`. -/
def Exhaustive.once (s : Exhaustive K W) : Exhaustive K W :=
  if s.allocated then s
  else
    { s with
      allocated := true
      best := hpointInitializer K
      bestPerf := ⊤
      curr := { s.curr with id := 1 } }

/-- The passes of the next search: without `CFGKEY_PASSES`, those that are left. -/
def Exhaustive.nextPasses (s : Exhaustive K W) (cfg : Hcfg) : ℤ :=
  match hcfgGet cfg cfgkeyPasses with
  | some cfgstr => atoi cfgstr
  | none => s.remainingPasses

variable (pointOf) in
omit [FloorSemiring K] [Top W] in
lemma exCfg_spec (hpoint : hcfgGet w.cfg cfgkeyInitPoint = none) (hst : ∀ r ∈ w.plug.range, r.Stepped) :
    exCfg pointOf w = (0, { w with plug :=
      { w.plug with
        curr :=
          { w.plug.curr with val := pointAt w.plug.range (List.replicate w.plug.range.length 0) }
        idx := List.replicate w.plug.range.length 0
        remainingPasses := w.plug.nextPasses w.cfg } }) := by
  unfold exCfg Exhaustive.nextPasses
  cases hget : hcfgGet w.cfg cfgkeyPasses with
  | none => simp only [hpoint, mapM_first hst]
  | some cfgstr => simp only [hpoint, mapM_first hst]

omit [Field K] [LinearOrder K] [FloorSemiring K] in
/-- `strategy_init` after its one time initialization. -/
lemma exInit_once {c : ℤ × World (Exhaustive K W)}
    (hcfg : exCfg pointOf { w with plug := { w.plug.once with range := sig.range } } = c) :
    exInit pointOf sig w =
      if c.1 ≠ 0 then (-1, c.2)
      else if (sessionSetcfg c.2 cfgkeyStrategyConverged (cstr "0")).1 ≠ 0 then
        (-1, sessionError (sessionSetcfg c.2 cfgkeyStrategyConverged (cstr "0")).2
          (cstr "Could not set STRATEGY_CONVERGED config variable."))
      else (0, (sessionSetcfg c.2 cfgkeyStrategyConverged (cstr "0")).2) := by
  have honce : (if ({ w.plug with range := sig.range } : Exhaustive K W).allocated then
      { w.plug with range := sig.range }
      else
        { w.plug with
          range := sig.range
          allocated := true
          best := hpointInitializer K
          bestPerf := ⊤
          curr := { w.plug.curr with id := 1 } }) = { w.plug.once with range := sig.range } := by
    unfold Exhaustive.once
    dsimp only
    split_ifs <;> rfl
  unfold exInit
  dsimp only at honce ⊢
  rw [honce, hcfg]

omit [FloorSemiring K] in
/-- `strategy_init` goes back to the first point. -/
lemma exInit_spec (hpoint : hcfgGet w.cfg cfgkeyInitPoint = none) (hst : ∀ r ∈ sig.range, r.Stepped)
    (hinit : exInit pointOf sig w = (0, w')) :
    w'.plug =
      { w.plug.once with
        range := sig.range
        curr :=
          { id := w.plug.once.curr.id, val := pointAt sig.range (List.replicate sig.range.length 0) }
        idx := List.replicate sig.range.length 0
        remainingPasses := w.plug.nextPasses w.cfg } := by
  have hleft : ({ w.plug.once with range := sig.range } : Exhaustive K W).nextPasses w.cfg =
      w.plug.nextPasses w.cfg := by
    unfold Exhaustive.nextPasses Exhaustive.once
    split_ifs <;> rfl
  have hcfg := exCfg_spec pointOf
    (w := { w with plug := { w.plug.once with range := sig.range } }) hpoint hst
  rw [hleft] at hcfg
  rw [exInit_once hcfg, if_neg (not_not.mpr rfl)] at hinit
  split_ifs at hinit with hret
  · exact absurd (congrArg Prod.fst hinit) (by simp)
  · rw [← (Prod.mk.inj hinit).2]
    exact sessionSetcfg_plug ..

/-- A search begins at the first point of its first pass. -/
lemma exInit_shows (hpoint : hcfgGet w.cfg cfgkeyInitPoint = none)
    (hst : ∀ r ∈ sig.range, r.Stepped) (hpasses : w.plug.nextPasses w.cfg = p)
    (hinit : exInit pointOf sig w = (0, w')) : w'.plug.Shows sig.range p 0 := by
  rw [exInit_spec hpoint hst hinit]
  refine ⟨rfl, within_first hst, rfl, ?_, ?_⟩
  · exact (Odometer.value_replicate_zero _ _).trans (Nat.zero_mod _).symm
  · rw [Nat.zero_div]
    exact hpasses.trans (Int.sub_zero _).symm

end

/-! ## Searches without rejections -/

variable [Add W] [Zero W] [LT W] [DecidableLT W]

variable (nextafter) in
/-- The return values and the points of the calls of `strategy_generate` since `w₀`, with any reports in
between. -/
inductive Served (w₀ : World (Exhaustive K W)) : List (ℤ × HPoint K) → World (Exhaustive K W) → Prop
  | start : Served w₀ [] w₀
  | generate {answers w} (flow : Flow K) (point : HPoint K) (h : Served w₀ answers w) :
      Served w₀ (answers ++ [((exGenerate nextafter w flow point).1,
        (exGenerate nextafter w flow point).2.2.2)]) (exGenerate nextafter w flow point).2.1
  | analyze {answers w} (trial : HTrial K W) (h : Served w₀ answers w) :
      Served w₀ answers (exAnalyze w trial).2

omit [Field K] [LinearOrder K] [FloorSemiring K] in
/-- A report does not turn the odometer. -/
lemma exAnalyze_curr (w : World (Exhaustive K W)) (trial : HTrial K W) :
    (exAnalyze w trial).2.plug.range = w.plug.range ∧ (exAnalyze w trial).2.plug.idx = w.plug.idx ∧
      (exAnalyze w trial).2.plug.curr = w.plug.curr ∧
      (exAnalyze w trial).2.plug.remainingPasses = w.plug.remainingPasses := by
  obtain ⟨⟨best, perf, points, received, hplug, -, -⟩, -⟩ := exAnalyze_spec w trial
  rw [hplug]
  exact ⟨rfl, rfl, rfl, rfl⟩

/-- The points of a search so far. -/
lemma Served.spec [IsStrictOrderedRing K] {w₀ w : World (Exhaustive K W)} {answers : List (ℤ × HPoint K)}
    (h : Served nextafter w₀ answers w) (hst : ∀ r ∈ ranges, r.Stepped)
    (h₀ : w₀.plug.Shows ranges p 0) (hid : 0 < w₀.plug.curr.id)
    (hlen : answers.length ≤ p * spaceSize ranges) :
    w.plug.Shows ranges p answers.length ∧ w.plug.curr.id = w₀.plug.curr.id + answers.length ∧
      answers.map Prod.fst = List.replicate answers.length 0 ∧
      answers.map (fun a => a.2.id) =
        (List.range answers.length).map (fun k : ℕ => w₀.plug.curr.id + (k : ℤ)) ∧
      answers.map (fun a => some a.2.val) =
        (List.range answers.length).map fun k => (grid ranges)[k % (grid ranges).length]? := by
  induction h with
  | start => exact ⟨h₀, (Int.add_zero _).symm, rfl, rfl, rfl⟩
  | @generate answers w flow point h ih =>
    rw [List.length_append, List.length_singleton] at hlen
    obtain ⟨hshows, hcurr, hret, hids, hvals⟩ := ih (by omega)
    obtain ⟨w', hgen, -, hshows', hcurr', -⟩ :=
      exGenerate_shows nextafter hshows hst (by omega) flow point
    have hcopy : hpointCopy w.plug.curr = w.plug.curr := if_neg (by omega)
    rw [hgen, hcopy]
    simp only [List.length_append, List.length_singleton, List.map_append, List.map_cons, List.map_nil,
      List.range_succ, hret, hids, hvals]
    refine ⟨hshows', by rw [hcurr', hcurr]; push_cast; ring, ?_, ?_, ?_⟩
    · exact List.replicate_succ'.symm
    · rw [hcurr]
    · rw [hshows.point]
  | @analyze answers w trial h ih =>
    obtain ⟨hshows, hcurr, hrest⟩ := ih hlen
    obtain ⟨hrange, hidx, hsame, hpasses⟩ := exAnalyze_curr w trial
    exact ⟨hshows.congr hrange hidx (congrArg HPoint.val hsame) hpasses,
      (congrArg HPoint.id hsame).trans hcurr, hrest⟩

/-- The points of all passes. -/
lemma Served.all [IsStrictOrderedRing K] {w₀ w : World (Exhaustive K W)} {answers : List (ℤ × HPoint K)}
    (h : Served nextafter w₀ answers w) (hst : ∀ r ∈ ranges, r.Stepped)
    (h₀ : w₀.plug.Shows ranges p 0) (hid : 0 < w₀.plug.curr.id)
    (hlen : answers.length = p * spaceSize ranges) :
    answers.map Prod.fst = List.replicate (p * spaceSize ranges) 0 ∧
      answers.map (fun a => a.2.id) =
        (List.range (p * spaceSize ranges)).map (fun k : ℕ => w₀.plug.curr.id + (k : ℤ)) ∧
      answers.map (fun a => a.2.val) = (List.replicate p (grid ranges)).flatten := by
  obtain ⟨-, -, hret, hids, hvals⟩ := h.spec hst h₀ hid hlen.le
  rw [hlen] at hret hids hvals
  refine ⟨hret, hids, ?_⟩
  rw [← length_grid, Odometer.map_mod_range] at hvals
  have hinj := List.map_injective_iff.mpr (Option.some_injective (List (HVal K)))
  apply hinj
  rw [List.map_map]
  exact hvals

/-- The first points of a search, one pass after the other, are the points of the grid with the ids from 1
on. -/
theorem exhaustive_enumerates [IsStrictOrderedRing K] [Top W]
    {pointOf : Bytes → Option (List (HVal K) × List ℕ)} {sig : HSignature K}
    {world world' w : World (Exhaustive K W)} {answers : List (ℤ × HPoint K)}
    (hloaded : world.plug = Exhaustive.loaded) (hpoint : hcfgGet world.cfg cfgkeyInitPoint = none)
    (hpasses : passesOf world.cfg = p) (hdeclared : ∀ r ∈ sig.range, r.Declared)
    (hinit : exInit pointOf sig world = (0, world')) (hserved : Served nextafter world' answers w)
    (hlen : answers.length = p * spaceSize sig.range) :
    answers.map Prod.fst = List.replicate (p * spaceSize sig.range) 0 ∧
      answers.map (fun a => a.2.id) = (List.range (p * spaceSize sig.range)).map (fun k : ℕ => 1 + (k : ℤ)) ∧
      answers.map (fun a => a.2.val) = (List.replicate p (grid sig.range)).flatten ∧
      (grid sig.range).Nodup ∧ (grid sig.range).length = spaceSize sig.range ∧
      ∀ vals, vals ∈ grid sig.range ↔ List.Forall₂ (fun val r => r.Allows val) vals sig.range := by
  have hst : ∀ r ∈ sig.range, r.Stepped := fun r hr => (hdeclared r hr).stepped
  have hleft : world.plug.nextPasses world.cfg = p := by
    rw [← hpasses, hloaded]
    rfl
  have hid : world'.plug.curr.id = 1 := by
    rw [exInit_spec hpoint hst hinit, hloaded]
    rfl
  obtain ⟨hret, hids, hvals⟩ := hserved.all hst (exInit_shows hpoint hst hleft hinit)
    (by rw [hid]; exact one_pos) hlen
  rw [hid] at hids
  exact ⟨hret, hids, hvals, nodup_grid hdeclared, length_grid sig.range, fun vals => mem_grid hst⟩

lemma twoPoints_declared : ∀ r ∈ twoPoints.range, r.Declared := by
  intro r hr
  rw [List.mem_singleton.mp hr]
  exact ⟨by decide, by decide, by decide⟩

theorem exhaustive_enumerates_two_points : ∃ (answers : List (ℤ × HPoint ℚ))
    (w : World (Exhaustive ℚ (WithTop ℕ))), Served id twoWorld answers w ∧
      answers.map (fun a => a.2.id) = [1, 2] ∧
      answers.map (fun a => a.2.val) = [[.int 0], [.int 1]] := by
  have hstart : Served id twoWorld [] twoWorld := .start
  have hserved := (hstart.generate
    { status := .accept, point := hpointInitializer ℚ } (hpointInitializer ℚ)).generate
    { status := .accept, point := hpointInitializer ℚ } (hpointInitializer ℚ)
  obtain ⟨-, hids, hvals, -⟩ := exhaustive_enumerates (p := 1) rfl (hcfgGet_alloc _)
    (by decide +kernel) twoPoints_declared twoWorld_init hserved (by decide +kernel)
  exact ⟨_, _, hserved, hids, hvals⟩

end ActiveHarmony

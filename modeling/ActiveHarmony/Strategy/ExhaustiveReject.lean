import ActiveHarmony.Lib.NearestPoint
import ActiveHarmony.Session.Workflow
import ActiveHarmony.Strategy.ExhaustiveRestart

/-!
# Rejections of exhaustive search

Layers that reject points without a hint send the workflow back to `strategy_rejected`, which turns the
odometer. Once the passes are used up it does not turn any more, and a workflow whose current point is
rejected then goes on forever. In every reachable session a workflow comes to a point that the layers accept
exactly when one is left.
-/

namespace ActiveHarmony

variable {K W : Type} [Field K] [LinearOrder K] [FloorSemiring K]

/-! ## `INIT_POINT` -/

attribute [local instance] two_atLeastTwo in
/-- The rounding of `hrange_int_index` and `hrange_real_index`, with exact arithmetic: an index from a
position. -/
def nearestIndex (idx : K) (maxIdx : ℕ) : ℕ :=
  let idx := idx + 1 / 2
  let idx := if idx < 0 then 0 else idx
  let idx := if idx > maxIdx then (maxIdx : K) else idx
  ⌊idx⌋₊

/-- `hrange_int_max_idx`. -/
def hrangeIntMaxIdx (min max step : ℤ) : ℕ := ((max - min).tdiv step).toNat

variable (K) in
/-- `hrange_int_index`. -/
def hrangeIntIndex (min max step val : ℤ) : ℕ :=
  nearestIndex (((val - min : ℤ) : K) / step) (hrangeIntMaxIdx min max step)

variable (K) in
/-- `hrange_int_nearest`. -/
def hrangeIntNearest (min max step val : ℤ) : ℤ := min + hrangeIntIndex K min max step val * step

/-- `hrange_real_max_idx`. -/
def hrangeRealMaxIdx (min max step : K) : ℕ := if step > 0 then ⌊(max - min) / step⌋₊ else 0

/-- `hrange_real_index`. -/
def hrangeRealIndex (min max step val : K) : ℕ :=
  nearestIndex ((val - min) / step) (hrangeRealMaxIdx min max step)

/-- `hrange_real_nearest`. -/
def hrangeRealNearest (min max step val : K) : K :=
  if step > 0 then min + hrangeRealIndex min max step val * step
  else
    let val := if val < min then min else val
    if val > max then max else val

/-- `hrange_str_index`. -/
def hrangeStrIndex (set : List Bytes) (val : Bytes) : ℕ :=
  let idx := set.findIdx (· = val)
  if idx ≥ set.length then 0 else idx

/-- One value of `hpoint_align`. -/
def hvalAlign (range : HRange K) (val : HVal K) : Option (HVal K) :=
  match range.bounds, val with
  | .int min max step, .int i => some (.int (hrangeIntNearest K min max step i))
  | .real min max step, .real r => some (.real (hrangeRealNearest min max step r))
  | .str set, .str (some s) => some (.str set[hrangeStrIndex set s]?)
  | _, _ => none

/-- `hpoint_align`. -/
def hpointAlign : List (HRange K) → List (HVal K) → Option (List (HVal K))
  | [], [] => some []
  | range :: ranges, val :: vals => do
    let val ← hvalAlign range val
    let vals ← hpointAlign ranges vals
    some (val :: vals)
  | _, _ => none

/-- The index of a value in `strategy_cfg`. -/
def indexOf (range : HRange K) (val : HVal K) : Option ℕ :=
  match range.bounds, val with
  | .int min max step, .int i => some (hrangeIntIndex K min max step i)
  | .real min max step, .real r => some (hrangeRealIndex min max step r)
  | .str set, .str (some s) => some (hrangeStrIndex set s)
  | _, _ => none

/-- The indices of a point in `strategy_cfg`. -/
def indicesOf : List (HRange K) → List (HVal K) → Option (List ℕ)
  | [], [] => some []
  | range :: ranges, val :: vals => do
    let idx ← indexOf range val
    let idxs ← indicesOf ranges vals
    some (idx :: idxs)
  | _, _ => none

/-- What `strategy_cfg` makes of `INIT_POINT`; `parse` stands for `hpoint_parse`. -/
def initPoint (parse : Bytes → Option (List (HVal K))) (ranges : List (HRange K)) (cfgstr : Bytes) :
    Option (List (HVal K) × List ℕ) := do
  let vals ← parse cfgstr
  let vals ← hpointAlign ranges vals
  let idx ← indicesOf ranges vals
  some (vals, idx)

variable {range : HRange K} {ranges : List (HRange K)} {val val' : HVal K} {vals : List (HVal K)}
  {i : ℕ} {idx : List ℕ}

section

variable [IsStrictOrderedRing K]

lemma nearestIndex_le (x : K) (n : ℕ) : nearestIndex x n ≤ n := by
  unfold nearestIndex
  dsimp only
  split_ifs with hneg hlt hlt
  · exact Nat.floor_natCast n |>.le
  · rw [Nat.floor_zero]
    exact n.zero_le
  · exact Nat.floor_natCast n |>.le
  · exact (Nat.floor_le_floor (not_lt.mp hlt)).trans_eq (Nat.floor_natCast n)

/-- An index is nearest to itself. -/
lemma nearestIndex_natCast {k n : ℕ} (hk : k ≤ n) : nearestIndex (k : K) n = k := by
  have hpos : (0 : K) ≤ k := Nat.cast_nonneg k
  have hhalf : (0 : K) < 1 / 2 := by positivity
  unfold nearestIndex
  dsimp only
  rw [if_neg (not_lt.mpr (add_nonneg hpos hhalf.le))]
  split_ifs with hlt
  · have hnext : (n : K) < k + 1 := by linarith
    have hlast : n < k + 1 := by exact_mod_cast hnext
    rw [Nat.floor_natCast]
    omega
  · rw [Nat.floor_eq_iff (add_nonneg hpos hhalf.le)]
    constructor
    · linarith
    · linarith

lemma hrangeStrIndex_lt {set : List Bytes} (hset : set ≠ []) (s : Bytes) :
    hrangeStrIndex set s < set.length := by
  have hpos := List.length_pos_of_ne_nil hset
  unfold hrangeStrIndex
  dsimp only
  split_ifs with hout
  · exact hpos
  · omega

lemma hrangeStrIndex_getElem {set : List Bytes} {s : Bytes} (hs : s ∈ set) :
    set[hrangeStrIndex set s]? = some s := by
  have hlt : set.findIdx (· = s) < set.length :=
    List.findIdx_lt_length_of_exists ⟨s, hs, by simp⟩
  have hfound : decide (set[set.findIdx (· = s)] = s) = true :=
    List.findIdx_getElem (p := fun x => decide (x = s)) (w := hlt)
  unfold hrangeStrIndex
  dsimp only
  rw [if_neg (not_le.mpr hlt), List.getElem?_eq_getElem hlt, of_decide_eq_true hfound]

/-- An aligned value is the value at its index. -/
lemma hvalAlign_value (h : range.Stepped) (halign : hvalAlign range val = some val')
    (hidx : indexOf range val' = some i) : i < range.size ∧ val' = range.value i := by
  unfold HRange.Stepped at h
  unfold hvalAlign at halign
  unfold indexOf at hidx
  unfold HRange.size HRange.value
  cases hb : range.bounds with
  | unknown => rw [hb] at h; exact h.elim
  | int min max step =>
    rw [hb] at h halign hidx
    cases val with
    | int v =>
      have hmax : hrangeIntMaxIdx min max step = ((max - min) / step).toNat := by
        unfold hrangeIntMaxIdx
        rw [Int.tdiv_eq_ediv_of_nonneg (by omega)]
      have hle : hrangeIntIndex K min max step v ≤ ((max - min) / step).toNat := by
        rw [← hmax]
        exact nearestIndex_le _ _
      obtain rfl := Option.some.inj halign
      obtain rfl := Option.some.inj hidx
      have hback : hrangeIntIndex K min max step (hrangeIntNearest K min max step v) =
          hrangeIntIndex K min max step v := by
        have hstep : (step : K) ≠ 0 := by exact_mod_cast h.1.ne'
        have hpos : ((hrangeIntNearest K min max step v - min : ℤ) : K) / step =
            (hrangeIntIndex K min max step v : K) := by
          unfold hrangeIntNearest
          rw [add_sub_cancel_left, Int.cast_mul, Int.cast_natCast, mul_div_cancel_right₀ _ hstep]
        conv_lhs => unfold hrangeIntIndex
        rw [hpos]
        exact nearestIndex_natCast (hmax ▸ hle)
      rw [hback]
      exact ⟨Nat.lt_succ_of_le hle, rfl⟩
    | _ => cases halign
  | real min max step =>
    rw [hb] at h halign hidx
    cases val with
    | real v =>
      have hmax : hrangeRealMaxIdx min max step = ⌊(max - min) / step⌋₊ := if_pos h.1
      have hnear : hrangeRealNearest min max step v = min + hrangeRealIndex min max step v * step :=
        if_pos h.1
      have hle : hrangeRealIndex min max step v ≤ ⌊(max - min) / step⌋₊ := by
        rw [← hmax]
        exact nearestIndex_le _ _
      obtain rfl := Option.some.inj halign
      obtain rfl := Option.some.inj hidx
      have hback : hrangeRealIndex min max step (hrangeRealNearest min max step v) =
          hrangeRealIndex min max step v := by
        have hpos : (hrangeRealNearest min max step v - min) / step =
            (hrangeRealIndex min max step v : K) := by
          rw [hnear, add_sub_cancel_left, mul_div_cancel_right₀ _ h.1.ne']
        conv_lhs => unfold hrangeRealIndex
        rw [hpos]
        exact nearestIndex_natCast (hmax ▸ hle)
      rw [hback]
      exact ⟨Nat.lt_succ_of_le hle, congrArg HVal.real hnear⟩
    | _ => cases halign
  | str set =>
    rw [hb] at h halign hidx
    cases val with
    | str v =>
      cases v with
      | none => cases halign
      | some v =>
        have hlt := hrangeStrIndex_lt h v
        dsimp only at halign
        rw [List.getElem?_eq_getElem hlt] at halign
        obtain rfl := Option.some.inj halign
        obtain rfl := Option.some.inj hidx
        exact ⟨hrangeStrIndex_lt h _,
          congrArg HVal.str (hrangeStrIndex_getElem (List.getElem_mem hlt)).symm⟩
    | _ => cases halign

/-- An aligned point is the one at its indices. -/
lemma hpointAlign_pointAt (hst : ∀ r ∈ ranges, r.Stepped) {parsed : List (HVal K)}
    (halign : hpointAlign ranges parsed = some vals) (hidx : indicesOf ranges vals = some idx) :
    Odometer.Within idx (sizes ranges) ∧ vals = pointAt ranges idx := by
  induction ranges generalizing parsed vals idx with
  | nil =>
    cases parsed with
    | nil =>
      cases halign
      cases hidx
      exact ⟨List.Forall₂.nil, rfl⟩
    | cons => cases halign
  | cons range ranges ih =>
    cases parsed with
    | nil => cases halign
    | cons val parsed =>
      obtain ⟨val', hval, halign⟩ := Option.bind_eq_some_iff.mp halign
      obtain ⟨vals', hvals, halign⟩ := Option.bind_eq_some_iff.mp halign
      obtain rfl := Option.some.inj halign
      obtain ⟨i, hi, hidx⟩ := Option.bind_eq_some_iff.mp hidx
      obtain ⟨idx', hidxs, hidx⟩ := Option.bind_eq_some_iff.mp hidx
      obtain rfl := Option.some.inj hidx
      obtain ⟨hlt, rfl⟩ := hvalAlign_value (hst range List.mem_cons_self) hval hi
      obtain ⟨hwithin, rfl⟩ := ih (fun r hr => hst r (List.mem_cons_of_mem _ hr)) hvals hidxs
      exact ⟨List.Forall₂.cons hlt hwithin, rfl⟩

/-- `INIT_POINT` is a point of the grid. -/
lemma initPoint_pointAt {parse : Bytes → Option (List (HVal K))} (hst : ∀ r ∈ ranges, r.Stepped)
    {cfgstr : Bytes} (h : initPoint parse ranges cfgstr = some (vals, idx)) :
    Odometer.Within idx (sizes ranges) ∧ vals = pointAt ranges idx := by
  obtain ⟨parsed, -, h⟩ := Option.bind_eq_some_iff.mp h
  obtain ⟨_, halign, h⟩ := Option.bind_eq_some_iff.mp h
  obtain ⟨_, hidx, h⟩ := Option.bind_eq_some_iff.mp h
  cases h
  exact hpointAlign_pointAt hst halign hidx

end

/-! ## Where the search stands -/

/-- The search shows a point of the grid, and its ids have begun. -/
structure Exhaustive.Turning (ranges : List (HRange K)) (s : Exhaustive K W) : Prop where
  range : s.range = ranges
  within : Odometer.Within s.idx (sizes ranges)
  vals : s.curr.val = pointAt ranges s.idx
  id : 0 < s.curr.id

variable {s s' : Exhaustive K W} {w w' : World (Exhaustive K W)} {p k : ℕ} {nextafter : K → K}
  {flow : Flow K}

lemma Exhaustive.Shows.turning (h : s.Shows ranges p k) (hid : 0 < s.curr.id) : s.Turning ranges :=
  ⟨h.range, h.within, h.vals, hid⟩

/-- The passes that are left begin at the point that the search shows. -/
lemma Exhaustive.Turning.shows (h : s.Turning ranges) : s.Shows ranges s.remainingPasses.toNat
    (Odometer.value (sizes ranges) s.idx + spaceSize ranges * (-s.remainingPasses).toNat) := by
  have hlt : Odometer.value (sizes ranges) s.idx < spaceSize ranges := Odometer.value_lt h.within
  have hpos : 0 < spaceSize ranges := by omega
  constructor
  · exact h.range
  · exact h.within
  · exact h.vals
  · rw [Nat.add_mul_mod_self_left, Nat.mod_eq_of_lt hlt]
  · rw [Nat.add_mul_div_left _ _ hpos, Nat.div_eq_of_lt hlt]
    omega

section

variable [IsStrictOrderedRing K]

variable (nextafter) in
/-- `increment` shows the next point until the passes are used up. -/
lemma Exhaustive.Shows.turn (h : s.Shows ranges p k) (hst : ∀ r ∈ ranges, r.Stepped) :
    ∃ s', ActiveHarmony.increment nextafter s = (0, s') ∧
      s'.Shows ranges p (min (k + 1) (max k (p * spaceSize ranges))) ∧ s'.curr.id = s.curr.id := by
  by_cases hk : k < p * spaceSize ranges
  · obtain ⟨s', hinc, hshows, hsame, -⟩ := h.increment nextafter hst hk
    have hnext : min (k + 1) (max k (p * spaceSize ranges)) = k + 1 := by omega
    rw [hnext]
    exact ⟨s', hinc, hshows, hsame.id⟩
  · have hsame : min (k + 1) (max k (p * spaceSize ranges)) = k := by omega
    have hleft := mt (h.remaining_pos hst).mp hk
    rw [hsame]
    exact ⟨s, increment_used_up (by omega), h, rfl⟩

variable (nextafter) in
/-- `strategy_generate` gives the point that the search shows, and the best one when the passes are used
up. -/
lemma exGenerate_turn (h : w.plug.Shows ranges p k) (hst : ∀ r ∈ ranges, r.Stepped)
    (hid : 0 < w.plug.curr.id) (flow : Flow K) (point : HPoint K) :
    ∃ w', exGenerate nextafter w flow point = (0, w', { flow with status := .accept },
        if 0 < w.plug.remainingPasses then w.plug.curr else hpointCopy w.plug.best) ∧
      w'.plug.Shows ranges p (min (k + 1) (max k (p * spaceSize ranges))) ∧ 0 < w'.plug.curr.id := by
  by_cases hk : k < p * spaceSize ranges
  · obtain ⟨w', hgen, -, hshows, hnext, -⟩ := exGenerate_shows nextafter h hst hk flow point
    have hcopy : hpointCopy w.plug.curr = w.plug.curr := if_neg (by omega)
    have hturn : min (k + 1) (max k (p * spaceSize ranges)) = k + 1 := by omega
    rw [hturn, if_pos ((h.remaining_pos hst).mpr hk), hgen, hcopy]
    exact ⟨w', rfl, hshows, by omega⟩
  · have hleft := mt (h.remaining_pos hst).mp hk
    have hsame : min (k + 1) (max k (p * spaceSize ranges)) = k := by omega
    rw [hsame, if_neg hleft]
    unfold exGenerate
    simp only [gt_iff_lt, if_neg hleft, ne_eq, not_true_eq_false, if_false]
    split_ifs
    · exact ⟨_, rfl, h.congr rfl rfl rfl rfl, hid⟩
    · exact ⟨_, rfl, h, hid⟩

variable (nextafter) in
/-- Without a hint, `strategy_rejected` gives the point that the search shows. -/
lemma exRejected_turn (h : w.plug.Shows ranges p k) (hst : ∀ r ∈ ranges, r.Stepped)
    (hid : 0 < w.plug.curr.id) (hhint : flow.point.id = -1) (point : HPoint K) :
    ∃ w', exRejected nextafter w flow point = (0, w', { flow with status := .accept },
        { w.plug.curr with id := point.id }) ∧
      w'.plug.Shows ranges p (min (k + 1) (max k (p * spaceSize ranges))) ∧ 0 < w'.plug.curr.id := by
  obtain ⟨s', hinc, hshows, hsame⟩ := h.turn nextafter hst
  have hcopy : hpointCopy w.plug.curr = w.plug.curr := if_neg (by omega)
  refine ⟨{ w with plug := s' }, ?_, hshows, by rw [hsame]; exact hid⟩
  unfold exRejected
  simp only [hhint, hinc, hcopy, ne_eq, not_true_eq_false, if_false]

variable {sig : HSignature K} {parse : Bytes → Option (List (HVal K))}

variable (parse) in
/-- `strategy_cfg` leaves a point of the grid, unless it fails where there was none. -/
lemma exCfg_placed (hst : ∀ r ∈ w.plug.range, r.Stepped) (hrange : w.plug.range = ranges)
    (h : (exCfg (initPoint parse ranges) w).1 = 0 ∨
      Odometer.Within w.plug.idx (sizes ranges) ∧ w.plug.curr.val = pointAt ranges w.plug.idx) :
    Odometer.Within (exCfg (initPoint parse ranges) w).2.plug.idx (sizes ranges) ∧
      (exCfg (initPoint parse ranges) w).2.plug.curr.val =
        pointAt ranges (exCfg (initPoint parse ranges) w).2.plug.idx := by
  cases hpoint : hcfgGet w.cfg cfgkeyInitPoint with
  | none =>
    rw [exCfg_spec _ hpoint hst]
    dsimp only
    rw [hrange] at hst ⊢
    exact ⟨within_first hst, rfl⟩
  | some cfgstr =>
    cases hparse : initPoint parse ranges cfgstr with
    | none =>
      have hfail : (exCfg (initPoint parse ranges) w).1 = -1 ∧
          (exCfg (initPoint parse ranges) w).2.plug.idx = w.plug.idx ∧
          (exCfg (initPoint parse ranges) w).2.plug.curr = w.plug.curr := by
        unfold exCfg
        rw [hpoint]
        dsimp only
        rw [hparse]
        cases hcfgGet w.cfg cfgkeyPasses with
        | none => exact ⟨rfl, rfl, rfl⟩
        | some passes => exact ⟨rfl, rfl, rfl⟩
      rw [hfail.1] at h
      rw [hfail.2.1, hfail.2.2]
      exact h.resolve_left (by simp)
    | some placed =>
      have hset : (exCfg (initPoint parse ranges) w).2.plug.idx = placed.2 ∧
          (exCfg (initPoint parse ranges) w).2.plug.curr.val = placed.1 := by
        unfold exCfg
        rw [hpoint]
        dsimp only
        rw [hparse]
        exact ⟨rfl, rfl⟩
      rw [hset.1, hset.2]
      exact initPoint_pointAt (hrange ▸ hst) hparse

variable (w sig) in
omit [Field K] [LinearOrder K] [IsStrictOrderedRing K] [FloorSemiring K] in
lemma exInit_plug [Top W] (pointOf : Bytes → Option (List (HVal K) × List ℕ)) :
    (exInit pointOf sig w).2.plug =
      (exCfg pointOf { w with plug := { w.plug.once with range := sig.range } }).2.plug ∧
    ((exInit pointOf sig w).1 = 0 →
      (exCfg pointOf { w with plug := { w.plug.once with range := sig.range } }).1 = 0) := by
  rw [exInit_once rfl]
  split_ifs with hcfg hset
  · exact ⟨rfl, fun h => absurd h (by simp)⟩
  · exact ⟨sessionSetcfg_plug _ _ _, fun h => absurd h (by simp)⟩
  · exact ⟨sessionSetcfg_plug _ _ _, fun _ => not_not.mp hcfg⟩

variable (parse) in
/-- `strategy_init` leaves the search at a point of the grid. -/
lemma exInit_turning [Top W] (hst : ∀ r ∈ sig.range, r.Stepped) (hid : 0 < w.plug.once.curr.id)
    (h : (exInit (initPoint parse sig.range) sig w).1 = 0 ∨ w.plug.Turning sig.range) :
    (exInit (initPoint parse sig.range) sig w).2.plug.Turning sig.range := by
  obtain ⟨hplug, hret⟩ := exInit_plug w sig (initPoint parse sig.range)
  obtain ⟨vals, idx, passes, hframe⟩ := exCfg_frame (initPoint parse sig.range)
    { w with plug := { w.plug.once with range := sig.range } }
  have hplaced := exCfg_placed parse
    (w := { w with plug := { w.plug.once with range := sig.range } }) hst rfl (by
      apply h.imp hret
      intro hturning
      unfold Exhaustive.once
      split_ifs
      · exact ⟨hturning.within, hturning.vals⟩
      · exact ⟨hturning.within, hturning.vals⟩)
  rw [hplug]
  constructor
  · rw [hframe]
  · exact hplaced.1
  · exact hplaced.2
  · rw [hframe]
    exact hid

end

/-! ## Layers that reject points -/

/-- Every predicate accepts the point. -/
def Accepted (gates : List (List (HVal K) → Bool)) (vals : List (HVal K)) : Prop :=
  ∀ gate ∈ gates, gate vals = true

instance (gates : List (List (HVal K) → Bool)) (vals : List (HVal K)) : Decidable (Accepted gates vals) :=
  inferInstanceAs (Decidable (∀ gate ∈ gates, gate vals = true))

/-- A layer that rejects the points its predicate refuses, without a hint. -/
def gateLayer (gate : List (HVal K) → Bool) : Layer (Exhaustive K W) K W where
  generate := some fun world flow trial =>
    if gate trial.point.val then (0, world, { flow with status := .accept }, trial.perf)
    else (0, world, { status := .reject, point := hpointInitializer K }, trial.perf)
  analyze := none
  init := none
  fini := none

section

variable [Add W] [Zero W] [LT W] [DecidableLT W] [Top W]

/-- Exhaustive search under such layers. -/
def gated (nextafter : K → K) (parse : Bytes → Option (List (HVal K))) (sig : HSignature K)
    (gates : List (List (HVal K) → Bool)) : Plugins (Exhaustive K W) K W where
  strategyGenerate := exGenerate nextafter
  strategyRejected := exRejected nextafter
  strategyAnalyze := exAnalyze
  strategyBest := exBest
  strategyInit := some (exInit (initPoint parse sig.range) sig)
  lstack := gates.map gateLayer
  cb := []
  cb_index := fun _ hc => absurd hc List.not_mem_nil

variable {parse : Bytes → Option (List (HVal K))} {sig : HSignature K}
  {gates : List (List (HVal K) → Bool)}

variable (nextafter parse gates) in
/-- Every call of the plug-ins leaves the search at a point of the grid. -/
theorem gated_keeps [IsStrictOrderedRing K] (hst : ∀ r ∈ sig.range, r.Stepped) :
    (gated nextafter parse sig gates : Plugins (Exhaustive K W) K W).Keeps
      fun s => s.Turning sig.range where
  generate := by
    intro w flow point h
    obtain ⟨w', hgen, hshows, hid⟩ := exGenerate_turn nextafter h.shows hst h.id flow point
    show (exGenerate nextafter w flow point).2.1.plug.Turning sig.range
    rw [hgen]
    exact hshows.turning hid
  rejected := by
    intro w flow point h
    show (exRejected nextafter w flow point).2.1.plug.Turning sig.range
    by_cases hhint : flow.point.id = -1
    · obtain ⟨w', hrej, hshows, hid⟩ := exRejected_turn nextafter h.shows hst h.id hhint point
      rw [hrej]
      exact hshows.turning hid
    · unfold exRejected
      rw [if_pos hhint]
      exact h
  analyze := by
    intro w trial h
    obtain ⟨hrange, hidx, hcurr, -⟩ := exAnalyze_curr w trial
    exact {
      range := hrange.trans h.range
      within := hidx ▸ h.within
      vals := by
        show (exAnalyze w trial).2.plug.curr.val = pointAt sig.range (exAnalyze w trial).2.plug.idx
        rw [hcurr, hidx]
        exact h.vals
      id := by
        show 0 < (exAnalyze w trial).2.plug.curr.id
        rw [hcurr]
        exact h.id }
  best := fun _ _ h => h
  init := by
    intro hook hhook w h
    obtain rfl := Option.mem_some_iff.mp hhook
    apply exInit_turning parse hst _ (Or.inr h)
    unfold Exhaustive.once
    split_ifs
    · exact h.id
    · exact one_pos
  layerGenerate := by
    intro layer hlayer hook hhook w flow trial h
    obtain ⟨gate, -, rfl⟩ := List.mem_map.mp hlayer
    obtain rfl := Option.mem_some_iff.mp hhook
    dsimp only
    split_ifs
    · exact h
    · exact h
  layerAnalyze := by
    intro layer hlayer hook hhook
    obtain ⟨gate, -, rfl⟩ := List.mem_map.mp hlayer
    exact absurd hhook (Option.not_mem_none _)
  layerInit := by
    intro layer hlayer hook hhook
    obtain ⟨gate, -, rfl⟩ := List.mem_map.mp hlayer
    exact absurd hhook (Option.not_mem_none _)
  layerFini := by
    intro layer hlayer hook hhook
    obtain ⟨gate, -, rfl⟩ := List.mem_map.mp hlayer
    exact absurd hhook (Option.not_mem_none _)
  callback := fun _ hcb => absurd hcb List.not_mem_nil

/-! ## The workflow of a new trial -/

variable {t t' : Sess (Exhaustive K W) K W} {c : ℕ}

/-- The trial in slot `i` has passed `c` layers with the values `vals`, and the search shows the point `k`
of `p` passes. -/
structure Sess.Offers (gates : List (List (HVal K) → Bool)) (ranges : List (HRange K)) (p k i c : ℕ)
    (vals : List (HVal K)) (t : Sess (Exhaustive K W) K W) : Prop where
  layer : t.currLayer = c + 1
  below : c ≤ gates.length
  trial : ∃ trial, t.pending[i]? = some trial ∧ trial.point.val = vals
  passed : Accepted (gates.take c) vals
  tail : t.readyTail < t.ready.length
  shows : t.world.plug.Shows ranges p k
  id : 0 < t.world.plug.curr.id

variable (nextafter parse sig) in
/-- The call of the next layer. -/
lemma Sess.Offers.call (h : t.Offers gates ranges p k i c vals) {gate : List (HVal K) → Bool}
    (hgate : gates[c]? = some gate) :
    ∃ t', callLayer (gated nextafter parse sig gates) t i = some (0, t') ∧
      t'.Offers gates ranges p k i c vals ∧ t'.world = t.world ∧
      (gate vals = true → t'.flow.status = .accept) ∧
      (gate vals = false → t'.flow.status = .reject ∧ t'.flow.point.id = -1) := by
  obtain ⟨trial, htrial, hvals⟩ := h.trial
  have hlt := (List.getElem?_eq_some_iff.mp htrial).1
  have hstack : (gates.map gateLayer : List (Layer (Exhaustive K W) K W))[t.currLayer.natAbs - 1]? =
      some (gateLayer gate) := by
    have hidx : t.currLayer.natAbs - 1 = c := by
      have := h.layer
      omega
    rw [hidx, List.getElem?_map, hgate]
    rfl
  have hup : ¬ t.currLayer < (0 : ℤ) := by
    have := h.layer
    omega
  have hsame : ∀ (flow : Flow K) (a : Act), (({ t with
      flow := flow
      pending := t.pending.set i { trial with perf := trial.perf } } :
        Sess (Exhaustive K W) K W).log a).Offers gates ranges p k i c vals := by
    intro flow a
    exact {
      layer := h.layer
      below := h.below
      trial := ⟨trial, List.getElem?_set_self hlt, hvals⟩
      passed := h.passed
      tail := h.tail
      shows := h.shows
      id := h.id }
  unfold callLayer
  simp only [gated, hstack, htrial, hup, if_false, gateLayer, hvals]
  cases hyes : gate vals with
  | true =>
    simp only [if_true]
    exact ⟨_, rfl, hsame _ _, rfl, fun _ => rfl, fun hno => absurd hno (by simp)⟩
  | false =>
    simp only [Bool.false_eq_true, if_false]
    exact ⟨_, rfl, hsame _ _, rfl, fun hno => absurd hno (by simp), fun _ => ⟨rfl, rfl⟩⟩

variable (nextafter parse sig) in
/-- A layer that accepts the point hands the trial on. -/
lemma Sess.Offers.accept (h : t.Offers gates ranges p k i c vals) {gate : List (HVal K) → Bool}
    (hgate : gates[c]? = some gate) (hyes : gate vals = true) :
    ∃ t', (∀ fuel, pluginWorkflow (gated nextafter parse sig gates) (fuel + 1) t i =
        pluginWorkflow (gated nextafter parse sig gates) fuel t' i) ∧
      t'.Offers gates ranges p k i (c + 1) vals := by
  obtain ⟨t₁, hcall, h₁, -, hstatus, -⟩ := h.call nextafter parse sig hgate
  have hc := (List.getElem?_eq_some_iff.mp hgate).1
  have hlayer := h.layer
  have hle : t.currLayer ≤ ((gates.map gateLayer : List (Layer (Exhaustive K W) K W)).length : ℤ) := by
    rw [List.length_map]
    omega
  refine ⟨{ t₁ with currLayer := t₁.currLayer + 1 }, fun fuel => pluginWorkflow_round fuel (by omega)
    hle hcall (workflowTransition_accept (hstatus hyes)), ?_⟩
  have hlayer₁ := h₁.layer
  exact {
    layer := by
      show t₁.currLayer + 1 = _
      push_cast
      omega
    below := hc
    trial := h₁.trial
    passed := by
      intro g hg
      rw [List.take_add_one, hgate] at hg
      obtain hold | hnew := List.mem_append.mp hg
      · exact h.passed g hold
      · rw [List.mem_singleton.mp hnew]
        exact hyes
    tail := h₁.tail
    shows := h₁.shows
    id := h₁.id }

variable (nextafter parse sig) in
/-- A layer that rejects the point sends the trial back to the first one with the point that the search
shows. -/
lemma Sess.Offers.reject [IsStrictOrderedRing K] (h : t.Offers gates ranges p k i c vals)
    (hst : ∀ r ∈ ranges, r.Stepped) {gate : List (HVal K) → Bool} (hgate : gates[c]? = some gate)
    (hno : gate vals = false) :
    ∃ t' vals', (∀ fuel, pluginWorkflow (gated nextafter parse sig gates) (fuel + 1) t i =
        pluginWorkflow (gated nextafter parse sig gates) fuel t' i) ∧
      (grid ranges)[k % (grid ranges).length]? = some vals' ∧
      t'.Offers gates ranges p (min (k + 1) (max k (p * spaceSize ranges))) i 0 vals' := by
  obtain ⟨t₁, hcall, h₁, -, -, hstatus⟩ := h.call nextafter parse sig hgate
  obtain ⟨hreject, hhint⟩ := hstatus hno
  have hc := (List.getElem?_eq_some_iff.mp hgate).1
  have hlayer := h.layer
  have hlayer₁ := h₁.layer
  obtain ⟨trial, htrial, -⟩ := h₁.trial
  have hlt := (List.getElem?_eq_some_iff.mp htrial).1
  obtain ⟨w, hrej, hshows, hid⟩ := exRejected_turn nextafter h₁.shows hst h₁.id hhint trial.point
  have hgo : FlowStatus.accept ≠ .wait := by decide
  have htrans := workflowTransition_reject (P := gated nextafter parse sig gates) hreject
    (by omega) htrial hrej hgo
  have hle : t.currLayer ≤ ((gates.map gateLayer : List (Layer (Exhaustive K W) K W)).length : ℤ) := by
    rw [List.length_map]
    omega
  refine ⟨_, t₁.world.plug.curr.val,
    fun fuel => pluginWorkflow_round fuel (by omega) hle hcall htrans, h₁.shows.point, ?_⟩
  exact {
    layer := rfl
    below := gates.length.zero_le
    trial := ⟨_, List.getElem?_set_self hlt, rfl⟩
    passed := fun g hg => absurd hg List.not_mem_nil
    tail := h₁.tail
    shows := hshows
    id := hid }

variable (nextafter parse sig) in
/-- A trial that has passed all layers. -/
lemma Sess.Offers.top (h : t.Offers gates ranges p k i c vals) (hc : gates.length ≤ c) :
    ∃ ret t' trial, pluginWorkflow (gated nextafter parse sig gates) 1 t i = some (ret, t') ∧
      t'.pending[i]? = some trial ∧ Accepted gates trial.point.val := by
  obtain ⟨trial, htrial, rfl⟩ := h.trial
  have hlayer : t.currLayer =
      ((gates.map gateLayer : List (Layer (Exhaustive K W) K W)).length : ℤ) + 1 := by
    have hbelow := h.below
    have hcurr := h.layer
    rw [List.length_map]
    omega
  have hpassed := h.passed
  rw [List.take_of_length_le hc] at hpassed
  obtain ⟨ret, t', hend, hpending, -⟩ := pluginWorkflow_top
    (show pluginWorkflow (gated nextafter parse sig gates) 1 t i =
      pluginWorkflow (gated nextafter parse sig gates) (0 + 1) t i from rfl) hlayer h.tail
  exact ⟨ret, t', trial, hend, by rw [hpending]; exact htrial, hpassed⟩

/-- The point at the position `j` of the passes is one that the layers accept. -/
def AcceptedAt (gates : List (List (HVal K) → Bool)) (ranges : List (HRange K)) (j : ℕ) : Prop :=
  ∃ vals, (grid ranges)[j % (grid ranges).length]? = some vals ∧ Accepted gates vals

variable (nextafter parse sig) in
/-- The workflow ends when an accepted point is fewer than `m` rejections away. -/
theorem Sess.Offers.ends [IsStrictOrderedRing K] (m : ℕ) {t : Sess (Exhaustive K W) K W} {k c : ℕ}
    {vals : List (HVal K)} (h : t.Offers gates ranges p k i c vals) (hst : ∀ r ∈ ranges, r.Stepped)
    (hdue : Accepted gates vals ∨
      ∃ j, k ≤ j ∧ j < k + m ∧ j ≤ max k (p * spaceSize ranges) ∧ AcceptedAt gates ranges j) :
    ∃ fuel ret t' trial, pluginWorkflow (gated nextafter parse sig gates) fuel t i = some (ret, t') ∧
      t'.pending[i]? = some trial ∧ Accepted gates trial.point.val := by
  by_cases hc : c < gates.length
  · have hgate := List.getElem?_eq_getElem hc
    by_cases hyes : gates[c] vals = true
    · obtain ⟨t₁, hround, h₁⟩ := h.accept nextafter parse sig hgate hyes
      obtain ⟨fuel, ret, t', trial, hend, htrial⟩ := h₁.ends m hst hdue
      exact ⟨fuel + 1, ret, t', trial, (hround fuel).trans hend, htrial⟩
    · obtain ⟨j, hkj, hjm, hjp, hj⟩ := hdue.resolve_left fun hall => hyes (hall _ (List.getElem_mem hc))
      obtain ⟨t₁, vals₁, hround, hvals₁, h₁⟩ := h.reject nextafter parse sig hst hgate
        (by simpa using hyes)
      cases m with
      | zero => omega
      | succ m =>
        have hdue₁ : Accepted gates vals₁ ∨ ∃ j, min (k + 1) (max k (p * spaceSize ranges)) ≤ j ∧
            j < min (k + 1) (max k (p * spaceSize ranges)) + m ∧
            j ≤ max (min (k + 1) (max k (p * spaceSize ranges))) (p * spaceSize ranges) ∧
            AcceptedAt gates ranges j := by
          by_cases hnow : j = k
          · obtain ⟨x, hx, hacc⟩ := hj
            rw [hnow, hvals₁] at hx
            rw [Option.some.inj hx]
            exact Or.inl hacc
          · exact Or.inr ⟨j, by omega, by omega, by omega, hj⟩
        obtain ⟨fuel, ret, t', trial, hend, htrial⟩ := h₁.ends m hst hdue₁
        exact ⟨fuel + 1, ret, t', trial, (hround fuel).trans hend, htrial⟩
  · obtain ⟨ret, t', trial, hend⟩ := h.top nextafter parse sig (not_lt.mp hc)
    exact ⟨1, ret, t', trial, hend⟩
termination_by (m, gates.length - c)

variable (nextafter parse sig) in
/-- The workflow never ends when no accepted point is left. -/
theorem Sess.Offers.stuck [IsStrictOrderedRing K] (h : t.Offers gates ranges p k i c vals)
    (hst : ∀ r ∈ ranges, r.Stepped) (hno : ¬ Accepted gates vals)
    (hnone : ∀ j, k ≤ j → j ≤ max k (p * spaceSize ranges) → ¬ AcceptedAt gates ranges j) (fuel : ℕ) :
    pluginWorkflow (gated nextafter parse sig gates) fuel t i = none := by
  induction fuel generalizing t k c vals with
  | zero => rfl
  | succ fuel ih =>
    have hc : c < gates.length := by
      by_contra hend
      have hpassed := h.passed
      rw [List.take_of_length_le (not_lt.mp hend)] at hpassed
      exact hno hpassed
    have hgate := List.getElem?_eq_getElem hc
    by_cases hyes : gates[c] vals = true
    · obtain ⟨t₁, hround, h₁⟩ := h.accept nextafter parse sig hgate hyes
      rw [hround]
      exact ih h₁ hno hnone
    · obtain ⟨t₁, vals₁, hround, hvals₁, h₁⟩ := h.reject nextafter parse sig hst hgate
        (by simpa using hyes)
      rw [hround]
      apply ih h₁
      · intro hacc
        exact hnone k le_rfl (le_max_left _ _) ⟨vals₁, hvals₁, hacc⟩
      · intro j hkj hjp
        exact hnone j (by omega) (by omega)

variable (nextafter parse sig gates t) in
/-- The workflow that `generate_trial` begins ends: the strategy waits, or the layers accept the point. -/
def Settles : Prop :=
  ∃ fuel ret t', generateTrial (gated nextafter parse sig gates) fuel t = some (ret, t') ∧
    (t'.flow.status = .wait ∨
      ∃ trial, t'.pending[t.pending.findIdx fun trial => trial.point.id = -1]? = some trial ∧
        Accepted gates trial.point.val)

variable (nextafter parse gates) in
/-- What `strategy_generate` gives to the first layer. -/
lemma generateTrial_offers [IsStrictOrderedRing K] (hturn : t.world.plug.Turning sig.range)
    (hst : ∀ r ∈ sig.range, r.Stepped) (htail : t.readyTail < t.ready.length)
    (hfree : ∃ trial ∈ t.pending, trial.point.id = -1)
    (hk : Odometer.value (sizes sig.range) t.world.plug.idx +
      spaceSize sig.range * (-t.world.plug.remainingPasses).toNat = k)
    (hp : t.world.plug.remainingPasses.toNat = p) :
    ∃ t', (∀ fuel, generateTrial (gated nextafter parse sig gates) fuel t =
        pluginWorkflow (gated nextafter parse sig gates) fuel t'
          (t.pending.findIdx fun trial => trial.point.id = -1)) ∧
      t'.Offers gates sig.range p (min (k + 1) (max k (p * spaceSize sig.range)))
        (t.pending.findIdx fun trial => trial.point.id = -1) 0
        (if 0 < t.world.plug.remainingPasses then t.world.plug.curr
          else hpointCopy t.world.plug.best).val := by
  have hlt : (t.pending.findIdx fun trial => trial.point.id = -1) < t.pending.length := by
    obtain ⟨trial, hmem, hid⟩ := hfree
    exact List.findIdx_lt_length_of_exists ⟨trial, hmem, by simpa using hid⟩
  obtain ⟨trial, htrial⟩ : ∃ trial,
      t.pending[t.pending.findIdx fun trial => trial.point.id = -1]? = some trial :=
    ⟨_, List.getElem?_eq_getElem hlt⟩
  have hshows := hturn.shows
  rw [hk, hp] at hshows
  obtain ⟨w, hgen, hshows', hid⟩ := exGenerate_turn nextafter hshows hst hturn.id t.flow
    trial.point
  obtain ⟨t₁, hstart, hworld, -, -, -, hready, htail', hpending⟩ :=
    generateTrial_started (P := gated nextafter parse sig gates) rfl htrial hgen
  refine ⟨{ t₁ with pendingLen := t₁.pendingLen + 1, currLayer := 1 }, ?_, ?_⟩
  · intro fuel
    have hgo : FlowStatus.accept ≠ .wait := by decide
    rw [hstart, if_neg (not_not.mpr rfl), if_neg hgo]
  · exact {
      layer := rfl
      below := gates.length.zero_le
      trial := ⟨_, by
        show t₁.pending[_]? = _
        rw [hpending]
        exact List.getElem?_set_self hlt, rfl⟩
      passed := fun g hg => absurd hg List.not_mem_nil
      tail := by
        show t₁.readyTail < t₁.ready.length
        rw [hready, htail']
        exact htail
      shows := by
        show t₁.world.plug.Shows _ _ _
        rw [hworld]
        exact hshows'
      id := by
        show 0 < t₁.world.plug.curr.id
        rw [hworld]
        exact hid }

/-- An accepted point is left: two passes are, or one, with an accepted point from the current one on or in
the first place; or, without passes, the best point or the current one is accepted. -/
def Exhaustive.Passable (gates : List (List (HVal K) → Bool)) (s : Exhaustive K W) : Prop :=
  2 ≤ s.remainingPasses ∨
    s.remainingPasses = 1 ∧ (∃ vals ∈ (grid s.range).drop (Odometer.value (sizes s.range) s.idx) ++
      (grid s.range).take 1, Accepted gates vals) ∨
    s.remainingPasses ≤ 0 ∧ (Accepted gates (hpointCopy s.best).val ∨ Accepted gates s.curr.val)

instance (gates : List (List (HVal K) → Bool)) (s : Exhaustive K W) : Decidable (s.Passable gates) :=
  inferInstanceAs (Decidable (_ ∨ _ ∧ (∃ vals ∈ _, Accepted gates vals) ∨ _ ∧ (_ ∨ _)))

omit [Add W] [Zero W] [LT W] [DecidableLT W] [Top W] in
/-- The points that a workflow can come to. -/
lemma Exhaustive.Turning.passable_iff (h : s.Turning sig.range)
    (hvalid : ∃ vals ∈ grid sig.range, Accepted gates vals)
    (hk : Odometer.value (sizes sig.range) s.idx + spaceSize sig.range * (-s.remainingPasses).toNat = k)
    (hp : s.remainingPasses.toNat = p) :
    s.Passable gates ↔
      Accepted gates (if 0 < s.remainingPasses then s.curr else hpointCopy s.best).val ∨
        ∃ j, min (k + 1) (max k (p * spaceSize sig.range)) ≤ j ∧ j ≤ max k (p * spaceSize sig.range) ∧
          AcceptedAt gates sig.range j := by
  have hlt : Odometer.value (sizes sig.range) s.idx < spaceSize sig.range := Odometer.value_lt h.within
  have hS := length_grid sig.range
  have hshows := h.shows
  rw [hk, hp] at hshows
  have hpoint := hshows.point
  rw [hS] at hpoint
  unfold Exhaustive.Passable AcceptedAt
  rw [h.range, hS]
  obtain htwo | hone | hzero : 2 ≤ s.remainingPasses ∨ s.remainingPasses = 1 ∨ s.remainingPasses ≤ 0 := by
    omega
  · -- the next pass comes to every point
    obtain ⟨vals, hmem, hacc⟩ := hvalid
    obtain ⟨q, hq, rfl⟩ := List.mem_iff_getElem.mp hmem
    have hk' : Odometer.value (sizes sig.range) s.idx = k := by
      rw [← hk, Int.toNat_eq_zero.mpr (by omega), Nat.mul_zero, Nat.add_zero]
    have hpass : 2 * spaceSize sig.range ≤ p * spaceSize sig.range := by
      apply Nat.mul_le_mul_right
      omega
    apply iff_of_true (Or.inl htwo)
    right
    refine ⟨spaceSize sig.range + q, by omega, by omega, _, ?_, hacc⟩
    rw [Nat.add_mod_left, Nat.mod_eq_of_lt (by omega), List.getElem?_eq_getElem hq]
  · -- the rest of the pass, and then the first point again
    have hk' : Odometer.value (sizes sig.range) s.idx = k := by
      rw [← hk, hone]
      rfl
    obtain rfl : 1 = p := by rw [← hp, hone]; rfl
    rw [hk'] at hlt ⊢
    rw [Nat.mod_eq_of_lt hlt] at hpoint
    rw [if_pos (by omega), Nat.one_mul, min_eq_left (by omega), max_eq_right hlt.le]
    constructor
    · intro hpass
      obtain hbad | ⟨-, vals, hmem, hacc⟩ | hbad := hpass
      · omega
      · obtain hrest | hfirst := List.mem_append.mp hmem
        · obtain ⟨d, hd⟩ := List.mem_iff_getElem?.mp hrest
          rw [List.getElem?_drop] at hd
          have hin := (List.getElem?_eq_some_iff.mp hd).1
          by_cases hnow : d = 0
          · rw [hnow, Nat.add_zero, hpoint] at hd
            rw [Option.some.inj hd]
            exact Or.inl hacc
          · refine Or.inr ⟨k + d, by omega, by omega, vals, ?_, hacc⟩
            rw [Nat.mod_eq_of_lt (by omega), hd]
        · obtain ⟨d, hd⟩ := List.mem_iff_getElem?.mp hfirst
          rw [List.getElem?_take] at hd
          split_ifs at hd with hd₁
          obtain rfl : d = 0 := by omega
          refine Or.inr ⟨spaceSize sig.range, by omega, le_rfl, vals, ?_, hacc⟩
          rw [Nat.mod_self, hd]
      · omega
    · intro hleft
      refine Or.inr (Or.inl ⟨hone, ?_⟩)
      obtain hacc | ⟨j, hkj, hjS, vals, hvals, hacc⟩ := hleft
      · refine ⟨s.curr.val, List.mem_append_left _ (List.mem_iff_getElem?.mpr ⟨0, ?_⟩), hacc⟩
        rw [List.getElem?_drop, Nat.add_zero, hpoint]
      · by_cases hend : j = spaceSize sig.range
        · rw [hend, Nat.mod_self] at hvals
          refine ⟨vals, List.mem_append_right _ (List.mem_iff_getElem?.mpr ⟨0, ?_⟩), hacc⟩
          rw [List.getElem?_take, if_pos Nat.one_pos, hvals]
        · rw [Nat.mod_eq_of_lt (by omega)] at hvals
          refine ⟨vals, List.mem_append_left _ (List.mem_iff_getElem?.mpr ⟨j - k, ?_⟩), hacc⟩
          rw [List.getElem?_drop, Nat.add_sub_cancel' (by omega), hvals]
  · -- the search stays at the current point
    obtain rfl : 0 = p := by rw [← hp, Int.toNat_eq_zero.mpr hzero]
    rw [if_neg (by omega), Nat.zero_mul, max_eq_left k.zero_le, min_eq_right (by omega)]
    constructor
    · intro hpass
      obtain hbad | ⟨hbad, -⟩ | ⟨-, hacc⟩ := hpass
      · omega
      · omega
      · exact hacc.imp_right fun hacc => ⟨k, le_rfl, le_rfl, _, hpoint, hacc⟩
    · intro hleft
      refine Or.inr (Or.inr ⟨hzero, hleft.imp_right ?_⟩)
      intro ⟨j, hkj, hjk, vals, hvals, hacc⟩
      obtain rfl : k = j := by omega
      rw [hpoint] at hvals
      rw [Option.some.inj hvals]
      exact hacc

/-- Where the search stands at a point of the grid, the workflow ends exactly when an accepted point is
left. -/
lemma Exhaustive.Turning.settles_iff [IsStrictOrderedRing K] (h : t.world.plug.Turning sig.range)
    (hst : ∀ r ∈ sig.range, r.Stepped) (hvalid : ∃ vals ∈ grid sig.range, Accepted gates vals)
    (htail : t.readyTail < t.ready.length) (hfree : ∃ trial ∈ t.pending, trial.point.id = -1) :
    Settles nextafter parse sig gates t ↔ t.world.plug.Passable gates := by
  obtain ⟨t₁, hstart, hoffers⟩ := generateTrial_offers nextafter parse gates h hst htail hfree rfl rfl
  rw [h.passable_iff hvalid rfl rfl]
  generalize hk : Odometer.value (sizes sig.range) t.world.plug.idx +
    spaceSize sig.range * (-t.world.plug.remainingPasses).toNat = k at hoffers ⊢
  generalize hp : t.world.plug.remainingPasses.toNat = p at hoffers ⊢
  unfold Settles
  simp only [hstart]
  constructor
  · intro ⟨fuel, ret, t', hend, _⟩
    by_contra hleft
    rw [not_or] at hleft
    have hstuck := hoffers.stuck nextafter parse sig hst hleft.1
      (fun j hkj hjp hacc => hleft.2 ⟨j, hkj, by omega, hacc⟩) fuel
    rw [hstuck] at hend
    cases hend
  · intro hleft
    obtain ⟨fuel, ret, t', trial, hend, hslot, hacc⟩ := hoffers.ends nextafter parse sig
      (p * spaceSize sig.range + k + 2) hst
      (hleft.imp_right fun ⟨j, hkj, hjp, hacc⟩ => ⟨j, hkj, by omega, by omega, hacc⟩)
    exact ⟨fuel, ret, t', hend, Or.inr ⟨trial, hslot, hacc⟩⟩

/-- In every state of a session, the workflow of a new trial comes to a point that the layers accept exactly
when one is left. -/
theorem exhaustive_rejections_end_iff [IsStrictOrderedRing K] {w₀ w₁ : World (Exhaustive K W)}
    {s₀ : Sess (Exhaustive K W) K W} {es : List (Event W)} {fuel : ℕ}
    (hst : ∀ r ∈ sig.range, r.Stepped) (hvalid : ∃ vals ∈ grid sig.range, Accepted gates vals)
    (hloaded : w₀.plug = Exhaustive.loaded)
    (hinit : exInit (initPoint parse sig.range) sig w₀ = (0, w₁))
    (hstart : s₀.Initial) (hworld : s₀.world = w₁)
    (hrun : sessRun (gated nextafter parse sig gates) fuel s₀ es = some t)
    (hfree : ∃ trial ∈ t.pending, trial.point.id = -1) :
    Settles nextafter parse sig gates t ↔ t.world.plug.Passable gates := by
  have hturning : s₀.world.plug.Turning sig.range := by
    have hplaced := exInit_turning parse (w := w₀) hst
      (by unfold Exhaustive.once; rw [hloaded]; exact one_pos) (Or.inl (congrArg Prod.fst hinit))
    rw [hinit] at hplaced
    rw [hworld]
    exact hplaced
  have hreach := (Reachable.init hstart).run hrun
  exact ((gated_keeps nextafter parse gates hst).run hturning hrun).settles_iff hst hvalid
    hreach.tail_lt hfree

end

/-! ### Three points -/

/-- One INT variable with the values 0, 1 and 2. -/
def threePoints : HSignature ℚ where
  name := none
  range := [{ name := none, bounds := .int 0 2 1 }]

/-- The session after `strategy_init`, with 2 slots. -/
def threeStart : Sess (Exhaustive ℚ (WithTop ℕ)) ℚ (WithTop ℕ) :=
  Sess.start (exInit (initPoint (fun _ => none) threePoints.range) threePoints freshWorld).2 2

lemma threePoints_stepped : ∀ r ∈ threePoints.range, r.Stepped := by
  intro r hr
  rw [List.mem_singleton.mp hr]
  exact ⟨by decide, by decide⟩

lemma threeStart_init : exInit (initPoint (fun _ => none) threePoints.range) threePoints freshWorld =
    (0, threeStart.world) := Prod.ext (by decide +kernel) rfl

/-- Without the point 1, the workflow of the second trial goes on to the last point. -/
theorem exhaustive_rejections_end_three_points : ∃ t : Sess (Exhaustive ℚ (WithTop ℕ)) ℚ (WithTop ℕ),
    sessRun (gated id (fun _ => none) threePoints [fun vals => vals ≠ [.int 1]]) 5 threeStart [.generate]
      = some t ∧ Settles id (fun _ => none) threePoints [fun vals => vals ≠ [.int 1]] t := by
  have hview : (sessRun (gated id (fun _ => none) threePoints [fun vals => vals ≠ [.int 1]]) 5 threeStart
      [.generate]).map (fun t => decide (t.world.plug.Passable [fun vals => vals ≠ [.int 1]]) &&
        t.pending.any fun trial => trial.point.id = -1) = some true := by decide +kernel
  obtain ⟨t, hrun, hview⟩ := Option.map_eq_some_iff.mp hview
  simp only [Bool.and_eq_true, decide_eq_true_eq, List.any_eq_true] at hview
  exact ⟨t, hrun, (exhaustive_rejections_end_iff threePoints_stepped (by decide +kernel) rfl threeStart_init
    (Sess.start_initial _ (by decide)) rfl hrun hview.2).mpr hview.1⟩

/-- If only the point 1 is accepted, the second trial never leaves the layer. -/
theorem only_middle_of_three_points : ¬ ∀ (sig : HSignature ℚ) (gates : List (List (HVal ℚ) → Bool))
    (w₀ w₁ : World (Exhaustive ℚ (WithTop ℕ))) (s₀ t : Sess (Exhaustive ℚ (WithTop ℕ)) ℚ (WithTop ℕ))
    (es : List (Event (WithTop ℕ))) (fuel : ℕ),
    (∀ r ∈ sig.range, r.Stepped) → (∃ vals ∈ grid sig.range, Accepted gates vals) →
    w₀.plug = Exhaustive.loaded → exInit (initPoint (fun _ => none) sig.range) sig w₀ = (0, w₁) →
    s₀.Initial → s₀.world = w₁ → sessRun (gated id (fun _ => none) sig gates) fuel s₀ es = some t →
    (∃ trial ∈ t.pending, trial.point.id = -1) → Settles id (fun _ => none) sig gates t := by
  intro hclaim
  have hview : (sessRun (gated id (fun _ => none) threePoints [fun vals => vals = [.int 1]]) 5 threeStart
      [.generate]).map (fun t => !decide (t.world.plug.Passable [fun vals => vals = [.int 1]]) &&
        t.pending.any fun trial => trial.point.id = -1) = some true := by decide +kernel
  obtain ⟨t, hrun, hview⟩ := Option.map_eq_some_iff.mp hview
  simp only [Bool.and_eq_true, Bool.not_eq_true', decide_eq_false_iff_not, decide_eq_true_eq,
    List.any_eq_true] at hview
  have hsettles := hclaim threePoints [fun vals => vals = [.int 1]] freshWorld threeStart.world threeStart t
    [.generate] 5 threePoints_stepped (by decide +kernel) rfl threeStart_init
    (Sess.start_initial _ (by decide)) rfl hrun hview.2
  have hplaced := exInit_turning (fun _ => none) (w := freshWorld) threePoints_stepped
    (by decide +kernel) (Or.inl (congrArg Prod.fst threeStart_init))
  rw [threeStart_init] at hplaced
  have hturning := (gated_keeps id (fun _ => none) _ threePoints_stepped).run hplaced hrun
  have hreach := (Reachable.init (Sess.start_initial _ (by decide))).run hrun
  exact hview.1 ((hturning.settles_iff threePoints_stepped (by decide +kernel) hreach.tail_lt hview.2).mp
    hsettles)

end ActiveHarmony

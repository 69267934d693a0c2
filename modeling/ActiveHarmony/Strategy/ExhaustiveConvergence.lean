import ActiveHarmony.Config.Refinement
import ActiveHarmony.Lib.Odometer
import ActiveHarmony.Strategy.Exhaustive
import Mathlib.Algebra.Order.BigOperators.GroupWithZero.List
import Mathlib.Algebra.Order.Floor.Semiring
import Mathlib.Data.Rat.Floor

/-!
# When exhaustive search converges

`increment` is an odometer whose wheels are the variables. It announces the id of the last point
one too low: the point before the last one ends the search, whatever is still outstanding.
`exhaustive_converged` says for which orders of reports this does no harm.
-/

namespace ActiveHarmony

/-! ## What `strategy_analyze` changes -/

section Analyze

variable {K W : Type}

lemma exConverge_plug (world : World (Exhaustive K W)) :
    (exConverge world).2.plug = world.plug := by
  unfold exConverge
  have hplug := sessionSetcfg_plug world cfgkeyStrategyConverged (cstr "1")
  simp only
  split_ifs <;> exact hplug

lemma exCount_spec (s : Exhaustive K W) (id : ℤ) :
    ∃ points received, exCount s id
        = { s with outstandingPoints := points, finalPointReceived := received } ∧
      (received = true → id = s.finalId ∨ s.finalPointReceived = true) := by
  refine ⟨if s.finalId = 0 ∨ id ≤ s.finalId then s.outstandingPoints - 1 else s.outstandingPoints,
    if id = s.finalId then true else s.finalPointReceived, ?_, ?_⟩
  · unfold exCount
    by_cases hcount : s.finalId = 0 ∨ id ≤ s.finalId
    · simp only [if_pos hcount]
      split_ifs <;> rfl
    · simp only [if_neg hcount]
      split_ifs <;> rfl
  · split_ifs with hfinal
    · exact fun _ => Or.inl hfinal
    · exact Or.inr

variable [Add W] [Zero W] [LT W] [DecidableLT W]

lemma exRecord_spec (s : Exhaustive K W) (trial : HTrial K W) :
    ∃ best perf, exRecord s trial = { s with best := best, bestPerf := perf } ∧
      (best = s.best ∨ best = hpointCopy trial.point) := by
  unfold exRecord
  simp only
  split_ifs
  · exact ⟨_, _, rfl, Or.inr rfl⟩
  · exact ⟨_, _, rfl, Or.inl rfl⟩

/-- What `strategy_analyze` changes: it announces the end only at the final point or after it. -/
lemma exAnalyze_spec (world : World (Exhaustive K W)) (trial : HTrial K W) :
    (∃ best perf points received,
      (exAnalyze world trial).2.plug = { world.plug with
        best := best, bestPerf := perf, outstandingPoints := points,
        finalPointReceived := received } ∧
      (best = world.plug.best ∨ best = hpointCopy trial.point) ∧
      (received = true → trial.point.id = world.plug.finalId ∨
        world.plug.finalPointReceived = true)) ∧
    ((exAnalyze world trial).2.cfg = world.cfg ∨ trial.point.id = world.plug.finalId ∨
      world.plug.finalPointReceived = true) := by
  rcases exRecord_spec world.plug trial with ⟨best, perf, hrecord, hbest⟩
  rcases exCount_spec { world.plug with best := best, bestPerf := perf } trial.point.id
    with ⟨points, received, hcount, hreceived⟩
  unfold exAnalyze
  simp only [hrecord, hcount]
  by_cases hfinal : trial.point.id = world.plug.finalId
  · -- the final point: the end may be announced
    refine ⟨?_, Or.inr (Or.inl hfinal)⟩
    simp only [if_pos hfinal]
    split_ifs
    · exact ⟨best, perf, _, _, exConverge_plug _, hbest, Or.inr⟩
    · exact ⟨best, perf, points, received, exConverge_plug _, hbest, hreceived⟩
    · exact ⟨best, perf, points, received, rfl, hbest, hreceived⟩
  · simp only [if_neg hfinal, ne_eq, not_true_eq_false, if_false]
    split_ifs with hend
    · refine ⟨⟨best, perf, points, received, exConverge_plug _, hbest, hreceived⟩, ?_⟩
      exact Or.inr (hreceived hend.2)
    · exact ⟨⟨best, perf, points, received, rfl, hbest, hreceived⟩, Or.inl rfl⟩

end Analyze

variable {K W : Type} [Field K] [LinearOrder K] [FloorSemiring K]

/-! ## Finite search spaces -/

/-- The number of values of a variable. -/
def HRange.size (range : HRange K) : ℕ :=
  match range.bounds with
  | .int min max step => ((max - min) / step).toNat + 1
  | .real min max step => ⌊(max - min) / step⌋₊ + 1
  | .str set => set.length
  | .unknown => 0

/-- The value of a variable at an index. -/
def HRange.value (range : HRange K) (i : ℕ) : HVal K :=
  match range.bounds with
  | .int min _ step => .int (min + i * step)
  | .real min _ step => .real (min + i * step)
  | .str set => .str set[i]?
  | .unknown => .unknown

/-- A variable with finitely many values, in bounds whose successors are `int`s. -/
def HRange.Finite (range : HRange K) : Prop :=
  match range.bounds with
  | .int min max step => 0 < step ∧ min ≤ max ∧ -2 ^ 31 ≤ min ∧ max + step < 2 ^ 31
  | .real min max step => 0 < step ∧ min ≤ max
  | .str set => set ≠ []
  | .unknown => False

/-- A variable with finitely many values. -/
def HRange.Stepped (range : HRange K) : Prop :=
  match range.bounds with
  | .int min max step => 0 < step ∧ min ≤ max
  | .real min max step => 0 < step ∧ min ≤ max
  | .str set => set ≠ []
  | .unknown => False

def HRange.IsReal (range : HRange K) : Prop :=
  match range.bounds with
  | .real .. => True
  | _ => False

variable {range : HRange K} {ranges : List (HRange K)} {i : ℕ} (nextafter : K → K)

omit [FloorSemiring K] in
lemma HRange.Finite.stepped (h : range.Finite) : range.Stepped := by
  unfold HRange.Finite at h
  unfold HRange.Stepped
  cases hb : range.bounds with
  | unknown => rw [hb] at h; exact h.elim
  | int min max step => rw [hb] at h; exact ⟨h.1, h.2.1⟩
  | real min max step => rw [hb] at h; exact h
  | str set => rw [hb] at h; exact h

lemma HRange.Stepped.size_pos (h : range.Stepped) : 0 < range.size := by
  unfold HRange.Stepped at h
  unfold HRange.size
  cases hb : range.bounds with
  | unknown => rw [hb] at h; exact h.elim
  | int min max step => exact Nat.succ_pos _
  | real min max step => exact Nat.succ_pos _
  | str set => rw [hb] at h; exact List.length_pos_of_ne_nil h

lemma int_in_range {min max step : ℤ} (hstep : 0 < step) (hle : min ≤ max) (j : ℕ) :
    min + j * step ≤ max ↔ j < ((max - min) / step).toNat + 1 := by
  have hdiv : (j : ℤ) ≤ (max - min) / step ↔ (j : ℤ) * step ≤ max - min :=
    Int.le_ediv_iff_mul_le hstep
  have hpos : 0 ≤ (max - min) / step := Int.ediv_nonneg (by omega) (le_of_lt hstep)
  have hcast : ((((max - min) / step).toNat : ℕ) : ℤ) = (max - min) / step := Int.toNat_of_nonneg hpos
  constructor
  · intro h
    have := hdiv.mpr (by omega)
    omega
  · intro h
    have := hdiv.mp (by omega)
    omega

lemma real_in_range [IsStrictOrderedRing K] {min max step : K} (hstep : 0 < step) (hle : min ≤ max) (j : ℕ) :
    min + j * step ≤ max ↔ j < ⌊(max - min) / step⌋₊ + 1 := by
  have hpos : 0 ≤ (max - min) / step := div_nonneg (sub_nonneg.mpr hle) (le_of_lt hstep)
  rw [Nat.lt_succ_iff, Nat.le_floor_iff hpos, le_div_iff₀ hstep]
  exact le_sub_iff_add_le'.symm

/-- One wheel of the odometer. -/
lemma wheel_value [IsStrictOrderedRing K] (h : range.Stepped) (i : ℕ) :
    wheel nextafter range (range.value i) i
      = some (if i + 1 < range.size then (false, range.value (i + 1), i + 1)
        else (true, range.value 0, 0)) := by
  unfold HRange.Stepped at h
  unfold HRange.size
  unfold wheel HRange.value
  cases hb : range.bounds with
  | unknown => rw [hb] at h; exact h.elim
  | int min max step =>
    rw [hb] at h
    simp only at h ⊢
    have hnext := int_in_range h.1 h.2 (i + 1)
    have hval : min + (i : ℤ) * step + step = min + ((i + 1 : ℕ) : ℤ) * step := by
      push_cast
      ring
    rw [hval]
    by_cases hroom : i + 1 < ((max - min) / step).toNat + 1
    · rw [if_pos hroom, if_neg (not_lt.mpr (hnext.mpr hroom))]
    · rw [if_neg hroom, if_pos (not_le.mp fun hle => hroom (hnext.mp hle))]
      simp
  | real min max step =>
    rw [hb] at h
    simp only at h ⊢
    have hnext := real_in_range h.1 h.2 (i + 1)
    rw [if_pos h.1]
    by_cases hroom : i + 1 < ⌊(max - min) / step⌋₊ + 1
    · rw [if_pos hroom, if_neg (not_lt.mpr (hnext.mpr hroom))]
    · rw [if_neg hroom, if_pos (not_le.mp fun hle => hroom (hnext.mp hle))]
      simp
  | str set =>
    simp only
    by_cases hroom : i + 1 < set.length
    · rw [if_pos hroom, if_neg (not_le.mpr hroom)]
    · rw [if_neg hroom, if_pos (not_lt.mp hroom)]

/-- The look-ahead sees the end of an INT or STR variable, and never that of a REAL one. -/
lemma overflowsNext_value [IsStrictOrderedRing K] (h : range.Finite) (hi : i < range.size) :
    ∃ b, overflowsNext nextafter range (range.value i) i = some b ∧
      (b = true ↔ i + 1 = range.size ∧ ¬ range.IsReal) := by
  unfold HRange.Finite at h
  unfold HRange.size at hi ⊢
  unfold overflowsNext HRange.value HRange.IsReal
  cases hb : range.bounds with
  | unknown => rw [hb] at h; exact h.elim
  | int min max step =>
    rw [hb] at h hi
    simp only at h hi ⊢
    have hhere := (int_in_range h.1 h.2.1 i).mpr hi
    have hnext := int_in_range h.1 h.2.1 (i + 1)
    have hval : min + (i : ℤ) * step + step = min + ((i + 1 : ℕ) : ℤ) * step := by
      push_cast
      ring
    have hlow : 0 ≤ (i : ℤ) * step := mul_nonneg (Int.natCast_nonneg i) (le_of_lt h.1)
    have hint : intOfLong (min + (i : ℤ) * step + step) = min + (i : ℤ) * step + step := by
      unfold intOfLong
      rw [Int.emod_eq_of_lt (by omega) (by omega)]
      omega
    refine ⟨_, rfl, ?_⟩
    rw [hint, hval, decide_eq_true_iff]
    constructor
    · intro hgt
      refine ⟨?_, id⟩
      by_contra hne
      exact absurd (hnext.mpr (by omega)) (not_le.mpr hgt)
    · intro hlast
      exact not_le.mp fun hle => by have := hnext.mp hle; omega
  | real min max step =>
    rw [hb] at h hi
    simp only at h hi ⊢
    have hhere := (real_in_range h.1 h.2 i).mpr hi
    rw [if_pos h.1]
    refine ⟨_, rfl, ?_⟩
    rw [decide_eq_true_iff]
    exact ⟨fun hgt => absurd hhere (not_le.mpr hgt), fun hlast => absurd trivial hlast.2⟩
  | str set =>
    rw [hb] at hi
    simp only at hi ⊢
    refine ⟨_, rfl, ?_⟩
    rw [decide_eq_true_iff]
    exact ⟨fun hge => ⟨by omega, id⟩, fun hlast => by omega⟩

/-! ## The odometer of the variables -/

/-- The numbers of values of the variables. -/
abbrev sizes (ranges : List (HRange K)) : List ℕ := ranges.map HRange.size

/-- The point at the indices `idx`. -/
abbrev pointAt (ranges : List (HRange K)) (idx : List ℕ) : List (HVal K) :=
  List.zipWith HRange.value ranges idx

variable {idx : List ℕ}

/-- The loop of `increment` turns the odometer. -/
theorem turn_pointAt [IsStrictOrderedRing K] (hfin : ∀ r ∈ ranges, r.Stepped)
    (h : Odometer.Within idx (sizes ranges)) :
    turn nextafter ranges (pointAt ranges idx) idx
      = some ((Odometer.next (sizes ranges) idx).2,
        pointAt ranges (Odometer.next (sizes ranges) idx).1,
        (Odometer.next (sizes ranges) idx).1) := by
  induction ranges generalizing idx with
  | nil =>
    cases h
    rfl
  | cons range ranges ih =>
    cases h with
    | @cons i _ idx _ hi htail =>
      have hrange := hfin range List.mem_cons_self
      have hrest := ih (fun r hr => hfin r (List.mem_cons_of_mem range hr)) htail
      show turn nextafter (range :: ranges) (range.value i :: pointAt ranges idx) (i :: idx)
        = some ((Odometer.next (range.size :: sizes ranges) (i :: idx)).2,
          pointAt (range :: ranges) (Odometer.next (range.size :: sizes ranges) (i :: idx)).1,
          (Odometer.next (range.size :: sizes ranges) (i :: idx)).1)
      rw [turn, wheel_value nextafter hrange i, Odometer.next]
      by_cases hroom : i + 1 < range.size
      · rw [if_pos hroom, if_pos hroom]
        rfl
      · rw [if_neg hroom, if_neg hroom]
        simp only [Option.bind_eq_bind, Option.bind_some, if_true]
        rw [hrest]
        rfl

/-- The look-ahead counts all variables exactly at the last point of a space without REAL
variables. -/
theorem countOverflows_pointAt [IsStrictOrderedRing K] (hfin : ∀ r ∈ ranges, r.Finite)
    (h : Odometer.Within idx (sizes ranges)) :
    ∃ n, countOverflows nextafter ranges (pointAt ranges idx) idx = some n ∧ n ≤ ranges.length ∧
      (ranges.length ≤ n ↔ List.Forall₂ (fun d s => d + 1 = s) idx (sizes ranges) ∧
        ∀ r ∈ ranges, ¬ r.IsReal) := by
  induction ranges generalizing idx with
  | nil =>
    cases h
    exact ⟨0, rfl, le_refl _, by simp⟩
  | cons range ranges ih =>
    cases h with
    | @cons i _ idx _ hi htail =>
      have hrange := hfin range List.mem_cons_self
      rcases ih (fun r hr => hfin r (List.mem_cons_of_mem range hr)) htail with ⟨n, hn, hle, hiff⟩
      rcases overflowsNext_value nextafter hrange hi with ⟨b, hb, hbiff⟩
      have hcount : countOverflows nextafter (range :: ranges) (pointAt (range :: ranges) (i :: idx))
          (i :: idx) = some (if b then n + 1 else n) := by
        show countOverflows nextafter (range :: ranges) (range.value i :: pointAt ranges idx)
          (i :: idx) = _
        rw [countOverflows, hb, hn]
        rfl
      refine ⟨_, hcount, ?_, ?_⟩
      · rw [List.length_cons]
        split_ifs <;> omega
      · show ((range :: ranges).length ≤ _ ↔
          List.Forall₂ _ (i :: idx) (range.size :: sizes ranges) ∧ _)
        rw [List.forall₂_cons, List.length_cons, List.forall_mem_cons]
        cases b with
        | false =>
          have hno : ¬ (i + 1 = range.size ∧ ¬ range.IsReal) := fun hlast => by
            have := hbiff.mpr hlast
            cases this
          simp only [Bool.false_eq_true, if_false]
          constructor
          · intro hlen
            omega
          · intro hall
            exact absurd ⟨hall.1.1, hall.2.1⟩ hno
        | true =>
          have hyes := hbiff.mp rfl
          simp only [if_true, Nat.add_le_add_iff_right, hiff]
          exact ⟨fun hall => ⟨⟨hyes.1, hall.1⟩, hyes.2, hall.2⟩,
            fun hall => ⟨hall.1.2, hall.2.2⟩⟩

/-! ## The progress of a search -/

/-- The number of points of the space. -/
abbrev spaceSize (ranges : List (HRange K)) : ℕ := (sizes ranges).prod

/-- `final_id` is set once all `p` passes have been generated, and one point earlier if no variable
is REAL and the space has two points or more. -/
def Foretold (ranges : List (HRange K)) (p k : ℕ) : Prop :=
  p * spaceSize ranges ≤ k ∨
    (p * spaceSize ranges = k + 1 ∧ 2 ≤ spaceSize ranges ∧ ∀ r ∈ ranges, ¬ r.IsReal)

/-- The search has generated `k` points of `p` passes. -/
structure Progress (ranges : List (HRange K)) (p k : ℕ) (s : Exhaustive K W) : Prop where
  range : s.range = ranges
  within : Odometer.Within s.idx (sizes ranges)
  vals : s.curr.val = pointAt ranges s.idx
  pos : Odometer.value (sizes ranges) s.idx = k % spaceSize ranges
  id : s.curr.id = k + 1
  passes : s.remainingPasses = p - (k / spaceSize ranges : ℕ)
  final : Foretold ranges p k → s.finalId = (p * spaceSize ranges : ℕ) - 1
  unset : ¬ Foretold ranges p k → s.finalId = 0

variable {p k : ℕ} {s : Exhaustive K W}

lemma spaceSize_pos (hfin : ∀ r ∈ ranges, r.Stepped) : 0 < spaceSize ranges := by
  refine List.prod_pos fun n hn => ?_
  rcases List.mem_map.mp hn with ⟨r, hr, rfl⟩
  exact (hfin r hr).size_pos

/-- The passes that follow the pass of point `k`. -/
lemma passes_left {S : ℕ} (hk : k < p * S) :
    ∃ q, p = k / S + 1 + q ∧ p * S = S * (k / S) + S + S * q ∧ (q ≠ 0 → S ≤ S * q) := by
  have hpass : k / S < p := Nat.div_lt_of_lt_mul (by rwa [Nat.mul_comm])
  rcases Nat.exists_eq_add_of_le (Nat.succ_le_of_lt hpass) with ⟨q, hq⟩
  refine ⟨q, hq, ?_, fun hne => Nat.le_mul_of_pos_right S (Nat.pos_of_ne_zero hne)⟩
  calc p * S = (k / S + 1 + q) * S := by rw [← Nat.succ_eq_add_one, ← hq]
    _ = S * (k / S) + S + S * q := by ring

/-- A turn within a pass: `final_id` is set in front of the last point. -/
lemma foretold_within (hk : k < p * spaceSize ranges) (hroom : k % spaceSize ranges + 1 < spaceSize ranges) :
    ¬ Foretold ranges p k ∧
      (Foretold ranges p (k + 1) → p * spaceSize ranges = k + 2) ∧
      (Foretold ranges p (k + 1) ↔ p = k / spaceSize ranges + 1 ∧
        k % spaceSize ranges + 2 = spaceSize ranges ∧ ∀ r ∈ ranges, ¬ r.IsReal) := by
  rcases passes_left hk with ⟨q, hp, hprod, hmore⟩
  have hdiv := Nat.div_add_mod k (spaceSize ranges)
  unfold Foretold
  refine ⟨?_, ?_, ?_⟩
  · intro h
    omega
  · intro h
    omega
  · constructor
    · rintro (hle | hlast)
      · omega
      · rcases Nat.eq_zero_or_pos q with rfl | hq
        · exact ⟨hp, by omega, hlast.2.2⟩
        · have := hmore (by omega)
          omega
    · intro h
      refine Or.inr ⟨?_, by omega, h.2.2⟩
      have hq : q = 0 := by omega
      rw [hq, Nat.mul_zero] at hprod
      omega

/-- A turn at the end of a pass: `final_id` is set after the last one. -/
lemma foretold_turnover (hk : k < p * spaceSize ranges)
    (hfull : k % spaceSize ranges + 1 = spaceSize ranges) :
    (Foretold ranges p (k + 1) ↔ p = k / spaceSize ranges + 1) ∧
      (p = k / spaceSize ranges + 1 → p * spaceSize ranges = k + 1) ∧
      (p ≠ k / spaceSize ranges + 1 → ¬ Foretold ranges p k) := by
  rcases passes_left hk with ⟨q, hp, hprod, hmore⟩
  have hdiv := Nat.div_add_mod k (spaceSize ranges)
  have hzero : p = k / spaceSize ranges + 1 → p * spaceSize ranges = k + 1 := by
    intro h
    have hq : q = 0 := by omega
    rw [hq, Nat.mul_zero] at hprod
    omega
  unfold Foretold
  refine ⟨?_, hzero, ?_⟩
  · constructor
    · rintro (hle | hlast)
      · rcases Nat.eq_zero_or_pos q with rfl | hq
        · exact hp
        · have := hmore (by omega)
          omega
      · rcases Nat.eq_zero_or_pos q with rfl | hq
        · exact hp
        · have := hmore (by omega)
          omega
    · intro h
      exact Or.inl (by rw [hzero h])
  · intro hne h
    have := hmore (by omega)
    omega

/-- One turn of `increment`, after which `strategy_generate` counts the point. -/
theorem Progress.increment [IsStrictOrderedRing K] (h : Progress ranges p k s) (hfin : ∀ r ∈ ranges, r.Finite)
    (hk : k < p * spaceSize ranges) :
    ∃ s', ActiveHarmony.increment nextafter s = (0, s') ∧ s'.best = s.best ∧
      s'.finalPointReceived = s.finalPointReceived ∧
      Progress ranges p (k + 1) { s' with curr := { s'.curr with id := s'.curr.id + 1 } } := by
  have hS := spaceSize_pos fun r hr => (hfin r hr).stepped
  have hdiv := Nat.div_add_mod k (spaceSize ranges)
  have hmod := Nat.mod_lt k hS
  have hpass : k / spaceSize ranges < p := Nat.div_lt_of_lt_mul (by rwa [Nat.mul_comm])
  have hpasses := h.passes
  have hid := h.id
  have hturn := turn_pointAt nextafter (fun r hr => (hfin r hr).stepped) h.within
  have hmoved : (Odometer.next (sizes ranges) s.idx).2
      = decide (Odometer.value (sizes ranges) s.idx + 1 < spaceSize ranges) :=
    (Odometer.next_value h.within).1
  have hvalue : Odometer.value (sizes ranges) (Odometer.next (sizes ranges) s.idx).1
      = if Odometer.value (sizes ranges) s.idx + 1 < spaceSize ranges
        then Odometer.value (sizes ranges) s.idx + 1 else 0 := (Odometer.next_value h.within).2
  have hwithin := Odometer.next_within h.within
  unfold ActiveHarmony.increment
  rw [if_neg (by omega), h.range, h.vals, hturn, hmoved]
  rw [h.pos] at hvalue ⊢
  by_cases hroom : k % spaceSize ranges + 1 < spaceSize ranges
  · -- some variable does not overflow: look ahead
    rw [if_pos hroom] at hvalue
    rw [decide_eq_true hroom]
    rcases (Nat.div_mod_unique (a := k + 1) (c := k % spaceSize ranges + 1)
      (d := k / spaceSize ranges) hS).mpr ⟨by omega, hroom⟩ with ⟨hquot, hrem⟩
    rcases foretold_within hk hroom with ⟨hno, hnext, hiff⟩
    rcases countOverflows_pointAt nextafter hfin hwithin with ⟨n, hn, -, hall⟩
    have hend : ranges.length ≤ n ↔ k % spaceSize ranges + 2 = spaceSize ranges ∧
        ∀ r ∈ ranges, ¬ r.IsReal := by
      rw [hall, Odometer.last_iff hwithin, hvalue]
    have hlast : Foretold ranges p (k + 1) ↔ s.remainingPasses - 1 ≤ 0 ∧ n ≥ ranges.length := by
      rw [hiff, ge_iff_le, hend]
      exact and_congr_left fun _ => by omega
    simp only [hn]
    by_cases hfore : Foretold ranges p (k + 1)
    · have hprod := hnext hfore
      rw [if_pos (hlast.mp hfore)]
      exact ⟨_, rfl, rfl, rfl, {
        range := rfl
        within := hwithin
        vals := rfl
        pos := by rw [hrem]; exact hvalue
        id := by simp only; omega
        passes := by rw [hquot]; exact hpasses
        final := fun _ => by simp only; omega
        unset := fun hnot => absurd hfore hnot }⟩
    · rw [if_neg fun hset => hfore (hlast.mpr hset)]
      exact ⟨_, rfl, rfl, rfl, {
        range := rfl
        within := hwithin
        vals := rfl
        pos := by rw [hrem]; exact hvalue
        id := by simp only; omega
        passes := by rw [hquot]; exact hpasses
        final := fun hyes => absurd hyes hfore
        unset := fun _ => h.unset hno }⟩
  · -- all variables overflow: the pass ends
    have hfull : k % spaceSize ranges + 1 = spaceSize ranges := by omega
    rw [if_neg hroom] at hvalue
    rw [decide_eq_false hroom]
    rcases (Nat.div_mod_unique (a := k + 1) (c := 0)
      (d := k / spaceSize ranges + 1) hS).mpr ⟨by rw [Nat.mul_succ]; omega, hS⟩ with ⟨hquot, hrem⟩
    rcases foretold_turnover hk hfull with ⟨hiff, hend, hnot⟩
    have hlast : Foretold ranges p (k + 1) ↔ s.remainingPasses - 1 ≤ 0 := by
      rw [hiff]
      omega
    by_cases hfore : Foretold ranges p (k + 1)
    · have hprod := hend (hiff.mp hfore)
      simp only [if_pos (hlast.mp hfore)]
      exact ⟨_, rfl, rfl, rfl, {
        range := rfl
        within := hwithin
        vals := rfl
        pos := by rw [hrem]; exact hvalue
        id := by simp only; omega
        passes := by simp only [hquot]; omega
        final := fun _ => by simp only; omega
        unset := fun hno => absurd hfore hno }⟩
    · simp only [if_neg fun hset => hfore (hlast.mpr hset)]
      exact ⟨_, rfl, rfl, rfl, {
        range := rfl
        within := hwithin
        vals := rfl
        pos := by rw [hrem]; exact hvalue
        id := by simp only; omega
        passes := by simp only [hquot]; omega
        final := fun hyes => absurd hyes hfore
        unset := fun _ => h.unset (hnot fun heq => hfore (hiff.mpr heq)) }⟩

/-- Nothing but the position of the search matters. -/
lemma Progress.congr {s' : Exhaustive K W} (h : Progress ranges p k s) (hrange : s'.range = s.range)
    (hidx : s'.idx = s.idx) (hcurr : s'.curr = s.curr)
    (hpasses : s'.remainingPasses = s.remainingPasses) (hfinal : s'.finalId = s.finalId) :
    Progress ranges p k s' where
  range := hrange.trans h.range
  within := by rw [hidx]; exact h.within
  vals := by rw [hidx, hcurr]; exact h.vals
  pos := by rw [hidx]; exact h.pos
  id := by rw [hcurr]; exact h.id
  passes := hpasses.trans h.passes
  final := fun hfore => hfinal.trans (h.final hfore)
  unset := fun hfore => hfinal.trans (h.unset hfore)

lemma foretold_min : Foretold ranges p (min k (p * spaceSize ranges)) ↔ Foretold ranges p k := by
  unfold Foretold
  rcases le_total k (p * spaceSize ranges) with h | h
  · rw [min_eq_left h]
  · rw [min_eq_right h]
    exact ⟨fun _ => Or.inl h, fun _ => Or.inl (le_refl _)⟩

/-- Whether there are points left. -/
lemma Progress.remaining (h : Progress ranges p k s) (hfin : ∀ r ∈ ranges, r.Finite) :
    0 < s.remainingPasses ↔ k < p * spaceSize ranges := by
  have hS := spaceSize_pos fun r hr => (hfin r hr).stepped
  have hdiv : k / spaceSize ranges < p ↔ k < p * spaceSize ranges := Nat.div_lt_iff_lt_mul hS
  rw [h.passes, ← hdiv]
  omega

/-! ## The start of a search -/

omit [FloorSemiring K] in
lemma mapM_first (hfin : ∀ r ∈ ranges, r.Stepped) :
    ranges.mapM HRange.first = some (pointAt ranges (List.replicate ranges.length 0)) := by
  induction ranges with
  | nil => rfl
  | cons range ranges ih =>
    have hrange := hfin range List.mem_cons_self
    have hfirst : range.first = some (range.value 0) := by
      unfold HRange.Stepped at hrange
      unfold HRange.first HRange.value
      cases hb : range.bounds with
      | unknown => rw [hb] at hrange; exact hrange.elim
      | int min max step => simp
      | real min max step => simp
      | str set => rfl
    rw [List.mapM_cons, hfirst, ih fun r hr => hfin r (List.mem_cons_of_mem range hr)]
    rfl

/-- The number of passes that the configuration asks for. -/
def passesOf (cfg : Hcfg) : ℤ :=
  match hcfgGet cfg cfgkeyPasses with
  | some cfgstr => atoi cfgstr
  | none => 1

section Start

variable [Top W] {pointOf : Bytes → Option (List (HVal K) × List ℕ)} {sig : HSignature K}
  {world world' : World (Exhaustive K W)}

/-- The strategy after `strategy_init`. -/
def Exhaustive.started (ranges : List (HRange K)) (p : ℕ) : Exhaustive K W :=
  { Exhaustive.loaded with
    range := ranges
    allocated := true
    curr := { id := 1, val := pointAt ranges (List.replicate ranges.length 0) }
    idx := List.replicate ranges.length 0
    remainingPasses := p }

omit [FloorSemiring K] in
lemma exInit_started (hloaded : world.plug = Exhaustive.loaded)
    (hpoint : hcfgGet world.cfg cfgkeyInitPoint = none) (hpasses : passesOf world.cfg = p)
    (hfin : ∀ r ∈ sig.range, r.Stepped) (hinit : exInit pointOf sig world = (0, world')) :
    world'.plug = Exhaustive.started sig.range p := by
  have hcfg : exCfg pointOf ({ world with plug := { (Exhaustive.loaded : Exhaustive K W) with
        range := sig.range
        allocated := true
        best := hpointInitializer K
        bestPerf := ⊤
        curr := { (Exhaustive.loaded : Exhaustive K W).curr with id := 1 } } } :
        World (Exhaustive K W)) = (0, { world with plug := Exhaustive.started sig.range p }) := by
    unfold exCfg
    unfold passesOf at hpasses
    cases hget : hcfgGet world.cfg cfgkeyPasses with
    | none =>
      simp only [hget] at hpasses
      simp only [hpoint, mapM_first hfin, Exhaustive.started, ← hpasses]
      rfl
    | some cfgstr =>
      simp only [hget] at hpasses
      simp only [hpoint, mapM_first hfin, Exhaustive.started, ← hpasses]
      rfl
  unfold exInit at hinit
  simp only [hloaded, show (Exhaustive.loaded : Exhaustive K W).allocated = false from rfl,
    Bool.false_eq_true, if_false, hcfg, ne_eq, not_true_eq_false] at hinit
  split_ifs at hinit with hret
  · cases hinit
    exact sessionSetcfg_plug _ _ _
  · exact absurd (congrArg Prod.fst hinit) (by simp only; decide)

/-- A search starts at the first point of its space. -/
lemma Exhaustive.started_progress (hpos : 1 ≤ p) (hfin : ∀ r ∈ ranges, r.Finite) :
    Progress ranges p 0 (Exhaustive.started ranges p : Exhaustive K W) := by
  have hS := spaceSize_pos fun r hr => (hfin r hr).stepped
  have hT : spaceSize ranges ≤ p * spaceSize ranges := Nat.le_mul_of_pos_left _ hpos
  have hnot : ¬ Foretold ranges p 0 := by
    unfold Foretold
    omega
  have hsizes : (List.replicate ranges.length 0) = List.replicate (sizes ranges).length 0 := by
    rw [List.length_map]
  exact {
    range := rfl
    within := by
      show Odometer.Within (List.replicate ranges.length 0) _
      rw [hsizes]
      refine Odometer.within_zero fun n hn => ?_
      rcases List.mem_map.mp hn with ⟨r, hr, rfl⟩
      exact (hfin r hr).stepped.size_pos
    vals := rfl
    pos := (Odometer.value_replicate_zero _ _).trans (Nat.zero_mod _).symm
    id := rfl
    passes := by
      rw [Nat.zero_div]
      exact (Int.sub_zero _).symm
    final := fun hfore => absurd hfore hnot
    unset := fun _ => rfl }

end Start

/-! ## Runs of a search -/

/-- A search: its points in the hands of clients, the ids of those analyzed, in order, and how many
points were generated. -/
structure Search (K W : Type) where
  world : World (Exhaustive K W)
  out : List (HPoint K)
  analyzed : List ℤ
  generated : ℕ

/-- `strategy_generate`, or `strategy_analyze` for the `j`-th of the points not yet analyzed. -/
inductive SearchEvent (W : Type) where
  | generate
  | analyze (j : ℕ) (perf : HPerf W)

variable [Add W] [Zero W] [LT W] [DecidableLT W]

/-- One step of a search. -/
def Search.step (s : Search K W) : SearchEvent W → Option (Search K W)
  | .generate =>
    let (ret, world, _, point) := exGenerate nextafter s.world
      { status := .accept, point := hpointInitializer K } (hpointInitializer K)
    if ret ≠ 0 then none
    else some { s with world := world, out := s.out ++ [point], generated := s.generated + 1 }
  | .analyze j perf =>
    match s.out[j]? with
    | none => none
    | some point =>
      let (_, world) := exAnalyze s.world { point := point, perf := perf }
      some { s with
        world := world, out := s.out.eraseIdx j, analyzed := s.analyzed ++ [point.id] }

/-- The search after some events. -/
def Search.run (s : Search K W) (es : List (SearchEvent W)) : Option (Search K W) :=
  es.foldlM (fun s e => s.step nextafter e) s

/-- Every point of `p` passes has been passed to `strategy_analyze`. -/
def Search.Exhausted (ranges : List (HRange K)) (p : ℕ) (s : Search K W) : Prop :=
  ∀ id : ℕ, 1 ≤ id → id ≤ p * spaceSize ranges → (id : ℤ) ∈ s.analyzed

/-- Once `final_id` is set, the point before the last one is analyzed after all others. -/
def Search.InOrder (ranges : List (HRange K)) (p : ℕ) (s : Search K W) : SearchEvent W → Prop
  | .generate => True
  | .analyze j _ =>
    ∀ point, s.out[j]? = some point → point.id = (p * spaceSize ranges : ℕ) - 1 →
      Foretold ranges p s.generated →
        ∀ id : ℕ, 1 ≤ id → id ≤ p * spaceSize ranges → (id : ℤ) ≠ point.id → (id : ℤ) ∈ s.analyzed

/-- The states that a search reaches from `s₀` by steps that meet the condition `C`. -/
inductive Search.Reaches (C : Search K W → SearchEvent W → Prop) (s₀ : Search K W) :
    Search K W → Prop where
  | refl : Reaches C s₀ s₀
  | step {s s' : Search K W} {e : SearchEvent W} : Reaches C s₀ s → C s e →
      s.step nextafter e = some s' → Reaches C s₀ s'

/-- The invariant of a search whose points are analyzed in order. -/
structure Search.Inv (ranges : List (HRange K)) (p : ℕ) (cfg : Hcfg) (s : Search K W) : Prop where
  progress : Progress ranges p (min s.generated (p * spaceSize ranges)) s.world.plug
  out : ∀ point ∈ s.out, point.id ≠ 0
  best : s.world.plug.best.id ≠ 0
  received : s.world.plug.finalPointReceived = true → s.Exhausted ranges p
  cfg : s.world.cfg = cfg ∨ s.Exhausted ranges p

variable {nextafter} {cfg : Hcfg} {t t' : Search K W} {world : World (Exhaustive K W)}

omit [Add W] [Zero W] [LT W] [DecidableLT W] in
lemma Search.Inv.out_concat (h : t.Inv ranges p cfg) {new : HPoint K} (hnew : new.id ≠ 0) :
    ∀ point ∈ t.out ++ [new], point.id ≠ 0 := by
  intro point hpoint
  rcases List.mem_append.mp hpoint with hold | hlast
  · exact h.out point hold
  · rw [List.mem_singleton.mp hlast]
    exact hnew

omit [FloorSemiring K] in
lemma Search.run_concat {s s' : Search K W} (es : List (SearchEvent W)) (e : SearchEvent W) :
    s.run nextafter (es ++ [e]) = some s' ↔
      ∃ s₁, s.run nextafter es = some s₁ ∧ s₁.step nextafter e = some s' := by
  unfold Search.run
  rw [List.foldlM_append]
  simp [Option.bind_eq_some_iff]

/-- The next point of a search, and of one that has generated all its points. -/
theorem Search.Inv.generate [IsStrictOrderedRing K] (h : t.Inv ranges p cfg)
    (hfin : ∀ r ∈ ranges, r.Finite) (hstep : t.step nextafter .generate = some t') :
    t'.Inv ranges p cfg := by
  have hremaining := h.progress.remaining hfin
  unfold Search.step exGenerate at hstep
  by_cases hmore : t.generated < p * spaceSize ranges
  · -- the current point, and a turn of the odometer
    have hprogress := h.progress
    rw [min_eq_left (le_of_lt hmore)] at hprogress hremaining
    have hcopy : (hpointCopy t.world.plug.curr).id = t.generated + 1 :=
      (hpointCopy_id _).trans hprogress.id
    rcases hprogress.increment nextafter hfin hmore with ⟨s', hinc, hbest, hreceived, hnext⟩
    simp only [gt_iff_lt, if_pos (hremaining.mpr hmore), hinc, ne_eq, not_true_eq_false,
      if_false] at hstep
    cases hstep
    refine ⟨?_, h.out_concat (by rw [hcopy]; omega), ?_, ?_, h.cfg⟩
    · rw [min_eq_left (Nat.succ_le_of_lt hmore)]
      split_ifs
      · exact hnext.congr rfl rfl rfl rfl rfl
      · exact hnext
    · split_ifs <;> exact hbest ▸ h.best
    · intro hset
      refine h.received ?_
      rw [← hreceived]
      split_ifs at hset <;> exact hset
  · -- a copy of the best point
    have hcopy : (hpointCopy t.world.plug.best).id ≠ 0 := by
      rw [hpointCopy_id]
      exact h.best
    have hnone : ¬ 0 < t.world.plug.remainingPasses := fun hpos => by
      have := hremaining.mp hpos
      omega
    have hmin : min (t.generated + 1) (p * spaceSize ranges)
        = min t.generated (p * spaceSize ranges) := by omega
    simp only [gt_iff_lt, if_neg hnone, ne_eq, not_true_eq_false, if_false] at hstep
    cases hstep
    refine ⟨?_, h.out_concat hcopy, ?_, ?_, h.cfg⟩
    · rw [hmin]
      split_ifs
      · exact h.progress.congr rfl rfl rfl rfl rfl
      · exact h.progress
    · split_ifs <;> exact h.best
    · intro hset
      refine h.received ?_
      split_ifs at hset <;> exact hset

/-- A point that is analyzed in order. -/
theorem Search.Inv.analyze {j : ℕ} {perf : HPerf W} (h : t.Inv ranges p cfg)
    (horder : t.InOrder ranges p (.analyze j perf))
    (hstep : t.step nextafter (.analyze j perf) = some t') : t'.Inv ranges p cfg := by
  unfold Search.step at hstep
  cases hpoint : t.out[j]? with
  | none =>
    simp only [hpoint] at hstep
    cases hstep
  | some point =>
    simp only [hpoint] at hstep
    cases hstep
    rcases exAnalyze_spec t.world { point := point, perf := perf } with
      ⟨⟨best, bestPerf, points, received, hplug, hbest, hreceived⟩, hcfg⟩
    have hzero := h.out point (List.mem_of_getElem? hpoint)
    have hkeep : t.Exhausted ranges p → ∀ id : ℕ, 1 ≤ id → id ≤ p * spaceSize ranges →
        (id : ℤ) ∈ t.analyzed ++ [point.id] := fun hall id hpos hle =>
      List.mem_append_left _ (hall id hpos hle)
    -- the final point comes last
    have hfinal : point.id = t.world.plug.finalId → ∀ id : ℕ, 1 ≤ id → id ≤ p * spaceSize ranges →
        (id : ℤ) ∈ t.analyzed ++ [point.id] := by
      intro heq id hpos hle
      by_cases hid : (id : ℤ) = point.id
      · rw [hid]
        exact List.mem_append_right _ (List.mem_singleton.mpr rfl)
      · refine List.mem_append_left _ ?_
        by_cases hfore : Foretold ranges p (min t.generated (p * spaceSize ranges))
        · rw [h.progress.final hfore] at heq
          exact horder point hpoint heq (foretold_min.mp hfore) id hpos hle hid
        · rw [h.progress.unset hfore] at heq
          exact absurd heq hzero
    refine ⟨?_, fun pt hpt => h.out pt (List.mem_of_mem_eraseIdx hpt), ?_, ?_, ?_⟩
    · simp only [hplug]
      exact h.progress.congr rfl rfl rfl rfl rfl
    · simp only [hplug]
      rcases hbest with hold | hnew
      · rw [hold]
        exact h.best
      · rw [hnew, hpointCopy_id]
        exact hzero
    · intro hset
      simp only [hplug] at hset
      rcases hreceived hset with heq | hold
      · exact hfinal heq
      · exact hkeep (h.received hold)
    · rcases hcfg with hsame | heq | hold
      · simp only [hsame]
        exact h.cfg.imp_right hkeep
      · exact Or.inr (hfinal heq)
      · exact Or.inr (hkeep (h.received hold))

theorem Search.Reaches.inv [IsStrictOrderedRing K] {t₀ : Search K W}
    (h : Search.Reaches nextafter (Search.InOrder ranges p) t₀ t) (hfin : ∀ r ∈ ranges, r.Finite)
    (h₀ : t₀.Inv ranges p cfg) : t.Inv ranges p cfg := by
  induction h with
  | refl => exact h₀
  | @step s s' e _ horder hstep ih =>
    cases e with
    | generate => exact ih.generate hfin hstep
    | analyze j perf => exact ih.analyze horder hstep

/-- A search after `strategy_init`. -/
def Search.start (world : World (Exhaustive K W)) : Search K W where
  world := world
  out := []
  analyzed := []
  generated := 0

/-- `STRATEGY_CONVERGED` is "1". -/
def Search.Converged (s : Search K W) : Prop :=
  hcfgGet s.world.cfg cfgkeyStrategyConverged = some (cstr "1")

variable [Top W] {pointOf : Bytes → Option (List (HVal K) × List ℕ)} {sig : HSignature K}
  {world' : World (Exhaustive K W)}

omit [Add W] [Zero W] [LT W] [DecidableLT W] in
lemma exInit_inv (hloaded : world.plug = Exhaustive.loaded)
    (hpoint : hcfgGet world.cfg cfgkeyInitPoint = none) (hpasses : passesOf world.cfg = p)
    (hpos : 1 ≤ p) (hfin : ∀ r ∈ sig.range, r.Finite)
    (hinit : exInit pointOf sig world = (0, world')) :
    (Search.start world').Inv sig.range p world'.cfg := by
  have hplug := exInit_started hloaded hpoint hpasses (fun r hr => (hfin r hr).stepped) hinit
  exact {
    progress := by
      show Progress sig.range p (min 0 _) world'.plug
      rw [hplug, Nat.zero_min]
      exact Exhaustive.started_progress hpos hfin
    out := fun pt hpt => absurd hpt List.not_mem_nil
    best := by
      show world'.plug.best.id ≠ 0
      rw [hplug]
      exact (by decide : (-1 : ℤ) ≠ 0)
    received := by
      intro hset
      have hfalse : world'.plug.finalPointReceived = false := by
        rw [hplug]
        rfl
      exact absurd (hfalse.symm.trans hset) (by decide)
    cfg := Or.inl rfl }

/-- In every search whose points are analyzed in order, `STRATEGY_CONVERGED` becomes "1" only after
every point of all passes has been passed to `strategy_analyze`. -/
theorem exhaustive_converged [IsStrictOrderedRing K] (hloaded : world.plug = Exhaustive.loaded)
    (hpoint : hcfgGet world.cfg cfgkeyInitPoint = none) (hpasses : passesOf world.cfg = p)
    (hpos : 1 ≤ p) (hfin : ∀ r ∈ sig.range, r.Finite)
    (hinit : exInit pointOf sig world = (0, world')) (hopen : ¬ (Search.start world').Converged)
    (hrun : Search.Reaches nextafter (Search.InOrder sig.range p) (Search.start world') t) :
    t.Converged → t.Exhausted sig.range p := by
  intro hconverged
  have hinv := hrun.inv hfin (exInit_inv hloaded hpoint hpasses hpos hfin hinit)
  rcases hinv.cfg with hsame | hall
  · -- nothing has been set since `strategy_init`
    unfold Search.Converged at hconverged
    rw [hsame] at hconverged
    exact absurd hconverged hopen
  · exact hall

/-! ### Two points -/

/-- One INT variable with the values 0 and 1. -/
def twoPoints : HSignature ℚ where
  name := none
  range := [{ name := none, bounds := .int 0 1 1 }]

/-- A session whose configuration is empty. -/
def freshWorld : World (Exhaustive ℚ (WithTop ℕ)) where
  plug := Exhaustive.loaded
  cfg := hcfgAlloc
  errmsg := none

/-- The session after `strategy_init`. -/
def twoWorld : World (Exhaustive ℚ (WithTop ℕ)) := (exInit (fun _ => none) twoPoints freshWorld).2

lemma twoWorld_init : exInit (fun _ => none) twoPoints freshWorld = (0, twoWorld) :=
  Prod.ext (by decide +kernel) rfl

lemma twoPoints_finite : ∀ r ∈ twoPoints.range, r.Finite := by
  intro r hr
  rw [List.mem_singleton.mp hr]
  exact ⟨by decide, by decide, by decide, by decide⟩

/-- The ids of the points of a search, of those in the hands of clients and of those analyzed. -/
def Search.ids (s : Search K W) : List ℤ × List ℤ := (s.out.map HPoint.id, s.analyzed)

theorem two_points_converged : ∃ t, Search.Reaches id (Search.InOrder twoPoints.range 1)
    (Search.start twoWorld) t ∧ t.Converged ∧ t.Exhausted twoPoints.range 1 := by
  have hpart : ((Search.start twoWorld).run id [.generate, .generate]).map Search.ids
      = some ([1, 2], []) := by decide +kernel
  have hmore : ((Search.start twoWorld).run id [.generate, .generate,
      .analyze 1 { p := [3] }]).map Search.ids = some ([1], [2]) := by decide +kernel
  have hall : ((Search.start twoWorld).run id [.generate, .generate, .analyze 1 { p := [3] },
      .analyze 0 { p := [4] }]).map (fun s => hcfgGet s.world.cfg cfgkeyStrategyConverged)
      = some (some (cstr "1")) := by decide +kernel
  rcases Option.map_eq_some_iff.mp hall with ⟨t, hrun, hconverged⟩
  rcases (Search.run_concat (K := ℚ) (W := WithTop ℕ) [.generate, .generate, .analyze 1 { p := [3] }]
    (.analyze 0 { p := [4] })).mp hrun with ⟨s₃, hrun₃, hstep₄⟩
  rcases (Search.run_concat (K := ℚ) (W := WithTop ℕ) [.generate, .generate]
    (.analyze 1 { p := [3] })).mp hrun₃ with ⟨s₂, hrun₂, hstep₃⟩
  rcases (Search.run_concat (K := ℚ) (W := WithTop ℕ) [.generate] .generate).mp hrun₂
    with ⟨s₁, hrun₁, hstep₂⟩
  rcases (Search.run_concat (K := ℚ) (W := WithTop ℕ) [] .generate).mp hrun₁
    with ⟨s₀, hrun₀, hstep₁⟩
  cases hrun₀
  rw [hrun₂] at hpart
  rw [hrun₃] at hmore
  have horder₃ : s₂.InOrder twoPoints.range 1 (.analyze 1 { p := [3] }) := by
    intro point hpoint hid
    have hsecond := congrArg (fun ids => ids[1]?) (congrArg Prod.fst (Option.some.inj hpart))
    rw [show s₂.ids.1[1]? = (s₂.out[1]?).map HPoint.id from List.getElem?_map, hpoint] at hsecond
    exact absurd (hid.symm.trans (Option.some.inj hsecond)) (by decide +kernel)
  have horder₄ : s₃.InOrder twoPoints.range 1 (.analyze 0 { p := [4] }) := by
    intro point _ hid _ id hpos hle hne
    have htwo : id ≤ 2 := hle
    have hone : point.id = 1 := hid
    obtain rfl : id = 2 := by omega
    rw [show s₃.analyzed = [2] from congrArg Prod.snd (Option.some.inj hmore)]
    decide
  have hgenerate : ∀ s : Search ℚ (WithTop ℕ), s.InOrder twoPoints.range 1 .generate :=
    fun _ => trivial
  have hreach := (((Search.Reaches.refl.step (hgenerate _) hstep₁).step (hgenerate _) hstep₂).step
    horder₃ hstep₃).step horder₄ hstep₄
  exact ⟨t, hreach, hconverged, exhaustive_converged rfl (hcfgGet_alloc _) (by decide +kernel)
    (by decide) twoPoints_finite twoWorld_init (by unfold Search.Converged; decide +kernel) hreach
    hconverged⟩

/-- The end is announced with the first of two points. -/
theorem one_of_two_points_converged : ¬ ∀ (sig : HSignature ℚ) (p : ℕ)
    (world world' : World (Exhaustive ℚ (WithTop ℕ))) (t : Search ℚ (WithTop ℕ)),
    world.plug = Exhaustive.loaded → hcfgGet world.cfg cfgkeyInitPoint = none →
    passesOf world.cfg = p → 1 ≤ p → (∀ r ∈ sig.range, r.Finite) →
    exInit (fun _ => none) sig world = (0, world') → ¬ (Search.start world').Converged →
    Search.Reaches id (fun _ _ => True) (Search.start world') t →
    t.Converged → t.Exhausted sig.range p := by
  intro hclaim
  have hview : ((Search.start twoWorld).run id [.generate, .analyze 0 { p := [3] }]).map
      (fun s => (s.analyzed, hcfgGet s.world.cfg cfgkeyStrategyConverged))
      = some ([1], some (cstr "1")) := by decide +kernel
  rcases Option.map_eq_some_iff.mp hview with ⟨t, hrun, hids⟩
  have hreach : Search.Reaches id (fun _ _ => True) (Search.start twoWorld) t := by
    rcases (Search.run_concat (K := ℚ) (W := WithTop ℕ) [.generate]
      (.analyze 0 { p := [3] })).mp hrun with ⟨s₁, hrun₁, hstep₂⟩
    rcases (Search.run_concat (K := ℚ) (W := WithTop ℕ) [] .generate).mp hrun₁
      with ⟨s₀, hrun₀, hstep₁⟩
    cases hrun₀
    exact (Search.Reaches.refl.step trivial hstep₁).step trivial hstep₂
  have hall := hclaim twoPoints 1 freshWorld twoWorld t rfl (hcfgGet_alloc _) (by decide +kernel)
    (by decide) twoPoints_finite twoWorld_init (by unfold Search.Converged; decide +kernel) hreach
    (congrArg Prod.snd hids) 2 (by decide) (by decide +kernel)
  rw [show t.analyzed = [1] from congrArg Prod.fst hids] at hall
  exact absurd hall (by decide)

end ActiveHarmony

import ActiveHarmony.Layer.Aggregate
import ActiveHarmony.Lib.ArgMin
import ActiveHarmony.Strategy.Libvertex
import Mathlib.Algebra.Order.Ring.Rat
import Mathlib.Data.List.GetD
import Mathlib.Tactic.FieldSimp

/-!
# The values of the aggregating functions

`Aggregated` says what the aggregating functions are for, and `agg_analyze_aggregates_iff` when
`agg_analyze` does that. Minimum, maximum and mean are right. For a median `agg_analyze` tests the parity of
an index in place of that of the number of measurements, and divides the sum of two measurements by the
number of all.
-/

namespace ActiveHarmony.Agg

variable {τ V K : Type} [Field K]

/-! ## What the aggregating functions are for -/

/-- The sums of the objectives of performances. -/
def objectiveSums (objectives : ℕ) (perfs : List (HPerf K)) : List K :=
  (List.range objectives).map fun j => (perfs.map fun perf => perf.p.getD j 0).sum

/-- The objective-wise mean. -/
def meanPerf (objectives : ℕ) (perfs : List (HPerf K)) : HPerf K :=
  { p := (objectiveSums objectives perfs).map (· / (perfs.length : K)) }

/-- The middle of sorted performances, or the mean of the two in the middle. -/
def Middle (objectives : ℕ) (sorted : List (HPerf K)) (perf : HPerf K) : Prop :=
  (sorted.length % 2 = 1 ∧ sorted[sorted.length / 2]? = some perf) ∨
    (sorted.length % 2 = 0 ∧ ∃ low high, sorted[sorted.length / 2 - 1]? = some low ∧
      sorted[sorted.length / 2]? = some high ∧ perf = meanPerf objectives [low, high])

variable [LinearOrder K]

/-- What an aggregating function is to make of performances. -/
def Aggregated (objectives : ℕ) (perfs : List (HPerf K)) (perf : HPerf K) : AggFunc → Prop
  | .unknown => False
  | .min => perf ∈ perfs ∧ ∀ p ∈ perfs, hperfUnify perf ≤ hperfUnify p
  | .max => perf ∈ perfs ∧ ∀ p ∈ perfs, hperfUnify p ≤ hperfUnify perf
  | .mean => perf = meanPerf objectives perfs
  | .median => ∃ sorted : List (HPerf K), sorted.Perm perfs ∧
      sorted.Pairwise (fun a b => hperfUnify a ≤ hperfUnify b) ∧ Middle objectives sorted perf

/-! ## The sums -/

variable {objectives : ℕ} {perfs : List (HPerf K)} {perf : HPerf K}

omit [LinearOrder K] in
lemma foldlM_sums {sum : List K} (hsum : sum.length = objectives)
    (hperfs : ∀ perf ∈ perfs, perf.p.length = objectives) :
    perfs.foldlM addObjectives sum = some ((List.range objectives).map fun j =>
      sum.getD j 0 + (perfs.map fun perf => perf.p.getD j 0).sum) := by
  induction perfs generalizing sum with
  | nil =>
    rw [List.foldlM_nil]
    refine congrArg some (List.ext_getElem (by simp [hsum]) ?_)
    intro j hj _
    simp [List.getD_eq_getElem?_getD, hj]
  | cons perf perfs ih =>
    have hlen := hperfs perf List.mem_cons_self
    obtain ⟨hadd, hzip⟩ := addObjectives_sized (hlen.trans hsum.symm)
    rw [List.foldlM_cons, hadd]
    refine (ih (hzip.trans hsum) fun p hp => hperfs p (List.mem_cons_of_mem perf hp)).trans ?_
    refine congrArg some (List.map_congr_left ?_)
    intro j hj
    have hj := List.mem_range.mp hj
    have hentry : (List.zipWith (· + ·) sum perf.p).getD j 0 = sum.getD j 0 + perf.p.getD j 0 := by
      rw [List.getD_eq_getElem _ _ (by omega), List.getD_eq_getElem _ _ (by omega),
        List.getD_eq_getElem _ _ (by omega), List.getElem_zipWith]
    rw [hentry, List.map_cons, List.sum_cons, add_assoc]

omit [LinearOrder K] in
/-- `perf_mean` divides the sums by the number of measurements of a point. -/
lemma perfMean_eq (times : ℕ) {dst : HPerf K} {count : ℕ} (hcount : count ≤ perfs.length)
    (hperfs : ∀ perf ∈ perfs, perf.p.length = dst.p.length) :
    perfMean times dst (perfs.map some) count =
      some { p := (objectiveSums dst.p.length (perfs.take count)).map (· / (times : K)) } := by
  unfold perfMean objectiveSums
  by_cases hempty : dst.p.isEmpty
  · have hnil := List.isEmpty_iff.mp hempty
    rw [if_pos hempty, hnil]
    obtain ⟨p⟩ := dst
    rw [show p = [] from hnil]
    rfl
  · have hsum := @foldlM_sums K _ dst.p.length (perfs.take count) (dst.p.map fun _ => 0)
      (List.length_map _) (fun perf hperf => hperfs perf (List.mem_of_mem_take hperf))
    rw [if_neg hempty, if_neg (by rw [List.length_map]; omega), ← List.map_take, mapM_some,
      Option.bind_some, hsum, Option.map_some, Int.cast_natCast]
    refine congrArg (fun sums : List K => some ({ p := sums.map (· / (times : K)) } : HPerf K)) ?_
    apply List.map_congr_left
    intro j hj
    have hzero : (dst.p.map fun _ => (0 : K)).getD j 0 = 0 := by
      rw [List.getD_eq_getElem _ _ (by rw [List.length_map]; exact List.mem_range.mp hj),
        List.getElem_map]
    rw [hzero, zero_add]

/-! ## The `switch` of `agg_analyze` -/

/-- What is left in the trial for a median, from the measurement at the index and the next one. -/
def medianPerf (objectives n : ℕ) (low high : HPerf K) : HPerf K :=
  if (n - 1) / 2 % 2 = 1 then low else { p := (objectiveSums objectives [low, high]).map (· / (n : K)) }

/-- `qsort` with `perf_sort`. -/
lemma mergeSort_pairwise (perfs : List (HPerf K)) :
    (perfs.mergeSort fun a b => ¬hperfUnify b < hperfUnify a).Pairwise
      fun a b => hperfUnify a ≤ hperfUnify b := by
  have hpair := @List.pairwise_mergeSort _ (fun a b : HPerf K => decide (¬hperfUnify b < hperfUnify a))
    (by
      intro a b c hab hbc
      rw [decide_eq_true_iff, not_lt] at hab hbc ⊢
      exact hab.trans hbc)
    (by
      intro a b
      rw [Bool.or_eq_true, decide_eq_true_iff, decide_eq_true_iff, not_lt, not_lt]
      exact le_total _ _) perfs
  apply hpair.imp
  intro a b hab
  rwa [decide_eq_true_iff, not_lt] at hab

lemma aggregate_median {s : Layer K} (perfs : List (HPerf K)) (htype : s.aggType = .median)
    (hn : s.trialPerPoint = perfs.length) (htwo : 2 ≤ perfs.length) (hperf : perf.p.length = objectives)
    (hperfs : ∀ p ∈ perfs, p.p.length = objectives) :
    ∃ (sorted : List (HPerf K)) (low high : HPerf K), sorted.Perm perfs ∧
      sorted.Pairwise (fun a b => hperfUnify a ≤ hperfUnify b) ∧
      sorted[(perfs.length - 1) / 2]? = some low ∧ sorted[(perfs.length - 1) / 2 + 1]? = some high ∧
      aggregate s perf (perfs.map some) =
        some (medianPerf objectives perfs.length low high, sorted.map some) := by
  have hnat : s.trialPerPoint.toNat = perfs.length := by omega
  have htake : (perfs.map some).take perfs.length = perfs.map some := by
    rw [List.take_of_length_le (by rw [List.length_map])]
  have hpairwise := mergeSort_pairwise perfs
  have hperm := List.mergeSort_perm perfs fun a b => ¬hperfUnify b < hperfUnify a
  unfold aggregate
  rw [hnat, htake, mapM_some, Option.bind_some, htype]
  simp only
  generalize perfs.mergeSort (fun a b => ¬hperfUnify b < hperfUnify a) = sorted at hpairwise hperm ⊢
  have hlen := hperm.length_eq
  have hi : ((s.trialPerPoint - 1) / 2).toNat = (perfs.length - 1) / 2 := by omega
  rw [hi, hn]
  generalize hmid : (perfs.length - 1) / 2 = i
  have hlow := List.getElem?_eq_getElem (show i < sorted.length by omega)
  have hhigh := List.getElem?_eq_getElem (show i + 1 < sorted.length by omega)
  refine ⟨sorted, _, _, hperm, hpairwise, hlow, hhigh, ?_⟩
  unfold medianPerf
  rw [hmid]
  by_cases hodd : i % 2 = 1
  · rw [if_pos (by omega), if_pos hodd, List.getElem?_map, hlow]
    rfl
  · rw [if_neg (by omega), if_neg hodd, ← List.map_drop, perfMean_eq perfs.length
      (by rw [List.length_drop]; omega) (by
        intro p hp
        rw [hperf]
        exact hperfs p (hperm.mem_iff.mp (List.mem_of_mem_drop hp))), hperf,
      show (sorted.drop i).take 2 = [sorted[i], sorted[i + 1]] by
        rw [List.drop_eq_getElem_cons (by omega), List.drop_eq_getElem_cons (by omega)]
        rfl]
    rfl

/-- When the aggregating function is right for every list of measurements. -/
def RightFor (aggType : AggFunc) (n objectives : ℕ) : Prop :=
  aggType = .median → n = 2 ∨ n % 4 = 3 ∨ objectives = 0

omit [LinearOrder K] in
lemma medianPerf_middle {n : ℕ} {sorted : List (HPerf K)} {low high : HPerf K} (hlen : sorted.length = n)
    (hlow : sorted[(n - 1) / 2]? = some low) (hhigh : sorted[(n - 1) / 2 + 1]? = some high)
    (hsized : ∀ p ∈ sorted, p.p.length = objectives) (hright : n = 2 ∨ n % 4 = 3 ∨ objectives = 0) :
    Middle objectives sorted (medianPerf objectives n low high) := by
  unfold Middle medianPerf
  rw [hlen]
  obtain rfl | hthree | hzero := hright
  · right
    exact ⟨rfl, low, high, hlow, hhigh, rfl⟩
  · left
    rw [if_pos (by omega), show n / 2 = (n - 1) / 2 by omega]
    exact ⟨by omega, hlow⟩
  · -- all performances are empty
    have hnil : ∀ p : HPerf K, p.p.length = objectives → p = { p := [] } := by
      intro p hp
      obtain ⟨p⟩ := p
      rw [show p = [] from List.length_eq_zero_iff.mp (hp.trans hzero)]
    have hvalue : (if (n - 1) / 2 % 2 = 1 then low else
        { p := (objectiveSums objectives [low, high]).map (· / (n : K)) }) = ({ p := [] } : HPerf K) := by
      apply hnil
      split_ifs
      · exact hsized low (List.mem_of_getElem? hlow)
      · simp [objectiveSums]
    rw [hvalue]
    by_cases hodd : n % 2 = 1
    · left
      refine ⟨hodd, ?_⟩
      rw [show n / 2 = (n - 1) / 2 by omega, hlow, hnil low (hsized low (List.mem_of_getElem? hlow))]
    · right
      obtain ⟨hlt, -⟩ := List.getElem?_eq_some_iff.mp hhigh
      refine ⟨by omega, low, high, ?_, ?_, ?_⟩
      · rw [show n / 2 - 1 = (n - 1) / 2 by omega]
        exact hlow
      · rw [show n / 2 = (n - 1) / 2 + 1 by omega]
        exact hhigh
      · simp [meanPerf, objectiveSums, hzero]

/-- The aggregating functions under the condition. The measurement in the trial is one of them. -/
lemma aggregate_right {s : Layer K} (perfs : List (HPerf K)) (hn : s.trialPerPoint = perfs.length)
    (hperf : perf ∈ perfs)
    (hperfs : ∀ p ∈ perfs, p.p.length = objectives) (hknown : s.aggType ≠ .unknown)
    (hright : RightFor s.aggType perfs.length objectives) :
    ∃ res, aggregate s perf (perfs.map some) = some res ∧
      Aggregated objectives perfs res.1 s.aggType := by
  have hnat : s.trialPerPoint.toNat = perfs.length := by omega
  have htake : (perfs.map some).take perfs.length = perfs.map some := by
    rw [List.take_of_length_le (by rw [List.length_map])]
  have hcons : ∀ p ∈ perf :: perfs, p ∈ perfs := by
    intro p hp
    obtain rfl | hp := List.mem_cons.mp hp
    · exact hperf
    · exact hp
  have hlen : ∀ a ∈ perf :: perfs, ∀ b ∈ perfs, a.p.length = b.p.length :=
    fun a ha b hb => (hperfs a (hcons a ha)).trans (hperfs b hb).symm
  cases htype : s.aggType with
  | unknown => exact absurd htype hknown
  | min =>
    unfold aggregate
    rw [hnat, htake, mapM_some, Option.bind_some, htype]
    refine ⟨_, rfl, ?_⟩
    have hleast := @ArgMin.foldl_least _ _ _ hperfUnify
      (fun best p : HPerf K => if 0 < hperfCmp best p then p else best) perf perfs (by
        intro a ha b hb
        have hcmp := hperfCmp_pos (hlen a ha b hb)
        by_cases hlt : 0 < hperfCmp a b
        · right
          exact ⟨if_pos hlt, (hcmp.mp hlt).le⟩
        · left
          exact ⟨if_neg hlt, not_lt.mp fun h => hlt (hcmp.mpr h)⟩)
    exact ⟨hcons _ hleast.1, fun p hp => hleast.2 p (List.mem_cons_of_mem perf hp)⟩
  | max =>
    unfold aggregate
    rw [hnat, htake, mapM_some, Option.bind_some, htype]
    refine ⟨_, rfl, ?_⟩
    have hgreatest := @ArgMin.foldl_greatest _ _ _ hperfUnify
      (fun best p : HPerf K => if hperfCmp best p < 0 then p else best) perf perfs (by
        intro a ha b hb
        have hcmp := hperfCmp_neg (hlen a ha b hb)
        by_cases hlt : hperfCmp a b < 0
        · right
          exact ⟨if_pos hlt, (hcmp.mp hlt).le⟩
        · left
          exact ⟨if_neg hlt, not_lt.mp fun h => hlt (hcmp.mpr h)⟩)
    exact ⟨hcons _ hgreatest.1, fun p hp => hgreatest.2 p (List.mem_cons_of_mem perf hp)⟩
  | mean =>
    have hsize := hperfs perf hperf
    unfold aggregate
    rw [hnat, htake, mapM_some, Option.bind_some, htype, hn]
    simp only
    rw [perfMean_eq perfs.length le_rfl fun p hp => (hperfs p hp).trans hsize.symm, hsize]
    refine ⟨_, rfl, ?_⟩
    rw [List.take_length]
    rfl
  | median =>
    by_cases htwo : 2 ≤ perfs.length
    · obtain ⟨sorted, low, high, hperm, hpairwise, hlow, hhigh, hagg⟩ :=
        aggregate_median perfs htype hn htwo (hperfs perf hperf) hperfs
      refine ⟨_, hagg, sorted, hperm, hpairwise, ?_⟩
      exact medianPerf_middle hperm.length_eq hlow hhigh
        (fun p hp => hperfs p (hperm.mem_iff.mp hp)) (hright htype)
    · -- the only measurement has no values
      have hzero : objectives = 0 := by
        obtain h | h | h := hright htype <;> omega
      obtain ⟨p, rfl⟩ := List.length_eq_one_iff.mp (show perfs.length = 1 by
        have := List.length_pos_of_mem hperf
        omega)
      rw [List.mem_singleton] at hperf
      subst hperf
      have hempty : perf.p.isEmpty := by
        rw [List.isEmpty_iff]
        exact List.length_eq_zero_iff.mp ((hperfs perf List.mem_cons_self).trans hzero)
      refine ⟨(perf, [some perf]), ?_, [perf], List.Perm.refl _, List.pairwise_singleton _ _, ?_⟩
      swap
      · left
        simp
      unfold aggregate perfMean
      rw [hnat, htake, mapM_some, Option.bind_some, htype, hn]
      simp [hempty]

/-! ## A call of `agg_analyze` -/

/-- The call that completes a point. -/
lemma aggAnalyze_last {world : World (τ × Layer K)} {trial : HTrial V K} {mine : List (HPerf K)}
    (h : Collected world.plug.2 trial.point.id mine)
    (hn : world.plug.2.trialPerPoint = (mine.length + 1 : ℕ)) (hknown : world.plug.2.aggType ≠ .unknown)
    (flow : Flow V) :
    ∃ put : List (Option (HPerf K)) → World (τ × Layer K), aggAnalyze world flow trial =
      (aggregate world.plug.2 trial.perf ((mine ++ [trial.perf]).map some)).map fun res =>
        (0, put res.2, { flow with status := .accept }, res.1) := by
  obtain ⟨stores, i, store, cells, -, -, -, -, -, hcall⟩ :=
    aggAnalyze_collected h hn (Nat.lt_succ_self _) hknown flow
  simp only [lt_irrefl, if_false] at hcall
  exact ⟨fun trial' => withLayer world { world.plug.2 with
    slist := (world.plug.2.slist ++ stores).set i { id := -1, count := 0, trial := trial' } }, hcall⟩

/-! ## Measurements with a wrong median -/

/-- A performance whose values are all the same. -/
def constPerf (objectives : ℕ) (x : K) : HPerf K := { p := List.replicate objectives x }

omit [LinearOrder K] in
@[simp]
lemma hperfUnify_constPerf (x : K) : hperfUnify (constPerf objectives x) = objectives * x := by
  unfold hperfUnify constPerf
  rw [← List.sum_eq_foldl, List.sum_replicate, nsmul_eq_mul]

omit [Field K] [LinearOrder K] in
lemma constPerf_inj (hpos : objectives ≠ 0) {x y : K} (h : constPerf objectives x = constPerf objectives y) :
    x = y := by
  have hp : List.replicate objectives x = List.replicate objectives y := congrArg HPerf.p h
  have hmem : x ∈ List.replicate objectives y := by
    rw [← hp]
    exact List.mem_replicate.mpr ⟨hpos, rfl⟩
  exact List.eq_of_mem_replicate hmem

omit [LinearOrder K] in
lemma objectiveSums_constPerf (x y : K) :
    objectiveSums objectives [constPerf objectives x, constPerf objectives y] =
      List.replicate objectives (x + y) := by
  unfold objectiveSums
  apply List.ext_getElem
  · simp
  · intro j hj _
    have hj' : j < objectives := by simpa using hj
    simp [constPerf, List.getD_eq_getElem?_getD, List.getElem?_replicate, hj']

/-- As many performances of zeros as of ones, or one more. -/
def stepPerfs (n objectives : ℕ) : List (HPerf K) :=
  List.replicate ((n + 1) / 2) (constPerf objectives 0) ++ List.replicate (n / 2) (constPerf objectives 1)

omit [LinearOrder K] in
lemma stepPerfs_length (n : ℕ) : (stepPerfs n objectives : List (HPerf K)).length = n := by
  unfold stepPerfs
  rw [List.length_append, List.length_replicate, List.length_replicate]
  omega

omit [LinearOrder K] in
lemma mem_stepPerfs {n : ℕ} {p : HPerf K} (hp : p ∈ stepPerfs n objectives) :
    p = constPerf objectives 0 ∨ p = constPerf objectives 1 := by
  obtain hp | hp := List.mem_append.mp hp
  · exact Or.inl (List.eq_of_mem_replicate hp)
  · exact Or.inr (List.eq_of_mem_replicate hp)

omit [LinearOrder K] in
lemma stepPerfs_sized {n : ℕ} {p : HPerf K} (hp : p ∈ stepPerfs n objectives) : p.p.length = objectives := by
  obtain rfl | rfl := mem_stepPerfs hp
  · exact List.length_replicate
  · exact List.length_replicate

omit [LinearOrder K] in
lemma stepPerfs_low {n i : ℕ} (hi : i < (n + 1) / 2) :
    (stepPerfs n objectives)[i]? = some (constPerf objectives (0 : K)) := by
  unfold stepPerfs
  rw [List.getElem?_append_left (by rw [List.length_replicate]; exact hi), List.getElem?_replicate,
    if_pos hi]

omit [LinearOrder K] in
lemma stepPerfs_high {n i : ℕ} (hi : (n + 1) / 2 ≤ i) (hn : i < n) :
    (stepPerfs n objectives)[i]? = some (constPerf objectives (1 : K)) := by
  unfold stepPerfs
  rw [List.getElem?_append_right (by rw [List.length_replicate]; exact hi), List.length_replicate,
    List.getElem?_replicate, if_pos (by omega)]

variable [IsStrictOrderedRing K]

/-- There is one way to sort them. -/
lemma stepPerfs_unique {n : ℕ} (hpos : objectives ≠ 0) {sorted : List (HPerf K)}
    (hperm : sorted.Perm (stepPerfs n objectives))
    (hpairwise : sorted.Pairwise fun a b => hperfUnify a ≤ hperfUnify b) :
    sorted = stepPerfs n objectives := by
  have hunify : hperfUnify (constPerf objectives (0 : K)) < hperfUnify (constPerf objectives (1 : K)) := by
    rw [hperfUnify_constPerf, hperfUnify_constPerf, mul_zero, mul_one]
    exact Nat.cast_pos.mpr (Nat.pos_of_ne_zero hpos)
  apply List.Perm.eq_of_pairwise _ hpairwise _ hperm
  · intro a b ha hb hab hba
    obtain rfl | rfl := mem_stepPerfs (hperm.mem_iff.mp ha)
    · obtain rfl | rfl := mem_stepPerfs hb
      · rfl
      · exact absurd hba (not_le.mpr hunify)
    · obtain rfl | rfl := mem_stepPerfs hb
      · exact absurd hab (not_le.mpr hunify)
      · rfl
  · unfold stepPerfs
    rw [List.pairwise_append]
    refine ⟨List.pairwise_replicate.mpr (Or.inr le_rfl), List.pairwise_replicate.mpr (Or.inr le_rfl), ?_⟩
    intro a ha b hb
    rw [List.eq_of_mem_replicate ha, List.eq_of_mem_replicate hb]
    exact hunify.le

/-- Their median is not the one that is left in the trial. -/
lemma medianPerf_wrong {n : ℕ} (hpos : objectives ≠ 0) (htwo : 3 ≤ n) (hthree : n % 4 ≠ 3) :
    ¬Middle objectives (stepPerfs n objectives)
      (medianPerf objectives n (constPerf objectives 0) (constPerf objectives (1 : K))) := by
  have hhalf : (0 : K) < ((n : ℕ) : K) := Nat.cast_pos.mpr (by omega)
  have hsums : ∀ k : K, (objectiveSums objectives [constPerf objectives 0, constPerf objectives (1 : K)]).map
      (· / k) = List.replicate objectives (1 / k) := by
    intro k
    rw [objectiveSums_constPerf, List.map_replicate, zero_add]
  intro hmiddle
  unfold Middle medianPerf at hmiddle
  rw [stepPerfs_length] at hmiddle
  obtain ⟨hodd, hvalue⟩ | ⟨heven, low, high, hlow, hhigh, hvalue⟩ := hmiddle
  · rw [stepPerfs_low (by omega), if_neg (by omega), hsums] at hvalue
    have heq := constPerf_inj hpos (Option.some.inj hvalue)
    exact absurd heq.symm (one_div_pos.mpr hhalf).ne'
  · rw [stepPerfs_low (by omega)] at hlow
    rw [stepPerfs_high (by omega) (by omega)] at hhigh
    obtain rfl := Option.some.inj hlow
    obtain rfl := Option.some.inj hhigh
    unfold meanPerf at hvalue
    by_cases hfour : (n - 1) / 2 % 2 = 1
    · rw [if_pos hfour, hsums] at hvalue
      have heq := constPerf_inj hpos hvalue
      simp at heq
    · rw [if_neg hfour, hsums, hsums] at hvalue
      have heq := constPerf_inj hpos hvalue
      rw [one_div, one_div, inv_inj, Nat.cast_inj] at heq
      simp at heq
      omega

/-! ## When `agg_analyze` is right -/

/-- The slot of a point whose last measurement is missing. -/
def waitingSlots (mine : List (HPerf K)) : List (Store K) :=
  if mine = [] then []
  else [{ id := 0, count := mine.length, trial := mine.map some ++ [none] }]

omit [Field K] [LinearOrder K] [IsStrictOrderedRing K] in
lemma collected_waitingSlots {s : Layer K} {mine : List (HPerf K)}
    (hn : s.trialPerPoint = (mine.length + 1 : ℕ)) (hslist : s.slist = waitingSlots mine) :
    Collected s 0 mine := by
  unfold waitingSlots at hslist
  constructor
  · intro store hfind
    rw [hslist] at hfind
    split_ifs at hfind with hnil
    · exact absurd (List.mem_of_find?_eq_some hfind) List.not_mem_nil
    · obtain rfl := List.mem_singleton.mp (List.mem_of_find?_eq_some hfind)
      refine ⟨by simp [hn], Or.inr ⟨rfl, by decide, hnil, rfl, ?_⟩⟩
      rw [List.take_append_of_le_length (by rw [List.length_map]),
        List.take_of_length_le (by rw [List.length_map])]
  · intro hnone
    by_contra hne
    rw [hslist, if_neg hne] at hnone
    simp at hnone

omit [IsStrictOrderedRing K] in
/-- The median of a single measurement is made of it and of what follows its cell. -/
lemma aggregate_median_one {s : Layer K} (htype : s.aggType = .median) (hn : s.trialPerPoint = 1)
    (hperf : ¬perf.p.isEmpty) (only : HPerf K) : aggregate s perf [some only] = none := by
  unfold aggregate perfMean
  rw [htype, hn]
  simp [hperf]

lemma aggregate_stepPerfs {s : Layer K} (htype : s.aggType = .median) {n : ℕ} (hs : s.trialPerPoint = n)
    (htwo : 2 ≤ n) (hpos : objectives ≠ 0) (hperf : perf.p.length = objectives) :
    ∃ cells, aggregate s perf ((stepPerfs n objectives).map some) =
      some (medianPerf objectives n (constPerf objectives 0) (constPerf objectives 1), cells) := by
  have hlen := @stepPerfs_length K _ objectives n
  obtain ⟨sorted, low, high, hperm, hpairwise, hlow, hhigh, hagg⟩ :=
    aggregate_median (stepPerfs n objectives) htype (by rw [hs, hlen]) (by omega) hperf
      fun p => stepPerfs_sized
  obtain rfl := stepPerfs_unique hpos hperm hpairwise
  rw [hlen] at hlow hhigh hagg
  rw [stepPerfs_low (by omega)] at hlow
  rw [stepPerfs_high (by omega) (by omega)] at hhigh
  rw [← Option.some.inj hlow, ← Option.some.inj hhigh] at hagg
  exact ⟨_, hagg⟩

lemma medianPerf_not_aggregated {n : ℕ} (hpos : objectives ≠ 0) (htwo : 3 ≤ n) (hthree : n % 4 ≠ 3) :
    ¬Aggregated objectives (stepPerfs n objectives)
      (medianPerf objectives n (constPerf objectives 0) (constPerf objectives (1 : K))) .median := by
  rintro ⟨sorted, hperm, hpairwise, hmiddle⟩
  obtain rfl := stepPerfs_unique hpos hperm hpairwise
  exact medianPerf_wrong hpos htwo hthree hmiddle

/-- Right is every aggregating function but the median, which is right for two measurements and for
numbers of measurements that leave the remainder three on division by four. -/
theorem agg_analyze_aggregates_iff (world₀ : World (τ × Layer K)) (flow : Flow V) {aggType : AggFunc}
    (hknown : aggType ≠ .unknown) {n : ℕ} (hn : 1 ≤ n) (objectives : ℕ) :
    (∀ (s : Layer K) (trial : HTrial V K) (mine : List (HPerf K)), s.aggType = aggType →
      s.trialPerPoint = n → Collected s trial.point.id mine → mine.length + 1 = n →
      (∀ perf ∈ mine ++ [trial.perf], perf.p.length = objectives) →
      ∃ world' perf, aggAnalyze (withLayer world₀ s) flow trial =
          some (0, world', { flow with status := .accept }, perf) ∧
        Aggregated objectives (mine ++ [trial.perf]) perf aggType) ↔
    RightFor aggType n objectives := by
  constructor
  · intro hall hmedian
    by_contra hcond
    have hpos : objectives ≠ 0 := fun h => hcond (Or.inr (Or.inr h))
    have hne : (stepPerfs n objectives : List (HPerf K)) ≠ [] :=
      List.ne_nil_of_length_pos (by rw [stepPerfs_length]; exact hn)
    have hperfs := List.dropLast_append_getLast hne
    have hmine : (stepPerfs n objectives : List (HPerf K)).dropLast.length + 1 = n := by
      rw [List.length_dropLast, stepPerfs_length]
      omega
    generalize (stepPerfs n objectives : List (HPerf K)).dropLast = mine at hperfs hmine
    generalize (stepPerfs n objectives : List (HPerf K)).getLast hne = last at hperfs
    let s : Layer K := { aggType := .median, trialPerPoint := n, slist := waitingSlots mine }
    let trial : HTrial V K := { point := { id := 0, val := [] }, perf := last }
    have hs : s.trialPerPoint = (mine.length + 1 : ℕ) := congrArg Nat.cast hmine.symm
    have hsized : ∀ perf ∈ mine ++ [last], perf.p.length = objectives := by
      rw [hperfs]
      exact fun perf => stepPerfs_sized
    have hcollected : Collected s 0 mine := collected_waitingSlots hs rfl
    obtain ⟨world', perf, hanswer, hvalue⟩ := hall s trial mine hmedian.symm rfl hcollected hmine hsized
    obtain ⟨put, hcall⟩ := @aggAnalyze_last τ V K _ _ (withLayer world₀ s) trial mine hcollected hs
      AggFunc.noConfusion flow
    rw [hanswer] at hcall
    rw [hmedian] at hvalue
    rw [withLayer_plug, hperfs] at hcall
    rw [hperfs] at hvalue
    have hlast := hsized last (List.mem_append_right mine (List.mem_singleton.mpr rfl))
    by_cases hone : n = 1
    · -- the cell after the only one is read
      obtain ⟨only, honly⟩ := List.length_eq_one_iff.mp ((@stepPerfs_length K _ objectives n).trans hone)
      have hnonempty : ¬last.p.isEmpty := by
        rw [List.isEmpty_iff_length_eq_zero, hlast]
        exact hpos
      rw [honly, List.map_singleton, aggregate_median_one rfl (by simp [s, hone]) hnonempty] at hcall
      exact absurd hcall (Option.some_ne_none _)
    · have htwo : n ≠ 2 := fun h => hcond (Or.inl h)
      obtain ⟨cells, hagg⟩ := @aggregate_stepPerfs K _ _ objectives last _ s rfl n rfl (by omega) hpos hlast
      rw [hagg] at hcall
      have hperf := congrArg (fun answer => answer.2.2.2) (Option.some.inj hcall)
      rw [show perf = _ from hperf] at hvalue
      exact medianPerf_not_aggregated hpos (by omega) (fun h => hcond (Or.inr (Or.inl h))) hvalue
  · intro hright s trial mine htype hs hcollected hlen hsized
    subst htype hlen
    obtain ⟨put, hcall⟩ :=
      @aggAnalyze_last τ V K _ _ (withLayer world₀ s) trial mine hcollected hs hknown flow
    obtain ⟨res, hagg, hvalue⟩ := aggregate_right (mine ++ [trial.perf]) (by simpa using hs)
      (List.mem_append_right mine (List.mem_singleton.mpr rfl)) hsized hknown (by simpa using hright)
    rw [withLayer_plug, hagg] at hcall
    exact ⟨_, _, hcall, hvalue⟩

/-- Performances of one objective. -/
def measured (values : List ℚ) : List (HPerf ℚ) := values.map (constPerf 1)

/-- The layer that takes medians, with the measurements of a point but the last. -/
def medianLayer (values : List ℚ) : Layer ℚ :=
  { aggType := .median, trialPerPoint := values.length + 1, slist := waitingSlots (measured values) }

/-- The world with this layer. -/
def medianWorld (values : List ℚ) : World (Unit × Layer ℚ) :=
  { plug := ((), medianLayer values), cfg := hcfgAlloc, errmsg := none }

/-- The median of three measurements. -/
theorem agg_analyze_aggregates_three : ∃ world' perf,
    aggAnalyze (medianWorld [5, 1]) acceptFlow (trialOf 0 3) =
        some (0, world', { acceptFlow with status := .accept }, perf) ∧
      Aggregated 1 (measured [5, 1, 3]) perf .median := by
  have hright := (@agg_analyze_aggregates_iff Unit ℚ ℚ _ _ _ (medianWorld []) acceptFlow .median (by decide) 3
    (by decide) 1).mpr (fun _ => Or.inr (Or.inl rfl))
  exact hright (medianLayer [5, 1]) (trialOf 0 3) (measured [5, 1]) rfl rfl
    (collected_waitingSlots rfl rfl) rfl (by simp [trialOf, measured, constPerf])

/-- The median of three zeros and two ones is a fifth. -/
theorem agg_analyze_median_of_five : ∃ world',
    aggAnalyze (medianWorld [0, 0, 0, 1]) acceptFlow (trialOf 0 1) =
        some (0, world', { acceptFlow with status := .accept }, { p := [1 / 5] }) ∧
      ¬Aggregated 1 (measured [0, 0, 0, 1, 1]) { p := [1 / 5] } .median := by
  have hvalue : medianPerf 1 5 (constPerf 1 0) (constPerf 1 (1 : ℚ)) = { p := [1 / 5] } := by decide +kernel
  have hwrong := @medianPerf_not_aggregated ℚ _ _ 1 _ 5 (by decide) (by decide) (by decide)
  obtain ⟨put, hcall⟩ := @aggAnalyze_last Unit ℚ ℚ _ _ (medianWorld [0, 0, 0, 1]) (trialOf 0 1)
    (measured [0, 0, 0, 1]) (collected_waitingSlots rfl rfl) rfl (by decide) acceptFlow
  obtain ⟨cells, hagg⟩ := @aggregate_stepPerfs ℚ _ _ 1 (constPerf 1 1) _ (medianLayer [0, 0, 0, 1]) rfl 5 rfl
    (by decide) (by decide) rfl
  rw [hvalue] at hwrong hagg
  refine ⟨put cells, hcall.trans ?_, hwrong⟩
  exact congrArg (Option.map _) hagg

end ActiveHarmony.Agg

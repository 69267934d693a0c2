import ActiveHarmony.Layer.CacheCalls

/-!
# The turns of the cache

A point with several entries gets them in turn, told by the counter of its visits. The counter starts over in
two places: after a lookup that found too few entries it goes to the first one, before a later lookup to the
second one. So the first two rounds go over all entries, and every later round leaves out the first one.
-/

namespace ActiveHarmony

/-- The place of the entry that the `n`-th visit gets, of `k` entries. -/
def visitTurn (k n : ℕ) : ℕ := if k = 1 ∨ n ≤ 2 * k then (n - 1) % k else 1 + (n - 2 * k - 1) % (k - 1)

/-- The counters of a point after `n` visits. -/
def Counters (k n count totalNum : ℕ) : Prop :=
  totalNum = (if n ≤ k then 0 else k) ∧ (count = visitTurn k n + 2 ∨ k = 1 ∧ n = 2 ∧ count = 1)

section

variable {k n count totalNum : ℕ}

lemma visitTurn_one (n : ℕ) : visitTurn 1 n = 0 := by
  unfold visitTurn
  rw [if_pos (Or.inl rfl), Nat.mod_one]

lemma visitTurn_first (hn : 0 < n) (hle : n ≤ k) : visitTurn k n = n - 1 := by
  unfold visitTurn
  rw [if_pos (Or.inr (by omega)), Nat.mod_eq_of_lt (by omega)]

lemma visitTurn_second (hlt : k < n) (hle : n ≤ 2 * k) : visitTurn k n = n - 1 - k := by
  unfold visitTurn
  rw [if_pos (Or.inr hle)]
  have hsplit : n - 1 = (n - 1 - k) + k := by omega
  rw [hsplit, Nat.add_mod_right, Nat.mod_eq_of_lt (by omega)]
  omega

/-- From the third round on, the turns go from the second entry to the last one. -/
lemma visitTurn_succ_later (hk : 1 < k) (hlt : 2 * k < n) :
    visitTurn k (n + 1) = if visitTurn k n + 1 = k then 1 else visitTurn k n + 1 := by
  have hnot : ¬(k = 1 ∨ n ≤ 2 * k) := by omega
  have hnot' : ¬(k = 1 ∨ n + 1 ≤ 2 * k) := by omega
  have hnext : n + 1 - 2 * k - 1 = (n - 2 * k - 1) + 1 := by omega
  unfold visitTurn
  rw [if_neg hnot, if_neg hnot', hnext]
  have hmod := Nat.mod_lt (n - 2 * k - 1) (show 0 < k - 1 by omega)
  rw [Nat.add_mod]
  by_cases hwrap : (n - 2 * k - 1) % (k - 1) + 1 = k - 1
  · rw [if_pos (by omega)]
    by_cases htwo : k = 2
    · subst htwo
      simp [Nat.mod_one]
    · rw [Nat.mod_eq_of_lt (show 1 < k - 1 by omega), hwrap, Nat.mod_self]
  · rw [if_neg (by omega)]
    rw [Nat.mod_eq_of_lt (show 1 < k - 1 by omega), Nat.mod_eq_of_lt (show
      (n - 2 * k - 1) % (k - 1) + 1 < k - 1 by omega)]
    omega

/-- The first visit. -/
lemma counters_first (hk : 0 < k) : Counters k 1 2 0 := by
  refine ⟨(if_pos hk).symm, Or.inl ?_⟩
  rw [visitTurn_first Nat.one_pos hk]

/-- The next visit: `wanted` is the number that is looked up first, and the one found is one less than the
counter after the visit. -/
lemma counters_next (hk : 0 < k) (hn : 0 < n) (h : Counters k n count totalNum) {wanted : ℕ}
    (hwanted : wanted = if 0 < totalNum ∧ totalNum < count then count % totalNum + 1 else count) :
    (wanted ≤ k → wanted - 1 = visitTurn k (n + 1) ∧ Counters k (n + 1) (wanted + 1) totalNum) ∧
      (k < wanted → wanted % k - 1 = visitTurn k (n + 1) ∧ Counters k (n + 1) (wanted % k + 1) k) := by
  obtain ⟨htotal, hcount⟩ := h
  obtain rfl | hmany : k = 1 ∨ 1 < k := by omega
  · -- one entry, which is always found
    have hturn := visitTurn_one (n + 1)
    rw [visitTurn_one] at hcount
    unfold Counters
    rw [hturn, Nat.mod_one]
    by_cases hone : n ≤ 1
    · rw [if_pos hone] at htotal
      rw [htotal, if_neg (by omega)] at hwanted
      refine ⟨by omega, fun _ => ⟨rfl, ?_, by omega⟩⟩
      rw [if_neg (by omega)]
    · rw [if_neg hone] at htotal
      rw [if_neg (show ¬n + 1 ≤ 1 by omega)]
      rw [htotal, Nat.mod_one] at hwanted
      split_ifs at hwanted
      · omega
      · omega
  · have hcount : count = visitTurn k n + 2 := by omega
    obtain hle | hlt := Nat.lt_or_ge n k
    · -- the first round
      rw [if_pos hle.le] at htotal
      rw [htotal, if_neg (by omega)] at hwanted
      have hturn := visitTurn_first hn hle.le
      have hturn' := visitTurn_first (show 0 < n + 1 by omega) hle
      refine ⟨fun _ => ⟨by omega, ?_, by omega⟩, by omega⟩
      rw [htotal, if_pos (by omega)]
    · have hturn' : n = k ∨ k < n := by omega
      obtain rfl | hlater := hturn'
      · -- the end of the first round: the lookup finds too few
        rw [if_pos (le_refl n)] at htotal
        rw [htotal, if_neg (by omega)] at hwanted
        have hturn := visitTurn_first hn (le_refl n)
        have hturn' := visitTurn_second (show n < n + 1 by omega) (by omega)
        have hmod : wanted % n = 1 := by
          have hsum : wanted = 1 + n := by omega
          rw [hsum, Nat.add_mod_right, Nat.mod_eq_of_lt hmany]
        refine ⟨by omega, fun _ => ⟨by omega, ?_, by omega⟩⟩
        rw [if_neg (by omega)]
      · rw [if_neg (by omega)] at htotal
        subst htotal
        have htotal' : totalNum = if n + 1 ≤ totalNum then 0 else totalNum := (if_neg (by omega)).symm
        by_cases hsecond : n < 2 * totalNum
        · -- the second round
          have hturn := visitTurn_second hlater hsecond.le
          have hturn' := visitTurn_second (show totalNum < n + 1 by omega) (by omega)
          rw [if_neg (by omega)] at hwanted
          exact ⟨fun _ => ⟨by omega, htotal', by omega⟩, by omega⟩
        · -- the counter starts over at the second entry
          have hstep : visitTurn totalNum (n + 1) = if visitTurn totalNum n + 1 = totalNum then 1
              else visitTurn totalNum n + 1 := by
            obtain heq | hgt : n = 2 * totalNum ∨ 2 * totalNum < n := by omega
            · have hturn := visitTurn_second hlater heq.le
              rw [if_pos (by omega)]
              unfold visitTurn
              rw [if_neg (by omega), heq, show 2 * totalNum + 1 - 2 * totalNum - 1 = 0 by omega,
                Nat.zero_mod]
            · exact visitTurn_succ_later hmany hgt
          by_cases hwrap : visitTurn totalNum n + 1 = totalNum
          · rw [if_pos hwrap] at hstep
            have hmod : count % totalNum = 1 := by
              have hsum : count = 1 + totalNum := by omega
              rw [hsum, Nat.add_mod_right, Nat.mod_eq_of_lt hmany]
            rw [if_pos (by omega), hmod] at hwanted
            exact ⟨fun _ => ⟨by omega, htotal', by omega⟩, by omega⟩
          · rw [if_neg hwrap] at hstep
            have hle : visitTurn totalNum n + 1 ≤ totalNum := by
              unfold visitTurn
              split_ifs
              · exact Nat.mod_lt _ hk
              · have hmod := Nat.mod_lt (n - 2 * totalNum - 1) (show 0 < totalNum - 1 by omega)
                omega
            rw [if_neg (by omega)] at hwanted
            exact ⟨fun _ => ⟨by omega, htotal', by omega⟩, by omega⟩

end

/-! ## The record of a visited point -/

section

variable {τ V W : Type} [LinearOrder V] {s s' : Cache V W} {pt pt' : HPoint V} {k n : ℕ} {owed : Bool}

lemma ptEquiv_same (h : SameValues pt pt') (other : HPoint V) : ptEquiv pt other = ptEquiv pt' other := by
  rw [Bool.eq_iff_iff, ptEquiv_iff, ptEquiv_iff]
  exact ⟨h.symm.trans, h.trans⟩

lemma findVisited_same (h : SameValues pt pt') : findVisited s pt = findVisited s pt' := by
  unfold findVisited
  simp only [ptEquiv_same h]

lemma occurrences_same (h : SameValues pt pt') (entries : List (CacheEntry V W)) :
    occurrences pt entries = occurrences pt' entries := by
  unfold occurrences
  simp only [ptEquiv_same h]

/-- `find_visited` looks at the points only. -/
lemma findVisited_points (h : s'.visited.map Visited.point = s.visited.map Visited.point) (pt : HPoint V) :
    findVisited s' pt = findVisited s pt := by
  have hpoints : ∀ s : Cache V W, findVisited s pt = (s.visited.map Visited.point).findIdx? (ptEquiv pt) := by
    intro s
    unfold findVisited
    rw [List.findIdx?_map]
    rfl
  rw [hpoints, hpoints, h]

lemma VisitedAt.same {i : ℕ} {v : Visited V} (h : VisitedAt s pt i v) : SameValues pt v.point := by
  obtain ⟨hfind, hat⟩ := h
  obtain ⟨hlt, hequiv, -⟩ := List.findIdx?_eq_some_iff_getElem.mp hfind
  rw [List.getElem?_eq_getElem hlt] at hat
  rw [← Option.some.inj hat]
  exact (ptEquiv_iff _ _).mp hequiv

/-- Points with other values have their records elsewhere. -/
lemma VisitedAt.ne {i j : ℕ} {v u : Visited V} (h : VisitedAt s pt i v) (h' : VisitedAt s pt' j u)
    (hne : ¬SameValues pt pt') : i ≠ j := by
  intro heq
  subst heq
  have hvu := h.2
  rw [h'.2] at hvu
  obtain rfl := Option.some.inj hvu
  exact hne (h.same.trans h'.same.symm)

/-- The counters tell how often the point was generated. They are one behind while its analysis is owed, and
its first visit is entered by the analysis. -/
inductive Told (pt : HPoint V) (k : ℕ) (s : Cache V W) : ℕ → Bool → Prop
  | new : findVisited s pt = none → Told pt k s 0 false
  | seen {n i : ℕ} {v : Visited V} : 0 < n → VisitedAt s pt i v → Counters k n v.count v.totalNum →
      Told pt k s n false
  | firstHit : findVisited s pt = none → Told pt k s 1 true
  | hit {n i : ℕ} {v : Visited V} : 0 < n → VisitedAt s pt i v → Counters k n (v.count + 1) v.totalNum →
      Told pt k s n true

/-- Calls for other points leave the record as it is. -/
lemma Told.frame (h : Told pt k s n owed) (hfind : findVisited s' pt = findVisited s pt)
    (hat : ∀ i v, VisitedAt s pt i v → s'.visited[i]? = some v) : Told pt k s' n owed := by
  cases h with
  | new hnone => exact Told.new (hfind.trans hnone)
  | seen hn hv hcounters => exact Told.seen hn ⟨hfind.trans hv.1, hat _ _ hv⟩ hcounters
  | firstHit hnone => exact Told.firstHit (hfind.trans hnone)
  | hit hn hv hcounters => exact Told.hit hn ⟨hfind.trans hv.1, hat _ _ hv⟩ hcounters

variable {world : World (τ × Cache V W)} {flow : Flow V} {trial : HTrial V W}

variable (flow) in
/-- `cache_generate` for the point: the next turn, and its analysis is owed. -/
lemma Told.generate (h : Told pt k world.plug.2 n false) (hsame : SameValues pt trial.point)
    (hopen : world.converged = false) (hcached : Cached world.plug.2 pt)
    (hk : k = (occurrences pt world.plug.2.cache).length) :
    ∃ visited perf, cacheGenerate world flow trial = cacheHit world flow visited perf ∧
      (occurrences pt world.plug.2.cache)[visitTurn k (n + 1)]? = some perf ∧
      Told pt k { world.plug.2 with visited := visited, skip := true } (n + 1) true := by
  have hcached' := hcached.of_same hsame.symm
  have hpos : 0 < k := by
    rw [hk]
    exact List.length_pos_of_ne_nil (cached_iff.mp hcached)
  have hoccurrences := occurrences_same hsame world.plug.2.cache
  cases h with
  | new hnone =>
    have hnone' : findVisited world.plug.2 trial.point = none := by
      rw [← findVisited_same hsame]
      exact hnone
    obtain ⟨perf, hperf, hhit, -⟩ := cacheGenerate_first flow hopen hnone' hcached'
    refine ⟨_, perf, hhit, ?_, Told.firstHit hnone⟩
    rw [hoccurrences, visitTurn_first Nat.one_pos hpos]
    exact hperf
  | seen hn hat hcounters =>
    rename_i i v
    have hat' : VisitedAt world.plug.2 trial.point i v := by
      refine ⟨?_, hat.2⟩
      rw [← findVisited_same hsame]
      exact hat.1
    obtain ⟨_, perf, count, totalNum, -, hnear, hpast, hperf, hhit, -⟩ :=
      cacheGenerate_visited flow hopen hat' hcached'
    rw [← hoccurrences, ← hk] at hnear hpast
    rw [← hoccurrences] at hperf
    obtain ⟨hnext, hnext'⟩ := counters_next hpos hn hcounters (show v.wanted = _ from rfl)
    have hturn : count - 1 = visitTurn k (n + 1) ∧ Counters k (n + 1) (count + 1) totalNum := by
      by_cases hle : v.wanted ≤ k
      · obtain ⟨rfl, rfl⟩ := hnear hle
        exact hnext hle
      · obtain ⟨rfl, rfl⟩ := hpast (not_le.mp hle)
        exact hnext' (not_le.mp hle)
    refine ⟨_, perf, hhit, ?_, Told.hit (i := i) (v := { v with count := count, totalNum := totalNum })
      (Nat.succ_pos n) ⟨?_, ?_⟩ hturn.2⟩
    · rw [← hturn.1]
      exact hperf
    · have hpoints : (world.plug.2.visited.set i { v with count := count, totalNum := totalNum }).map
          Visited.point = world.plug.2.visited.map Visited.point := map_point_set hat.2 rfl
      exact (findVisited_points hpoints pt).trans hat.1
    · exact List.getElem?_set_self (List.getElem?_eq_some_iff.mp hat.2).1

/-- `cache_generate` for another point. -/
lemma Told.generate_other (h : Told pt k world.plug.2 n false) (hother : ¬SameValues pt trial.point)
    (hflow : flow.status = .accept) : Told pt k (generateCall world flow trial).after n false := by
  obtain ⟨ret, hcall⟩ | ⟨visited, perf, hcall, hset⟩ := cacheGenerate_cases world trial hflow
  · rw [(generateCall_same hflow hcall).1]
    exact h
  · rw [(generateCall_hit hcall).1]
    obtain rfl | ⟨j, u, u', hat, hpoint, rfl⟩ := hset
    · exact h.frame rfl fun i v hv => hv.2
    · apply h.frame
      · exact findVisited_points (map_point_set hat.2 hpoint) pt
      · intro i v hv
        have hne := (hv.ne hat hother).symm
        exact (List.getElem?_set_ne hne).trans hv.2

/-- The analysis of the point that is owed. -/
lemma Told.analyze (h : Told pt k world.plug.2 n true) (hsame : SameValues pt trial.point)
    (hid : trial.point.id ≠ -1) (hk : 0 < k) : Told pt k (analyzeCall world flow trial).after n false := by
  have hfind := findVisited_same (s := world.plug.2) hsame
  cases h with
  | firstHit hnone =>
    have hvisited := analyzeCall_new flow hid (hfind.symm.trans hnone)
    refine Told.seen (i := world.plug.2.visited.length)
      (v := { point := trial.point, count := 2, totalNum := 0 }) Nat.one_pos ⟨?_, ?_⟩ (counters_first hk)
    · unfold findVisited at hnone ⊢
      rw [hvisited, List.findIdx?_append, hnone]
      simp [List.findIdx?_cons, (ptEquiv_iff _ _).mpr hsame]
    · rw [hvisited, List.getElem?_concat_length]
  | hit hn hat hcounters =>
    rename_i i v
    obtain ⟨hvisited, hpoints⟩ := analyzeCall_again flow (hfind.symm.trans hat.1)
    refine Told.seen (i := i) (v := { v with count := v.count + 1 }) hn ⟨?_, ?_⟩ hcounters
    · exact (findVisited_points hpoints pt).trans hat.1
    · rw [hvisited, List.getElem?_modify_eq, hat.2]
      rfl

/-- The analysis of another point. -/
lemma Told.analyze_other (h : Told pt k world.plug.2 n owed) (hother : ¬SameValues pt trial.point)
    (hid : trial.point.id ≠ -1) : Told pt k (analyzeCall world flow trial).after n owed := by
  have hequiv : ptEquiv pt trial.point = false := by
    rw [Bool.eq_false_iff, Ne, ptEquiv_iff]
    exact hother
  cases hfind : findVisited world.plug.2 trial.point with
  | none =>
    have hvisited := analyzeCall_new flow hid hfind
    apply h.frame
    · unfold findVisited
      rw [hvisited, List.findIdx?_append]
      simp [List.findIdx?_cons, hequiv]
    · intro i v hv
      rw [hvisited, List.getElem?_append_left (List.getElem?_eq_some_iff.mp hv.2).1]
      exact hv.2
  | some j =>
    obtain ⟨hlt, -, -⟩ := List.findIdx?_eq_some_iff_getElem.mp hfind
    have hat : VisitedAt world.plug.2 trial.point j world.plug.2.visited[j] :=
      ⟨hfind, List.getElem?_eq_getElem hlt⟩
    obtain ⟨hvisited, hpoints⟩ := analyzeCall_again flow hfind
    apply h.frame
    · exact findVisited_points hpoints pt
    · intro i v hv
      rw [hvisited, List.getElem?_modify_ne _ _ (hv.ne hat hother).symm]
      exact hv.2

/-! ## Runs -/

/-- The calls of `cache_generate` for a point. -/
def visits (pt : HPoint V) (calls : List (CacheCall V W)) : List (CacheCall V W) :=
  calls.filter fun call => !call.analysis && ptEquiv pt call.trial.point

/-- The point is analyzed only after it was generated, in the next call. -/
def InPairs (pt : HPoint V) (calls : List (CacheCall V W)) : Prop :=
  ∀ call ∈ calls, call.analysis = true → call.before.skip = false → ¬SameValues pt call.trial.point

/-- What holds of a point with the occurrences `occ` in a run. -/
structure TurnInv (pt : HPoint V) (occ : List (HPerf W)) (calls : List (CacheCall V W)) (s : Cache V W)
    (due : Option (HTrial V W)) : Prop where
  cache : occurrences pt s.cache = occ
  told : ∃ owed, Told pt occ.length s (visits pt calls).length owed ∧
    (owed = true ↔ ∃ t ∈ due, SameValues pt t.point)
  replayed : ∀ (m : ℕ) call, (visits pt calls)[m]? = some call →
    occ[visitTurn occ.length (m + 1)]? = some call.perf

variable {start : Cache V W} {calls : List (CacheCall V W)} {occ : List (HPerf W)}
  {due : Option (HTrial V W)}

lemma visits_concat {call : CacheCall V W} (hkind : call.analysis = false)
    (hsame : SameValues pt call.trial.point) : visits pt (calls ++ [call]) = visits pt calls ++ [call] := by
  unfold visits
  rw [List.filter_append, List.filter_singleton, hkind, (ptEquiv_iff _ _).mpr hsame]
  rfl

lemma visits_concat_other {call : CacheCall V W}
    (hother : call.analysis = true ∨ ¬SameValues pt call.trial.point) :
    visits pt (calls ++ [call]) = visits pt calls := by
  have hfalse : (!call.analysis && ptEquiv pt call.trial.point) = false := by
    rw [Bool.eq_false_iff, Ne, Bool.and_eq_true, Bool.not_eq_true', ptEquiv_iff]
    intro ⟨hkind, hsame⟩
    obtain htrue | hnot := hother
    · rw [hkind] at htrue
      exact absurd htrue Bool.false_ne_true
    · exact hnot hsame
  unfold visits
  rw [List.filter_append, List.filter_singleton, hfalse]
  exact List.append_nil _

lemma TurnInv.generate (h : TurnInv pt occ calls world.plug.2 none) (hocc : occ ≠ [])
    (hflow : flow.status = .accept) (hopen : world.converged = false) :
    TurnInv pt occ (calls ++ [generateCall world flow trial]) (generateCall world flow trial).after
      (generateCall world flow trial).due := by
  obtain ⟨owed, htold, howed⟩ := h.told
  have hfree : owed = false := by
    cases owed with
    | false => rfl
    | true =>
      obtain ⟨t, ht, -⟩ := howed.mp rfl
      exact absurd ht (Option.not_mem_none t)
  subst hfree
  by_cases hsame : SameValues pt trial.point
  · have hvisits : visits pt (calls ++ [generateCall world flow trial]) =
        visits pt calls ++ [generateCall world flow trial] := visits_concat rfl hsame
    have hcached : Cached world.plug.2 pt := by
      apply cached_iff.mpr
      rw [h.cache]
      exact hocc
    obtain ⟨visited, perf, hhit, hperf, htold'⟩ :=
      htold.generate flow hsame hopen hcached (by rw [h.cache])
    obtain ⟨hafter, -, hcallperf, hdue⟩ := generateCall_hit hhit
    rw [h.cache] at hperf
    constructor
    · rw [hafter]
      exact h.cache
    · rw [hvisits, hafter, hdue, List.length_append]
      exact ⟨true, htold', fun _ => ⟨_, rfl, hsame⟩, fun _ => rfl⟩
    · intro m call hcall
      rw [hvisits] at hcall
      obtain hlt | heq | hgt := lt_trichotomy m (visits pt calls).length
      · rw [List.getElem?_append_left hlt] at hcall
        exact h.replayed m call hcall
      · rw [heq, List.getElem?_concat_length] at hcall
        rw [heq, ← Option.some.inj hcall, hcallperf]
        exact hperf
      · rw [List.getElem?_eq_none (by rw [List.length_append, List.length_singleton]; omega)] at hcall
        exact absurd hcall.symm (Option.some_ne_none call)
  · have hvisits : visits pt (calls ++ [generateCall world flow trial]) = visits pt calls :=
      visits_concat_other (Or.inr hsame)
    have hcache : (generateCall world flow trial).after.cache = world.plug.2.cache := by
      obtain ⟨ret, hcall⟩ | ⟨visited, perf, hcall, -⟩ := cacheGenerate_cases world trial hflow
      · rw [(generateCall_same hflow hcall).1]
      · rw [(generateCall_hit hcall).1]
    constructor
    · rw [hcache]
      exact h.cache
    · rw [hvisits]
      refine ⟨false, htold.generate_other hsame hflow, fun hfalse => absurd hfalse Bool.false_ne_true, ?_⟩
      intro ⟨t, ht, htsame⟩
      unfold CacheCall.due at ht
      split_ifs at ht
      · rw [← Option.some.inj ht] at htsame
        exact absurd htsame hsame
      · exact absurd ht (Option.not_mem_none t)
    · rw [hvisits]
      exact h.replayed

lemma TurnInv.analyze (h : TurnInv pt occ calls world.plug.2 due) (hocc : occ ≠ [])
    (hsound : world.plug.2.Sound due) (hdue : ∀ t ∈ due, trial = t) (hid : trial.point.id ≠ -1)
    (hpairs : due = none → ¬SameValues pt trial.point) :
    TurnInv pt occ (calls ++ [analyzeCall world flow trial]) (analyzeCall world flow trial).after none := by
  obtain ⟨owed, htold, howed⟩ := h.told
  have hvisits : visits pt (calls ++ [analyzeCall world flow trial]) = visits pt calls :=
    visits_concat_other (Or.inl rfl)
  have hcache := (hsound.analyze flow hdue hid).2
  constructor
  · rw [hcache]
    cases hcase : due with
    | some t =>
      rw [Option.isSome_some, if_pos rfl]
      exact h.cache
    | none =>
      have hfalse : ptEquiv pt trial.point = false := by
        rw [Bool.eq_false_iff, Ne, ptEquiv_iff]
        exact hpairs hcase
      rw [Option.isSome_none, if_neg Bool.false_ne_true, ← h.cache]
      unfold occurrences
      rw [List.filter_append, List.filter_singleton, hfalse]
      exact congrArg _ (List.append_nil _)
  · rw [hvisits]
    refine ⟨false, ?_, fun hfalse => absurd hfalse Bool.false_ne_true,
      fun ⟨t, ht, _⟩ => absurd ht (Option.not_mem_none t)⟩
    by_cases hsame : SameValues pt trial.point
    · have htrue : owed = true := by
        cases hcase : due with
        | none => exact absurd hsame (hpairs hcase)
        | some t =>
          obtain rfl := hdue t hcase
          exact howed.mpr ⟨trial, hcase, hsame⟩
      subst htrue
      exact htold.analyze hsame hid (List.length_pos_of_ne_nil hocc)
    · have hfalse : owed = false := by
        cases owed with
        | false => rfl
        | true =>
          obtain ⟨t, ht, htsame⟩ := howed.mp rfl
          rw [← hdue t ht] at htsame
          exact absurd htsame hsame
      subst hfalse
      exact htold.analyze_other hsame hid
  · rw [hvisits]
    exact h.replayed

/-- The turns of a point in a run. -/
lemma CacheRun.turns (hstart : start.Loaded) (hocc : occurrences pt start.cache ≠ [])
    (h : CacheRun τ start calls s due) (hcalls : ∀ call ∈ calls, call.Regular) (hpairs : InPairs pt calls) :
    TurnInv pt (occurrences pt start.cache) calls s due := by
  induction h with
  | nil =>
    refine ⟨rfl, ⟨false, Told.new ?_, by simp⟩, fun m call hcall => ?_⟩
    · unfold findVisited
      rw [hstart.visited]
      rfl
    · exact absurd hcall.symm (Option.some_ne_none call)
  | generate flow trial hrun hflow ih =>
    have hold := ih (fun call hcall => hcalls call (List.mem_append_left _ hcall))
      fun call hcall => hpairs call (List.mem_append_left _ hcall)
    exact hold.generate hocc hflow (hcalls _ (List.mem_append_right _ (List.mem_singleton_self _))).1
  | analyze flow trial hrun hdue ih =>
    have hbefore := fun call hcall => hcalls call (List.mem_append_left _ hcall)
    have hlast := hcalls _ (List.mem_append_right _ (List.mem_singleton_self _))
    have hsound := (hrun.inv hstart hbefore).sound
    have hold := ih hbefore fun call hcall => hpairs call (List.mem_append_left _ hcall)
    apply hold.analyze hocc hsound hdue hlast.2
    intro hnone
    apply hpairs _ (List.mem_append_right _ (List.mem_singleton_self _)) rfl
    have hskip := hsound.skip
    rw [hnone] at hskip
    exact hskip

/-- The `n`-th visit of a point with `k` entries gets entry `(n - 1) % k + 1` in the first two rounds. Later it
gets entry `(n - 2 * k - 1) % (k - 1) + 2`, and the performance is the right one only where the two agree. -/
theorem cache_turns_iff (hstart : start.Loaded) (h : CacheRun τ start calls s due)
    (hcalls : ∀ call ∈ calls, call.Regular) (hpairs : InPairs pt calls)
    (hocc : occurrences pt start.cache = occ) (hne : occ ≠ []) (hn : 0 < n) {call : CacheCall V W}
    (hcall : (visits pt calls)[n - 1]? = some call) :
    occ[(n - 1) % occ.length]? = some call.perf ↔
      occ.length = 1 ∨ n ≤ 2 * occ.length ∨
        occ[1 + (n - 2 * occ.length - 1) % (occ.length - 1)]? = occ[(n - 1) % occ.length]? := by
  subst hocc
  have hperf := (h.turns hstart hne hcalls hpairs).replayed (n - 1) call hcall
  rw [Nat.sub_add_cancel hn] at hperf
  rw [← hperf]
  unfold visitTurn
  split_ifs with hearly
  · refine ⟨fun _ => ?_, fun _ => rfl⟩
    obtain hone | hle := hearly
    · exact Or.inl hone
    · exact Or.inr (Or.inl hle)
  · constructor
    · intro heq
      exact Or.inr (Or.inr heq.symm)
    · intro hor
      obtain hone | hle | heq := hor
      · exact absurd (Or.inl hone) hearly
      · exact absurd (Or.inr hle) hearly
      · exact heq.symm

end

/-! ## A point with two entries -/

attribute [local instance] five_atLeastTwo in
/-- A point with the performances 5 and 6 in the cache. -/
def twoEntries : World (Unit × Cache ℕ (WithTop ℕ)) where
  plug := ((), { cache := [{ point := { id := 0, val := [.int 7] }, perf := ⟨[5]⟩ },
                           { point := { id := 0, val := [.int 7] }, perf := ⟨[6]⟩ }]
                 visited := [], skip := false })
  cfg := hcfgAlloc
  errmsg := none

/-- A trial of the point. -/
def sevenTrial (perf : HPerf (WithTop ℕ)) : HTrial ℕ (WithTop ℕ) :=
  { point := { id := 1, val := [.int 7] }, perf := perf }

/-- The trial is generated and analyzed `n` times. -/
def visitTimes (flow : Flow ℕ) : ℕ → List (CacheCall ℕ (WithTop ℕ)) × World (Unit × Cache ℕ (WithTop ℕ))
  | 0 => ([], twoEntries)
  | n + 1 =>
    let (calls, world) := visitTimes flow n
    let call := generateCall world flow (sevenTrial ⟨[⊤]⟩)
    let world := { world with plug := ((), call.after) }
    let call' := analyzeCall world flow (sevenTrial call.perf)
    (calls ++ [call] ++ [call'], { world with plug := ((), call'.after) })

lemma visitTimes_run {flow : Flow ℕ} (hflow : flow.status = .accept) (n : ℕ) :
    CacheRun Unit twoEntries.plug.2 (visitTimes flow n).1 (visitTimes flow n).2.plug.2 none := by
  induction n with
  | zero => exact CacheRun.nil
  | succ n ih =>
    have hgenerate := CacheRun.generate flow (sevenTrial ⟨[⊤]⟩) ih hflow
    let world : World (Unit × Cache ℕ (WithTop ℕ)) := { (visitTimes flow n).2 with
      plug := ((), (generateCall (visitTimes flow n).2 flow (sevenTrial ⟨[⊤]⟩)).after) }
    have hworld : CacheRun Unit twoEntries.plug.2 _ world.plug.2 _ := hgenerate
    apply hworld.analyze flow
    intro t ht
    unfold CacheCall.due at ht
    split_ifs at ht
    · exact Option.some.inj ht
    · exact absurd ht (Option.not_mem_none t)

/-- No point. -/
def noFlow : Flow ℕ := { status := .accept, point := hpointInitializer ℕ }

lemma visitTimes_regular : (∀ call ∈ (visitTimes noFlow 5).1, call.Regular) ∧
    InPairs { id := 1, val := [.int 7] } (visitTimes noFlow 5).1 := by
  have hpairs : ∀ call ∈ (visitTimes noFlow 5).1, call.analysis = true → call.before.skip = true := by
    decide +kernel
  refine ⟨by decide +kernel, ?_⟩
  intro call hcall hkind hskip
  rw [hpairs call hcall hkind] at hskip
  exact absurd hskip.symm Bool.false_ne_true

/-- The third visit starts over with the first entry. -/
theorem cache_turns_iff_third_visit :
    ∃ call, (visits { id := 1, val := [.int 7] } (visitTimes noFlow 5).1)[3 - 1]? = some call ∧
      (occurrences { id := 1, val := [.int 7] } twoEntries.plug.2.cache)[(3 - 1) % 2]? = some call.perf := by
  have hlt : 3 - 1 < (visits { id := 1, val := [.int 7] } (visitTimes noFlow 5).1).length := by
    decide +kernel
  refine ⟨_, List.getElem?_eq_getElem hlt, ?_⟩
  exact (cache_turns_iff ⟨rfl, rfl⟩ (visitTimes_run rfl 5) visitTimes_regular.1 visitTimes_regular.2 rfl
    (by decide +kernel) (by decide) (List.getElem?_eq_getElem hlt)).mpr (Or.inr (Or.inl (by decide +kernel)))

/-- The fifth visit gets the second entry again, not the first one. -/
theorem cache_turns_fifth_visit :
    CacheRun Unit twoEntries.plug.2 (visitTimes noFlow 5).1 (visitTimes noFlow 5).2.plug.2 none ∧
      (∀ call ∈ (visitTimes noFlow 5).1, call.Regular) ∧
      InPairs { id := 1, val := [.int 7] } (visitTimes noFlow 5).1 ∧
      (visits { id := 1, val := [.int 7] } (visitTimes noFlow 5).1)[5 - 1]?.map CacheCall.perf =
        some ⟨[6]⟩ ∧
      (occurrences { id := 1, val := [.int 7] } twoEntries.plug.2.cache)[(5 - 1) % 2]? = some ⟨[5]⟩ :=
  ⟨visitTimes_run rfl 5, visitTimes_regular.1, visitTimes_regular.2, by decide +kernel, by decide +kernel⟩

end ActiveHarmony

import ActiveHarmony.Layer.Cache
import ActiveHarmony.Lib.ListModify
import ActiveHarmony.Session.Workflow
import Mathlib.Order.Defs.LinearOrder

/-!
# The calls of the cache

The workflow calls `cache_generate` and `cache_analyze` for many trials in turn, and only the variable `skip`
tells `cache_analyze` whether the trial was answered from the cache. Since a hit is analyzed in the next call,
`skip` is set between those two calls alone, and every visited point is in the cache: the lookup ends after
two passes at most. `cache_calls_sound` says so for the sessions with the cache anywhere in their stack.
-/

namespace ActiveHarmony

/-! ## The lookup with its `goto` -/

section

variable {τ V W : Type} [LT V] [DecidableLT V]

/-- The passes of `cache_generate` over the cache for a point that was visited, at most `passes` of them: how
many were made, the performance, the count and the total number. There is no result where the source
divides by zero or makes more passes. -/
def cachePasses (pt : HPoint V) (entries : List (CacheEntry V W)) :
    ℕ → ℕ → ℕ → Option (ℕ × HPerf W × ℕ × ℕ)
  | 0, _, _ => none
  | passes + 1, count, totalNum =>
    match cacheLookup pt (some count) 0 entries with
    | (some perf, _) => some (1, perf, count, totalNum)
    | (none, ptNum) =>
      -- reached end of data
      if ptNum = 0 then none
      else (cachePasses pt entries passes (count % ptNum) ptNum).map fun result =>
        (result.1 + 1, result.2)

/-- `cache_generate` with its `goto`, and the number of passes. -/
def cacheGenerateGoto (passes : ℕ) (world : World (τ × Cache V W)) (flow : Flow V) (trial : HTrial V W) :
    Option (ℕ × ℤ × World (τ × Cache V W) × Flow V × HPerf W) :=
  let s := world.plug.2
  if world.converged then some (0, 1, world, flow, trial.perf)
  else
    match (findVisited s trial.point).bind fun i => s.visited[i]?.map fun pt => (i, pt) with
    | none =>
      match (cacheLookup trial.point none 0 s.cache).1 with
      | some perf => some (1, cacheHit world flow s.visited perf)
      | none => some (1, 0, world, if s.skip then flow else { flow with status := .accept }, trial.perf)
    | some (i, pt) =>
      -- wrapping around
      let count := if 0 < pt.totalNum ∧ pt.totalNum < pt.count then pt.count % pt.totalNum + 1
        else pt.count
      (cachePasses trial.point s.cache passes count pt.totalNum).map fun (n, perf, count, totalNum) =>
        (n, cacheHit world flow (s.visited.set i { pt with count := count, totalNum := totalNum }) perf)

variable {pt : HPoint V} {entries : List (CacheEntry V W)} {s : Cache V W}

lemma mem_occurrences {perf : HPerf W} (h : perf ∈ occurrences pt entries) :
    ∃ entry ∈ entries, ptEquiv pt entry.point = true ∧ entry.perf = perf := by
  obtain ⟨entry, hentry, hperf⟩ := List.mem_map.mp h
  obtain ⟨hmem, hequiv⟩ := List.mem_filter.mp hentry
  exact ⟨entry, hmem, hequiv, hperf⟩

/-- The passes for a point in the cache: one for a number that is not too great, otherwise two. -/
lemma cachePasses_spec (hcached : occurrences pt entries ≠ []) (count totalNum : ℕ) :
    (count ≤ (occurrences pt entries).length → ∃ perf,
      (occurrences pt entries)[count - 1]? = some perf ∧
        (cacheLookup pt (some count) 0 entries).1 = some perf ∧
        cachePasses pt entries 2 count totalNum = some (1, perf, count, totalNum)) ∧
    ((occurrences pt entries).length < count → ∃ perf,
      (occurrences pt entries)[count % (occurrences pt entries).length - 1]? = some perf ∧
        (cacheLookup pt (some (count % (occurrences pt entries).length)) 0 entries).1 = some perf ∧
        cachePasses pt entries 2 count totalNum = some (2, perf, count % (occurrences pt entries).length,
          (occurrences pt entries).length)) := by
  have hlen := List.length_pos_of_ne_nil hcached
  constructor
  · intro hle
    obtain ⟨perf, hat, hlook⟩ := cacheLookup_at hcached hle
    refine ⟨perf, hat, hlook, ?_⟩
    obtain ⟨ptNum, hpair⟩ : ∃ ptNum, cacheLookup pt (some count) 0 entries = (some perf, ptNum) :=
      ⟨_, Prod.ext hlook rfl⟩
    rw [cachePasses, hpair]
  · intro hlt
    obtain ⟨perf, hat, hlook⟩ := cacheLookup_at hcached (Nat.mod_lt count hlen).le
    refine ⟨perf, hat, hlook, ?_⟩
    obtain ⟨ptNum, hpair⟩ : ∃ ptNum, cacheLookup pt (some (count % (occurrences pt entries).length)) 0
        entries = (some perf, ptNum) := ⟨_, Prod.ext hlook rfl⟩
    rw [cachePasses, cacheLookup_past hlt]
    dsimp only
    rw [if_neg hlen.ne', cachePasses, hpair]
    rfl

/-! ## One call of `cache_generate` -/

variable {world : World (τ × Cache V W)} {flow : Flow V} {trial : HTrial V W}

/-- The number with which `cache_generate` looks up a visited point. -/
def Visited.wanted (v : Visited V) : ℕ :=
  if 0 < v.totalNum ∧ v.totalNum < v.count then v.count % v.totalNum + 1 else v.count

/-- The point was visited: `i` is the first place where `find_visited` finds it. -/
def VisitedAt (s : Cache V W) (pt : HPoint V) (i : ℕ) (v : Visited V) : Prop :=
  findVisited s pt = some i ∧ s.visited[i]? = some v

lemma findVisited_cases (s : Cache V W) (pt : HPoint V) :
    (findVisited s pt = none) ∨ ∃ i v, VisitedAt s pt i v ∧ ptEquiv pt v.point = true := by
  cases hfind : findVisited s pt with
  | none => exact Or.inl rfl
  | some i =>
    right
    obtain ⟨hlt, hequiv, -⟩ := List.findIdx?_eq_some_iff_getElem.mp hfind
    exact ⟨i, _, ⟨hfind, List.getElem?_eq_getElem hlt⟩, hequiv⟩

variable (flow) in
/-- A point in the cache that was not visited gets the first occurrence. -/
lemma cacheGenerate_first (hopen : world.converged = false)
    (hnew : findVisited world.plug.2 trial.point = none) (hcached : Cached world.plug.2 trial.point) :
    ∃ perf, (occurrences trial.point world.plug.2.cache)[0]? = some perf ∧
      cacheGenerate world flow trial = cacheHit world flow world.plug.2.visited perf ∧
      cacheGenerateGoto 2 world flow trial =
        some (1, cacheHit world flow world.plug.2.visited perf) := by
  have hne := cached_iff.mp hcached
  have hlook := cacheLookup_head trial.point world.plug.2.cache (Or.inl rfl) 0
  rw [List.head?_eq_getElem?, List.getElem?_eq_getElem (List.length_pos_of_ne_nil hne)] at hlook
  refine ⟨_, List.getElem?_eq_getElem (List.length_pos_of_ne_nil hne), ?_, ?_⟩
  · unfold cacheGenerate
    rw [if_neg (by rw [hopen]; decide), hnew, Option.bind_none]
    dsimp only
    rw [hlook]
  · unfold cacheGenerateGoto
    rw [if_neg (by rw [hopen]; decide), hnew, Option.bind_none]
    dsimp only
    rw [hlook]

variable (flow) in
/-- A point in the cache that was visited gets the occurrence that is wanted, or it goes on from the first one
when that number is too great. -/
lemma cacheGenerate_visited (hopen : world.converged = false) {i : ℕ} {v : Visited V}
    (hat : VisitedAt world.plug.2 trial.point i v) (hcached : Cached world.plug.2 trial.point) :
    ∃ n perf count totalNum, n ≤ 2 ∧
      (v.wanted ≤ (occurrences trial.point world.plug.2.cache).length →
        count = v.wanted ∧ totalNum = v.totalNum) ∧
      ((occurrences trial.point world.plug.2.cache).length < v.wanted →
        count = v.wanted % (occurrences trial.point world.plug.2.cache).length ∧
          totalNum = (occurrences trial.point world.plug.2.cache).length) ∧
      (occurrences trial.point world.plug.2.cache)[count - 1]? = some perf ∧
      cacheGenerate world flow trial = cacheHit world flow
        (world.plug.2.visited.set i { v with count := count, totalNum := totalNum }) perf ∧
      cacheGenerateGoto 2 world flow trial = some (n, cacheHit world flow
        (world.plug.2.visited.set i { v with count := count, totalNum := totalNum }) perf) := by
  have hne := cached_iff.mp hcached
  obtain ⟨hnear, hpast⟩ := cachePasses_spec hne v.wanted v.totalNum
  obtain hle | hlt := le_or_gt v.wanted (occurrences trial.point world.plug.2.cache).length
  · obtain ⟨perf, hperf, hlook, hpasses⟩ := hnear hle
    refine ⟨1, perf, v.wanted, v.totalNum, by omega, fun _ => ⟨rfl, rfl⟩, by omega, hperf, ?_, ?_⟩
    · obtain ⟨ptNum, hpair⟩ : ∃ ptNum, cacheLookup trial.point (some v.wanted) 0 world.plug.2.cache =
          (some perf, ptNum) := ⟨_, Prod.ext hlook rfl⟩
      unfold Visited.wanted at hpair ⊢
      unfold cacheGenerate
      rw [if_neg (by rw [hopen]; decide), hat.1, Option.bind_some, hat.2]
      simp only [Option.map_some, hpair]
    · unfold Visited.wanted at hpasses ⊢
      unfold cacheGenerateGoto
      rw [if_neg (by rw [hopen]; decide), hat.1, Option.bind_some, hat.2]
      simp only [Option.map_some, hpasses]
  · obtain ⟨perf, hperf, hlook, hpasses⟩ := hpast hlt
    refine ⟨2, perf, _, _, le_refl 2, by omega, fun _ => ⟨rfl, rfl⟩, hperf, ?_, ?_⟩
    · have hpair := cacheLookup_past hlt
      unfold Visited.wanted at hpair hlook ⊢
      unfold cacheGenerate
      rw [if_neg (by rw [hopen]; decide), hat.1, Option.bind_some, hat.2]
      simp only [Option.map_some, hpair, hlook]
    · unfold Visited.wanted at hpasses ⊢
      unfold cacheGenerateGoto
      rw [if_neg (by rw [hopen]; decide), hat.1, Option.bind_some, hat.2]
      simp only [Option.map_some, hpasses]

/-- A point that is not in the cache was not visited, and goes on. -/
lemma cacheGenerate_miss (hopen : world.converged = false) (hflow : flow.status = .accept)
    (hnew : findVisited world.plug.2 trial.point = none) (hcached : ¬Cached world.plug.2 trial.point) :
    cacheGenerate world flow trial = (0, world, flow, trial.perf) ∧
      cacheGenerateGoto 2 world flow trial = some (1, 0, world, flow, trial.perf) := by
  refine ⟨cacheGenerate_new hopen hcached hflow, ?_⟩
  have hnone : occurrences trial.point world.plug.2.cache = [] := by
    by_contra hne
    exact hcached (cached_iff.mpr hne)
  have hlook := cacheLookup_head trial.point world.plug.2.cache (Or.inl rfl) 0
  rw [hnone, List.head?_nil] at hlook
  have haccept : { flow with status := .accept } = flow := by rw [← hflow]
  unfold cacheGenerateGoto
  rw [if_neg (by rw [hopen]; decide), hnew, Option.bind_none]
  dsimp only
  rw [hlook]
  dsimp only
  rw [haccept, ite_self]

variable (world trial) in
/-- A call leaves the cache as it is: it does nothing, or it is a hit, which changes the counters of the visited
point. -/
lemma cacheGenerate_cases (hflow : flow.status = .accept) :
    (∃ ret, cacheGenerate world flow trial = (ret, world, flow, trial.perf)) ∨
      ∃ visited perf, cacheGenerate world flow trial = cacheHit world flow visited perf ∧
        (visited = world.plug.2.visited ∨ ∃ i v v', VisitedAt world.plug.2 trial.point i v ∧
          v'.point = v.point ∧ visited = world.plug.2.visited.set i v') := by
  have haccept : { flow with status := .accept } = flow := by rw [← hflow]
  unfold cacheGenerate
  by_cases hconv : world.converged = true
  · rw [if_pos hconv]
    exact Or.inl ⟨1, rfl⟩
  · rw [if_neg hconv]
    dsimp only
    cases hfind : (findVisited world.plug.2 trial.point).bind fun i =>
        world.plug.2.visited[i]?.map fun pt => (i, pt) with
    | none =>
      dsimp only
      cases (cacheLookup trial.point none 0 world.plug.2.cache).1 with
      | none =>
        dsimp only
        rw [haccept, ite_self]
        exact Or.inl ⟨0, rfl⟩
      | some perf => exact Or.inr ⟨_, perf, rfl, Or.inl rfl⟩
    | some found =>
      obtain ⟨i, v⟩ := found
      obtain ⟨j, hj, hat⟩ := Option.bind_eq_some_iff.mp hfind
      obtain ⟨u, hu, hpair⟩ := Option.map_eq_some_iff.mp hat
      obtain ⟨rfl, rfl⟩ := Prod.mk.inj hpair
      dsimp only
      obtain ⟨result, ptNum⟩ := cacheLookup trial.point (some (if 0 < u.totalNum ∧ u.totalNum < u.count
        then u.count % u.totalNum + 1 else u.count)) 0 world.plug.2.cache
      cases result with
      | some perf =>
        refine Or.inr ⟨_, perf, rfl, Or.inr ⟨j, u, _, ⟨hj, hu⟩, ?_, rfl⟩⟩
        rfl
      | none =>
        dsimp only
        cases (cacheLookup trial.point (some ((if 0 < u.totalNum ∧ u.totalNum < u.count
          then u.count % u.totalNum + 1 else u.count) % ptNum)) 0 world.plug.2.cache).1 with
        | some perf =>
          refine Or.inr ⟨_, perf, rfl, Or.inr ⟨j, u, _, ⟨hj, hu⟩, ?_, rfl⟩⟩
          rfl
        | none => exact Or.inl ⟨0, rfl⟩

omit [LT V] [DecidableLT V] in
/-- New counters are those of the same point. -/
lemma map_point_set {visited : List (Visited V)} {i : ℕ} {v v' : Visited V} (hat : visited[i]? = some v)
    (hpoint : v'.point = v.point) :
    (visited.set i v').map Visited.point = visited.map Visited.point := by
  have hsame : (visited.map Visited.point)[i]? = some v'.point := by
    rw [List.getElem?_map, hat, hpoint]
    rfl
  obtain ⟨hi, heq⟩ := List.getElem?_eq_some_iff.mp hsame
  rw [List.map_set, ← heq, List.set_getElem_self]

/-! ## The record of the calls -/

/-- A call of `cache_generate` or, with `analysis`, of `cache_analyze`. -/
structure CacheCall (V W : Type) where
  analysis : Bool
  /-- Whether `STRATEGY_CONVERGED` starts with `1`. -/
  converged : Bool
  trial : HTrial V W
  before : Cache V W
  after : Cache V W
  status : FlowStatus
  /-- The performance of the trial after the call. -/
  perf : HPerf W
  /-- What `cache_generate` with its `goto` does in two passes, and how many it makes. -/
  goto : Option (ℕ × Cache V W × FlowStatus × HPerf W)

/-- The record of a call of `cache_generate`. -/
def generateCall (world : World (τ × Cache V W)) (flow : Flow V) (trial : HTrial V W) : CacheCall V W :=
  let (_, after, flow', perf) := cacheGenerate world flow trial
  { analysis := false, converged := world.converged, trial := trial, before := world.plug.2
    after := after.plug.2, status := flow'.status, perf := perf
    goto := (cacheGenerateGoto 2 world flow trial).map fun (n, _, world, flow, perf) =>
      (n, world.plug.2, flow.status, perf) }

/-- The record of a call of `cache_analyze`. -/
def analyzeCall (world : World (τ × Cache V W)) (flow : Flow V) (trial : HTrial V W) : CacheCall V W :=
  let (_, after, flow', perf) := cacheAnalyze world flow trial
  { analysis := true, converged := world.converged, trial := trial, before := world.plug.2
    after := after.plug.2, status := flow'.status, perf := perf, goto := none }

/-- The call answered the trial. -/
def CacheCall.Hit (call : CacheCall V W) : Prop := call.analysis = false ∧ call.status = .ret

/-- The trial whose analysis comes next. -/
def CacheCall.due (call : CacheCall V W) : Option (HTrial V W) :=
  if call.status = .ret then some { call.trial with perf := call.perf } else none

/-- The record of a call that does nothing. -/
lemma generateCall_same {ret : ℤ} (hflow : flow.status = .accept)
    (h : cacheGenerate world flow trial = (ret, world, flow, trial.perf)) :
    (generateCall world flow trial).after = world.plug.2 ∧
      (generateCall world flow trial).status = .accept ∧ (generateCall world flow trial).due = none := by
  have hstatus : (generateCall world flow trial).status = .accept := by
    unfold generateCall
    rw [h]
    exact hflow
  refine ⟨?_, hstatus, if_neg ?_⟩
  · unfold generateCall
    rw [h]
  · rw [hstatus]
    decide

/-- The record of a hit. -/
lemma generateCall_hit {visited : List (Visited V)} {perf : HPerf W}
    (h : cacheGenerate world flow trial = cacheHit world flow visited perf) :
    (generateCall world flow trial).after = { world.plug.2 with visited := visited, skip := true } ∧
      (generateCall world flow trial).status = .ret ∧ (generateCall world flow trial).perf = perf ∧
      (generateCall world flow trial).due = some { trial with perf := perf } := by
  have hstatus : (generateCall world flow trial).status = .ret := by
    unfold generateCall
    rw [h]
    rfl
  have hperf : (generateCall world flow trial).perf = perf := by
    unfold generateCall
    rw [h]
    rfl
  have htrial : (generateCall world flow trial).trial = trial := rfl
  refine ⟨?_, hstatus, hperf, ?_⟩
  · unfold generateCall
    rw [h]
    rfl
  · unfold CacheCall.due
    rw [if_pos hstatus, htrial, hperf]

variable (flow) in
/-- The analysis of a point that was not visited enters it. -/
lemma analyzeCall_new (hid : trial.point.id ≠ -1) (h : findVisited world.plug.2 trial.point = none) :
    (analyzeCall world flow trial).after.visited =
      world.plug.2.visited ++ [{ point := trial.point, count := 2, totalNum := 0 }] := by
  have hcopy : hpointCopy trial.point = trial.point := if_neg hid
  unfold analyzeCall cacheAnalyze
  dsimp only
  rw [h, hcopy]

variable (flow) in
/-- The analysis of a point that was visited counts one more visit. -/
lemma analyzeCall_again {i : ℕ} (h : findVisited world.plug.2 trial.point = some i) :
    (analyzeCall world flow trial).after.visited =
        world.plug.2.visited.modify i (fun pt => { pt with count := pt.count + 1 }) ∧
      (analyzeCall world flow trial).after.visited.map Visited.point =
        world.plug.2.visited.map Visited.point := by
  have hvisited : (analyzeCall world flow trial).after.visited =
      world.plug.2.visited.modify i fun pt => { pt with count := pt.count + 1 } := by
    unfold analyzeCall cacheAnalyze
    dsimp only
    rw [h]
  refine ⟨hvisited, ?_⟩
  rw [hvisited]
  apply ListModify.map_same
  intro v
  rfl

variable (τ) in
/-- The calls from a state of the cache on, the state after them, and the trial whose analysis comes next: a
trial that was answered is analyzed in the next call. -/
inductive CacheRun (start : Cache V W) : List (CacheCall V W) → Cache V W → Option (HTrial V W) → Prop
  | nil : CacheRun start [] start none
  | generate {calls : List (CacheCall V W)} {world : World (τ × Cache V W)} (flow : Flow V)
      (trial : HTrial V W) : CacheRun start calls world.plug.2 none → flow.status = .accept →
      CacheRun start (calls ++ [generateCall world flow trial]) (generateCall world flow trial).after
        (generateCall world flow trial).due
  | analyze {calls : List (CacheCall V W)} {world : World (τ × Cache V W)} {due : Option (HTrial V W)}
      (flow : Flow V) (trial : HTrial V W) : CacheRun start calls world.plug.2 due →
      (∀ t ∈ due, trial = t) →
      CacheRun start (calls ++ [analyzeCall world flow trial]) (analyzeCall world flow trial).after none

end

/-! ## What holds in a run -/

/-- The points have the same values, each of which has a type. -/
def SameValues {V : Type} (a b : HPoint V) : Prop := a.val = b.val ∧ .unknown ∉ a.val

section

variable {V : Type} {a b c : HPoint V}

lemma SameValues.symm (h : SameValues a b) : SameValues b a := by
  refine ⟨h.1.symm, ?_⟩
  rw [← h.1]
  exact h.2

lemma SameValues.trans (hab : SameValues a b) (hbc : SameValues b c) : SameValues a c :=
  ⟨hab.1.trans hbc.1, hab.2⟩

end

section

variable {τ V W : Type} [LinearOrder V]

lemma valEquiv_iff (v w : HVal V) : valEquiv v w = true ↔ v = w ∧ v ≠ .unknown := by
  cases v with
  | unknown => simp [valEquiv]
  | int i =>
    cases w with
    | int j => simp [valEquiv]
    | _ => simp [valEquiv]
  | real x =>
    cases w with
    | real y =>
      show (!decide (x < y ∨ y < x)) = true ↔ _
      rw [Bool.not_eq_true', decide_eq_false_iff_not, ← ne_iff_lt_or_gt, not_not]
      simp
    | _ => simp [valEquiv]
  | str a =>
    cases w with
    | str b => simp [valEquiv]
    | _ => simp [valEquiv]

/-- Without NaN, `pt_equiv` compares the values. -/
lemma ptEquiv_iff (a b : HPoint V) : ptEquiv a b = true ↔ SameValues a b := by
  unfold ptEquiv SameValues
  rw [Bool.and_eq_true, decide_eq_true_eq, List.all_eq_true]
  generalize a.val = vs
  generalize b.val = ws
  induction vs generalizing ws with
  | nil =>
    cases ws with
    | nil => simp
    | cons w ws => simp
  | cons v vs ih =>
    cases ws with
    | nil => simp
    | cons w ws =>
      have hrest := ih ws
      have hfirst := valEquiv_iff v w
      rw [List.zip_cons_cons, List.forall_mem_cons, hfirst]
      simp only [List.length_cons, Nat.add_right_cancel_iff, List.cons.injEq, List.mem_cons, not_or]
      constructor
      · intro ⟨hlen, ⟨hvw, htyped⟩, hall⟩
        obtain ⟨hvals, hnot⟩ := hrest.mp ⟨hlen, hall⟩
        exact ⟨⟨hvw, hvals⟩, Ne.symm htyped, hnot⟩
      · intro ⟨⟨hvw, hvals⟩, htyped, hnot⟩
        obtain ⟨hlen, hall⟩ := hrest.mpr ⟨hvals, hnot⟩
        exact ⟨hlen, ⟨hvw, Ne.symm htyped⟩, hall⟩

/-- What `cache_init` leaves: no point was visited. The entries come from a log file. -/
structure Cache.Loaded (s : Cache V W) : Prop where
  visited : s.visited = []
  skip : s.skip = false

/-- What holds between two calls. -/
structure Cache.Sound (s : Cache V W) (due : Option (HTrial V W)) : Prop where
  skip : s.skip = due.isSome
  visited : ∀ pt ∈ s.visited.map Visited.point, ∀ pt', SameValues pt' pt → Cached s pt'
  due : ∀ trial ∈ due, Cached s trial.point

variable {s : Cache V W} {due : Option (HTrial V W)}

lemma Cache.Loaded.sound (h : s.Loaded) : s.Sound none where
  skip := h.skip
  visited := by
    rw [h.visited]
    exact fun pt hpt => absurd hpt List.not_mem_nil
  due := fun trial htrial => absurd htrial (Option.not_mem_none trial)

lemma cached_iff_sameValues {pt : HPoint V} :
    Cached s pt ↔ ∃ entry ∈ s.cache, SameValues pt entry.point := by
  unfold Cached
  simp only [ptEquiv_iff]

lemma Cached.of_same {pt pt' : HPoint V} (h : Cached s pt) (hsame : SameValues pt' pt) : Cached s pt' := by
  obtain ⟨entry, hentry, hequiv⟩ := cached_iff_sameValues.mp h
  exact cached_iff_sameValues.mpr ⟨entry, hentry, hsame.trans hequiv⟩

/-- A point that was visited is in the cache. -/
lemma Cache.Sound.cached {pt : HPoint V} {i : ℕ} {v : Visited V} (h : s.Sound due)
    (hat : VisitedAt s pt i v) (hequiv : ptEquiv pt v.point = true) : Cached s pt :=
  h.visited v.point (List.mem_map_of_mem (List.mem_of_getElem? hat.2)) pt ((ptEquiv_iff _ _).mp hequiv)

variable {world : World (τ × Cache V W)} {flow : Flow V} {trial : HTrial V W}

/-- What one call of `cache_generate` does. -/
structure CacheCall.Answers (call : CacheCall V W) : Prop where
  ends : ∃ n, n ≤ 2 ∧ call.goto = some (n, call.after, call.status, call.perf)
  status : call.status = .ret ∨ call.status = .accept
  ret_iff : call.status = .ret ↔ ∃ entry ∈ call.before.cache, SameValues call.trial.point entry.point
  perf : call.status = .ret →
    ∃ entry ∈ call.before.cache, SameValues call.trial.point entry.point ∧ entry.perf = call.perf
  cache : call.after.cache = call.before.cache

variable (trial) in
/-- `cache_generate` answers the points that are in the cache. -/
lemma Cache.Sound.generate (h : world.plug.2.Sound none) (hflow : flow.status = .accept)
    (hopen : world.converged = false) :
    (generateCall world flow trial).Answers ∧
      (generateCall world flow trial).after.Sound (generateCall world flow trial).due := by
  have hgoto : ∀ {n r}, cacheGenerateGoto 2 world flow trial = some (n, r) →
      cacheGenerate world flow trial = r → (generateCall world flow trial).goto =
        some (n, (generateCall world flow trial).after, (generateCall world flow trial).status,
          (generateCall world flow trial).perf) := by
    intro n r hn hr
    unfold generateCall
    rw [hn, hr]
    rfl
  by_cases hcached : Cached world.plug.2 trial.point
  · obtain ⟨n, perf, visited, hn, hperf, hhit, hpasses⟩ : ∃ n perf visited, n ≤ 2 ∧
        perf ∈ occurrences trial.point world.plug.2.cache ∧
        cacheGenerate world flow trial = cacheHit world flow visited perf ∧
        cacheGenerateGoto 2 world flow trial = some (n, cacheHit world flow visited perf) := by
      obtain hnew | ⟨i, v, hat, -⟩ := findVisited_cases world.plug.2 trial.point
      · obtain ⟨perf, hperf, hhit, hpasses⟩ := cacheGenerate_first flow hopen hnew hcached
        exact ⟨1, perf, _, by omega, List.mem_of_getElem? hperf, hhit, hpasses⟩
      · obtain ⟨n, perf, count, totalNum, hn, -, -, hperf, hhit, hpasses⟩ :=
          cacheGenerate_visited flow hopen hat hcached
        exact ⟨n, perf, _, hn, List.mem_of_getElem? hperf, hhit, hpasses⟩
    obtain ⟨hafter, hstatus, hcallperf, hdue⟩ := generateCall_hit hhit
    have hpoints : visited.map Visited.point = world.plug.2.visited.map Visited.point := by
      obtain ⟨ret, hsame⟩ | ⟨visited', perf', hhit', hset⟩ :=
        cacheGenerate_cases world trial hflow
      · have hret := (generateCall_same hflow hsame).2.1
        rw [hstatus] at hret
        exact absurd hret (by decide)
      · have hafter' := (generateCall_hit hhit').1
        rw [hafter] at hafter'
        rw [(Cache.mk.inj hafter').2.1]
        obtain rfl | ⟨i, v, v', hat, hpoint, rfl⟩ := hset
        · rfl
        · exact map_point_set hat.2 hpoint
    constructor
    · refine ⟨⟨n, hn, hgoto hpasses hhit⟩, Or.inl hstatus, ⟨fun _ => ?_, fun _ => hstatus⟩, fun _ => ?_, ?_⟩
      · exact cached_iff_sameValues.mp hcached
      · rw [hcallperf]
        obtain ⟨entry, hentry, hequiv, hentryPerf⟩ := mem_occurrences hperf
        exact ⟨entry, hentry, (ptEquiv_iff _ _).mp hequiv, hentryPerf⟩
      · rw [hafter]
        rfl
    · rw [hafter, hdue]
      refine ⟨rfl, ?_, ?_⟩
      · intro pt hpt
        rw [hpoints] at hpt
        exact h.visited pt hpt
      · intro t ht
        rw [← Option.some.inj ht]
        exact hcached
  · have hnew : findVisited world.plug.2 trial.point = none := by
      obtain hnew | ⟨i, v, hat, hequiv⟩ := findVisited_cases world.plug.2 trial.point
      · exact hnew
      · exact absurd (h.cached hat hequiv) hcached
    obtain ⟨hsame, hpasses⟩ := cacheGenerate_miss hopen hflow hnew hcached
    obtain ⟨hafter, hstatus, hdue⟩ := generateCall_same hflow hsame
    have hne : (generateCall world flow trial).status ≠ .ret := by
      rw [hstatus]
      decide
    constructor
    · refine ⟨⟨1, by omega, hgoto hpasses hsame⟩, Or.inr hstatus, ⟨fun hret => absurd hret hne, ?_⟩,
        fun hret => absurd hret hne, ?_⟩
      · intro hentry
        exact absurd (cached_iff_sameValues.mpr hentry) hcached
      · rw [hafter]
        rfl
    · rw [hafter, hdue]
      exact h

variable (flow) in
/-- `cache_analyze` enters the trials that were not answered. -/
lemma Cache.Sound.analyze (h : world.plug.2.Sound due) (hdue : ∀ t ∈ due, trial = t)
    (hid : trial.point.id ≠ -1) :
    (analyzeCall world flow trial).after.Sound none ∧
      (analyzeCall world flow trial).after.cache =
        if due.isSome then world.plug.2.cache
        else world.plug.2.cache ++ [{ point := trial.point, perf := trial.perf }] := by
  have hcopy : hpointCopy trial.point = trial.point := if_neg hid
  have hcache : (analyzeCall world flow trial).after.cache =
      if due.isSome then world.plug.2.cache
      else world.plug.2.cache ++ [{ point := trial.point, perf := trial.perf }] := by
    rw [← h.skip]
    unfold analyzeCall cacheAnalyze
    rw [hcopy]
  refine ⟨⟨rfl, ?_, fun t ht => absurd ht (Option.not_mem_none t)⟩, hcache⟩
  have hkept : ∀ {pt}, Cached world.plug.2 pt → Cached (analyzeCall world flow trial).after pt := by
    intro pt hcached
    obtain ⟨entry, hentry, hequiv⟩ := hcached
    refine ⟨entry, ?_, hequiv⟩
    rw [hcache]
    split_ifs
    · exact hentry
    · exact List.mem_append_left _ hentry
  -- the trial is in the cache now, whether it was a hit or not
  have htrial : ∀ pt, SameValues pt trial.point → Cached (analyzeCall world flow trial).after pt := by
    intro pt hsame
    cases hcase : due with
    | some t =>
      obtain rfl := hdue t hcase
      exact hkept ((h.due trial hcase).of_same hsame)
    | none =>
      rw [hcase] at hcache
      apply cached_iff_sameValues.mpr
      refine ⟨{ point := trial.point, perf := trial.perf }, ?_, hsame⟩
      rw [hcache]
      exact List.mem_append_right _ (List.mem_singleton_self _)
  have hpoints : ∀ pt ∈ (analyzeCall world flow trial).after.visited.map Visited.point,
      pt ∈ world.plug.2.visited.map Visited.point ∨ pt = trial.point := by
    intro pt hpt
    cases hfind : findVisited world.plug.2 trial.point with
    | none =>
      rw [analyzeCall_new flow hid hfind, List.map_append, List.mem_append] at hpt
      obtain hold | hnew := hpt
      · exact Or.inl hold
      · exact Or.inr (List.mem_singleton.mp hnew)
    | some i =>
      rw [(analyzeCall_again flow hfind).2] at hpt
      exact Or.inl hpt
  intro pt hpt pt' hsame
  obtain hold | rfl := hpoints pt hpt
  · exact hkept (h.visited pt hold pt' hsame)
  · exact htrial pt' hsame

/-- The session is not converged, and the point has an id: -1 marks one that has none. -/
def CacheCall.Regular (call : CacheCall V W) : Prop := call.converged = false ∧ call.trial.point.id ≠ -1

/-- What holds of all calls so far. -/
structure SoundCalls (start : Cache V W) (calls : List (CacheCall V W)) (due : Option (HTrial V W)) :
    Prop where
  /-- Each call starts with what the one before it left. -/
  linked : ∀ pre call post, calls = pre ++ call :: post →
    call.before = (pre.getLast?.map CacheCall.after).getD start
  answers : ∀ call ∈ calls, call.analysis = false → call.Answers
  /-- A hit is analyzed next, which adds nothing. -/
  hit : ∀ pre call post, calls = pre ++ call :: post → call.Hit →
    (post = [] ∧ due = some { call.trial with perf := call.perf }) ∨
      ∃ next rest, post = next :: rest ∧ next.analysis = true ∧
        next.trial = { call.trial with perf := call.perf } ∧ next.after.cache = call.before.cache
  /-- The analysis of any other trial adds one entry. -/
  miss : ∀ pre call post, calls = pre ++ call :: post → call.analysis = true →
    (∀ prev, pre.getLast? = some prev → ¬prev.Hit) →
    call.after.cache = call.before.cache ++ [{ point := call.trial.point, perf := call.trial.perf }]

omit [LinearOrder V] in
lemma concat_split {α : Type} {l pre post : List α} {x y : α} (h : l ++ [y] = pre ++ x :: post) :
    (post = [] ∧ pre = l ∧ x = y) ∨ ∃ rest, post = rest ++ [y] ∧ l = pre ++ x :: rest := by
  obtain rfl | ⟨rest, z, rfl⟩ := List.eq_nil_or_concat' post
  · obtain ⟨hl, hy⟩ := List.append_inj' h rfl
    exact Or.inl ⟨rfl, hl.symm, (List.singleton_inj.mp hy).symm⟩
  · rw [← List.cons_append, ← List.append_assoc] at h
    obtain ⟨hl, hy⟩ := List.append_inj' h rfl
    rw [List.singleton_inj.mp hy]
    exact Or.inr ⟨rest, rfl, hl⟩

variable {start : Cache V W} {calls : List (CacheCall V W)}

omit [LinearOrder V] in
lemma SoundCalls.nil : SoundCalls start [] none where
  linked := fun _ _ _ h => absurd h.symm (List.append_ne_nil_of_right_ne_nil _ (List.cons_ne_nil _ _))
  answers := fun _ hcall => absurd hcall List.not_mem_nil
  hit := fun _ _ _ h => absurd h.symm (List.append_ne_nil_of_right_ne_nil _ (List.cons_ne_nil _ _))
  miss := fun _ _ _ h => absurd h.symm (List.append_ne_nil_of_right_ne_nil _ (List.cons_ne_nil _ _))

/-- The calls so far are sound, and so is the state that they leave. -/
structure RunInv (start : Cache V W) (calls : List (CacheCall V W)) (s : Cache V W)
    (due : Option (HTrial V W)) : Prop extends SoundCalls start calls due where
  sound : s.Sound due
  last : s = (calls.getLast?.map CacheCall.after).getD start
  due_iff : due.isSome ↔ ∃ prev, calls.getLast? = some prev ∧ prev.Hit

/-- A call of `cache_generate` in a run. -/
lemma RunInv.generate (h : RunInv start calls world.plug.2 none) (hflow : flow.status = .accept)
    (hopen : world.converged = false) :
    RunInv start (calls ++ [generateCall world flow trial]) (generateCall world flow trial).after
      (generateCall world flow trial).due := by
  obtain ⟨hanswers, hsound⟩ := h.sound.generate trial hflow hopen
  have hdue : (generateCall world flow trial).Hit → (generateCall world flow trial).due =
      some { trial with perf := (generateCall world flow trial).perf } := fun hhit => if_pos hhit.2
  refine ⟨⟨?_, ?_, ?_, ?_⟩, hsound, by rw [List.getLast?_concat]; rfl, ?_⟩
  · intro pre call post hsplit
    obtain ⟨rfl, rfl, rfl⟩ | ⟨rest, -, hcalls⟩ := concat_split hsplit
    · exact h.last
    · exact h.linked pre call rest hcalls
  · intro call hcall hkind
    obtain hold | hnew := List.mem_append.mp hcall
    · exact h.answers call hold hkind
    · rw [List.mem_singleton.mp hnew]
      exact hanswers
  · intro pre call post hsplit hhit
    obtain ⟨rfl, rfl, rfl⟩ | ⟨rest, rfl, hcalls⟩ := concat_split hsplit
    · exact Or.inl ⟨rfl, hdue hhit⟩
    · obtain ⟨-, hdue'⟩ | ⟨next, rest', rfl, hnext⟩ := h.hit pre call rest hcalls hhit
      · exact absurd hdue'.symm (Option.some_ne_none _)
      · exact Or.inr ⟨next, rest' ++ [_], rfl, hnext⟩
  · intro pre call post hsplit hkind hprev
    obtain ⟨rfl, rfl, rfl⟩ | ⟨rest, -, hcalls⟩ := concat_split hsplit
    · exact absurd hkind Bool.false_ne_true
    · exact h.miss pre call rest hcalls hkind hprev
  · rw [List.getLast?_concat]
    constructor
    · intro hsome
      refine ⟨_, rfl, rfl, ?_⟩
      by_contra hne
      unfold CacheCall.due at hsome
      rw [if_neg hne] at hsome
      exact absurd hsome Bool.false_ne_true
    · intro ⟨prev, hlast, hhit⟩
      rw [← Option.some.inj hlast] at hhit
      rw [hdue hhit]
      rfl

/-- A call of `cache_analyze` in a run. -/
lemma RunInv.analyze (h : RunInv start calls world.plug.2 due) (hdue : ∀ t ∈ due, trial = t)
    (hid : trial.point.id ≠ -1) :
    RunInv start (calls ++ [analyzeCall world flow trial]) (analyzeCall world flow trial).after none := by
  obtain ⟨hsound, hcache⟩ := h.sound.analyze flow hdue hid
  have hnot : ¬(analyzeCall world flow trial).Hit := fun hhit => absurd hhit.1 Bool.false_ne_true.symm
  refine ⟨⟨?_, ?_, ?_, ?_⟩, hsound, by rw [List.getLast?_concat]; rfl, ?_⟩
  · intro pre call post hsplit
    obtain ⟨rfl, rfl, rfl⟩ | ⟨rest, -, hcalls⟩ := concat_split hsplit
    · exact h.last
    · exact h.linked pre call rest hcalls
  · intro call hcall hkind
    obtain hold | hnew := List.mem_append.mp hcall
    · exact h.answers call hold hkind
    · rw [List.mem_singleton.mp hnew] at hkind
      exact absurd hkind Bool.false_ne_true.symm
  · intro pre call post hsplit hhit
    obtain ⟨rfl, rfl, rfl⟩ | ⟨rest, rfl, hcalls⟩ := concat_split hsplit
    · exact absurd hhit hnot
    · right
      obtain ⟨rfl, hsome⟩ | ⟨next, rest', rfl, hnext⟩ := h.hit pre call rest hcalls hhit
      · -- the call is the last one, and this is its analysis
        have htrial := hdue _ hsome
        refine ⟨_, [], rfl, rfl, htrial, ?_⟩
        have hmem : call ∈ calls := by
          rw [hcalls]
          exact List.mem_append_right _ List.mem_cons_self
        have hlast := h.last
        rw [hcalls, List.getLast?_concat] at hlast
        rw [hcache, hsome, Option.isSome_some, if_pos rfl, hlast]
        exact (h.answers call hmem hhit.1).cache
      · exact ⟨next, rest' ++ [_], rfl, hnext⟩
  · intro pre call post hsplit hkind hprev
    obtain ⟨rfl, rfl, rfl⟩ | ⟨rest, -, hcalls⟩ := concat_split hsplit
    · have hnone : ¬due.isSome := by
        intro hsome
        obtain ⟨prev, hlast, hhit⟩ := h.due_iff.mp hsome
        exact hprev prev hlast hhit
      rw [hcache, if_neg hnone]
      rfl
    · exact h.miss pre call rest hcalls hkind hprev
  · rw [List.getLast?_concat]
    constructor
    · intro hsome
      exact absurd hsome Bool.false_ne_true
    · intro ⟨prev, hlast, hhit⟩
      rw [← Option.some.inj hlast] at hhit
      exact absurd hhit hnot

/-- Every run of regular calls is sound. -/
lemma CacheRun.inv (hstart : start.Loaded) (h : CacheRun τ start calls s due)
    (hcalls : ∀ call ∈ calls, call.Regular) : RunInv start calls s due := by
  induction h with
  | nil => exact ⟨SoundCalls.nil, hstart.sound, rfl, by simp⟩
  | generate flow trial _ hflow ih =>
    have hold := ih fun call hcall => hcalls call (List.mem_append_left _ hcall)
    exact hold.generate hflow (hcalls _ (List.mem_append_right _ (List.mem_singleton_self _))).1
  | analyze flow trial _ hdue ih =>
    have hold := ih fun call hcall => hcalls call (List.mem_append_left _ hcall)
    exact hold.analyze hdue (hcalls _ (List.mem_append_right _ (List.mem_singleton_self _))).2

end

/-! ## Calls in a session -/

section

variable {τ V W : Type} [LT V] [DecidableLT V]

/-- `cache_generate` with a record of the call, which the session does not see. -/
def recordGenerate (world : World ((τ × List (CacheCall V W)) × Cache V W)) (flow : Flow V)
    (trial : HTrial V W) :
    ℤ × World ((τ × List (CacheCall V W)) × Cache V W) × Flow V × HPerf W :=
  let (ret, after, flow', perf) := cacheGenerate world flow trial
  let calls := after.plug.1.2 ++ [generateCall world flow trial]
  (ret, { after with plug := ((after.plug.1.1, calls), after.plug.2) }, flow', perf)

/-- `cache_analyze` with a record of the call. -/
def recordAnalyze (world : World ((τ × List (CacheCall V W)) × Cache V W)) (flow : Flow V)
    (trial : HTrial V W) :
    ℤ × World ((τ × List (CacheCall V W)) × Cache V W) × Flow V × HPerf W :=
  let (ret, after, flow', perf) := cacheAnalyze world flow trial
  let calls := after.plug.1.2 ++ [analyzeCall world flow trial]
  (ret, { after with plug := ((after.plug.1.1, calls), after.plug.2) }, flow', perf)

/-- The call leaves the variables of `cache.c` as they are, and calls none of its functions. -/
def LeavesCache (plug plug' : (τ × List (CacheCall V W)) × Cache V W) : Prop :=
  plug'.1.2 = plug.1.2 ∧ plug'.2 = plug.2

/-- The cache layer is at place `k` of the stack. The other plug-ins do not see its variables, which are
`static`. -/
structure Plugins.HasCache (P : Plugins ((τ × List (CacheCall V W)) × Cache V W) V W) (k : ℕ) : Prop where
  place : ∃ layer, P.lstack[k]? = some layer ∧ layer.generate = some recordGenerate ∧
    layer.analyze = some recordAnalyze
  strategyGenerate : ∀ w flow point, LeavesCache w.plug (P.strategyGenerate w flow point).2.1.plug
  strategyRejected : ∀ w flow point, LeavesCache w.plug (P.strategyRejected w flow point).2.1.plug
  strategyAnalyze : ∀ w trial, LeavesCache w.plug (P.strategyAnalyze w trial).2.plug
  strategyBest : ∀ w point, LeavesCache w.plug (P.strategyBest w point).2.1.plug
  callback : ∀ cb ∈ P.cb, ∀ w flow trials, LeavesCache w.plug (cb.func w flow trials).2.1.plug
  layerGenerate : ∀ j layer, j ≠ k → P.lstack[j]? = some layer → ∀ hook ∈ layer.generate,
    ∀ w flow trial, LeavesCache w.plug (hook w flow trial).2.1.plug
  layerAnalyze : ∀ j layer, j ≠ k → P.lstack[j]? = some layer → ∀ hook ∈ layer.analyze,
    ∀ w flow trial, LeavesCache w.plug (hook w flow trial).2.1.plug

variable {P : Plugins ((τ × List (CacheCall V W)) × Cache V W) V W} {k : ℕ} {start : Cache V W}

/-- The calls so far are a run of the cache that is over. -/
def CallsDone (start : Cache V W) (plug : (τ × List (CacheCall V W)) × Cache V W) : Prop :=
  CacheRun (τ × List (CacheCall V W)) start plug.1.2 plug.2 none

/-- The analysis of a trial comes next. -/
def CallDue (start : Cache V W) (k : ℕ) (plug : (τ × List (CacheCall V W)) × Cache V W) (c : ℤ)
    (trial : HTrial V W) : Prop :=
  c = -(k + 1) ∧ CacheRun (τ × List (CacheCall V W)) start plug.1.2 plug.2 (some trial)

lemma CallsDone.leaves {plug plug' : (τ × List (CacheCall V W)) × Cache V W} (h : CallsDone start plug)
    (hleaves : LeavesCache plug plug') : CallsDone start plug' := by
  unfold CallsDone
  rw [hleaves.1, hleaves.2]
  exact h

/-- The workflow calls the cache in runs: where a trial was answered, its analysis comes next. -/
lemma Plugins.HasCache.guards (hP : P.HasCache k) : P.Guards (CallsDone start) (CallDue start k) where
  generate := fun w flow point h => h.leaves (hP.strategyGenerate w flow point)
  rejected := fun w flow point h => h.leaves (hP.strategyRejected w flow point)
  analyze := fun w trial h => h.leaves (hP.strategyAnalyze w trial)
  best := fun w point h => h.leaves (hP.strategyBest w point)
  callback := fun cb hcb w flow trials h => h.leaves (hP.callback cb hcb w flow trials)
  due_layer := by
    intro plug c trial hdue
    have hc := hdue.1
    constructor
    · omega
    · omega
  missing := by
    intro layer c hne hlayer hnone plug trial hdue
    obtain ⟨cache, hcache, hgenerate, hanalyze⟩ := hP.place
    have hc := hdue.1
    have hk : c.natAbs - 1 = k := by omega
    rw [hk, hcache] at hlayer
    obtain rfl := Option.some.inj hlayer
    rw [if_pos (show c < 0 by omega), hanalyze] at hnone
    exact absurd hnone (Option.some_ne_none _)
  hook := by
    intro layer c hne hlayer hook hhook w flow trial hflow hor
    by_cases hk : c.natAbs - 1 = k
    · obtain ⟨cache, hcache, hgenerate, hanalyze⟩ := hP.place
      rw [hk, hcache] at hlayer
      obtain rfl := Option.some.inj hlayer
      by_cases hneg : c < 0
      · rw [if_pos hneg, hanalyze] at hhook
        obtain rfl := Option.some.inj hhook
        left
        obtain hdone | hdue := hor
        · exact CacheRun.analyze flow trial hdone (fun t ht => absurd ht (Option.not_mem_none t))
        · exact CacheRun.analyze flow trial hdue.2 (fun t ht => Option.some.inj ht)
      · rw [if_neg hneg, hgenerate] at hhook
        obtain rfl := Option.some.inj hhook
        have hc : c = k + 1 := by omega
        have hdone : CallsDone start w.plug := by
          obtain hdone | hdue := hor
          · exact hdone
          · have hcall := hdue.1
            omega
        have hrun := CacheRun.generate flow trial hdone hflow
        obtain ⟨ret, hsame⟩ | ⟨visited, perf, hhit, -⟩ := cacheGenerate_cases w trial hflow
        · left
          obtain ⟨hafter, -, hdue⟩ := generateCall_same hflow hsame
          rw [hafter, hdue] at hrun
          unfold CallsDone recordGenerate
          rw [hsame]
          exact hrun
        · right
          obtain ⟨hafter, -, -, hdue⟩ := generateCall_hit hhit
          rw [hafter, hdue] at hrun
          unfold recordGenerate
          rw [hhit]
          refine ⟨rfl, rfl, ?_, hrun⟩
          omega
    · left
      have hdone : CallsDone start w.plug := by
        obtain hdone | hdue := hor
        · exact hdone
        · have hc := hdue.1
          omega
      split_ifs at hhook
      · exact hdone.leaves (hP.layerAnalyze _ layer hk hlayer hook hhook w flow trial)
      · exact hdone.leaves (hP.layerGenerate _ layer hk hlayer hook hhook w flow trial)

end

section

variable {τ V W : Type} [LinearOrder V] [Top W]
  {P : Plugins ((τ × List (CacheCall V W)) × Cache V W) V W} {k : ℕ}

/-- In a session with the cache in its stack, as long as it is not restarted, all calls of the cache for points
with an id are sound while the session is not converged. -/
theorem cache_calls_sound (hP : P.HasCache k) {start s : Sess ((τ × List (CacheCall V W)) × Cache V W) V W}
    (hloaded : start.world.plug.2.Loaded) (hnone : start.world.plug.1.2 = []) {alive : Bool}
    (h : Unrestarted P start alive s) (hcalls : ∀ call ∈ s.world.plug.1.2, call.Regular) :
    SoundCalls start.world.plug.2 s.world.plug.1.2 none := by
  have hstart : CallsDone start.world.plug.2 start.world.plug := by
    unfold CallsDone
    rw [hnone]
    exact CacheRun.nil
  have hrun : CallsDone start.world.plug.2 s.world.plug := hP.guards.unrestarted hstart h
  exact (CacheRun.inv hloaded hrun hcalls).toSoundCalls

end

/-! ## A session with a hit and a miss -/

/-- A strategy that tests two points in turn below the cache. -/
def twoInTurn : Plugins ((ℕ × List (CacheCall ℕ (WithTop ℕ))) × Cache ℕ (WithTop ℕ)) ℕ (WithTop ℕ) where
  strategyGenerate world flow _ :=
    let n := world.plug.1.1
    (0, { world with plug := ((n + 1, world.plug.1.2), world.plug.2) }, { flow with status := .accept },
      { id := n + 1, val := [.int (n % 2)] })
  strategyRejected world flow point := (-1, world, flow, point)
  strategyAnalyze world _ := (0, world)
  strategyBest world point := (0, world, point)
  strategyInit := none
  lstack := [{ generate := some recordGenerate, analyze := some recordAnalyze, init := none, fini := none }]
  cb := []
  cb_index := fun _ hc => absurd hc List.not_mem_nil

lemma twoInTurn_hasCache : twoInTurn.HasCache 0 where
  place := ⟨_, rfl, rfl, rfl⟩
  strategyGenerate := fun _ _ _ => ⟨rfl, rfl⟩
  strategyRejected := fun _ _ _ => ⟨rfl, rfl⟩
  strategyAnalyze := fun _ _ => ⟨rfl, rfl⟩
  strategyBest := fun _ _ => ⟨rfl, rfl⟩
  callback := fun _ hc => absurd hc List.not_mem_nil
  layerGenerate := by
    intro j layer hj hlayer
    rw [show twoInTurn.lstack[j]? = none from List.getElem?_eq_none (Nat.one_le_iff_ne_zero.mpr hj)] at hlayer
    exact absurd hlayer.symm (Option.some_ne_none layer)
  layerAnalyze := by
    intro j layer hj hlayer
    rw [show twoInTurn.lstack[j]? = none from List.getElem?_eq_none (Nat.one_le_iff_ne_zero.mpr hj)] at hlayer
    exact absurd hlayer.symm (Option.some_ne_none layer)

/-- The numeral 5 of a performance, as one constant. -/
lemma five_atLeastTwo : Nat.AtLeastTwo 5 := ⟨by decide⟩

attribute [local instance] five_atLeastTwo in
/-- A session with one of the two points in the cache. -/
def oneLoaded : Sess ((ℕ × List (CacheCall ℕ (WithTop ℕ))) × Cache ℕ (WithTop ℕ)) ℕ (WithTop ℕ) :=
  Sess.start { plug := ((0, []), { cache := [{ point := { id := 0, val := [.int 0] }, perf := ⟨[5]⟩ }]
                                   visited := [], skip := false })
               cfg := hcfgAlloc, errmsg := none } 2

instance (call : CacheCall ℕ (WithTop ℕ)) : Decidable call.Regular :=
  inferInstanceAs (Decidable (_ ∧ _))

/-- The first trial is answered and analyzed at once, the second one goes to a client first. -/
theorem cache_calls_sound_hit_and_miss : ∃ s, Unrestarted twoInTurn oneLoaded true s ∧
    (s.world.plug.1.2.map fun call => (call.analysis, call.status)) =
      [(false, .ret), (true, .accept), (false, .accept), (true, .accept)] ∧
    SoundCalls oneLoaded.world.plug.2 s.world.plug.1.2 none := by
  have hview : (sessRun twoInTurn 3 oneLoaded [.generate, .generate, .mesg none .fetch,
      .mesg none (.report 2 { p := [3] })]).map (fun s =>
        ((s.world.plug.1.2.map fun call => (call.analysis, call.status)),
          decide (∀ call ∈ s.world.plug.1.2, call.Regular))) =
      some ([(false, .ret), (true, .accept), (false, .accept), (true, .accept)], true) := by
    decide +kernel
  obtain ⟨s, hrun, hs⟩ := Option.map_eq_some_iff.mp hview
  obtain ⟨hcalls, hregular⟩ := Prod.mk.inj hs
  have hreach : Unrestarted twoInTurn oneLoaded true s := by
    apply Unrestarted.init.run _ hrun
    intro e he hrestarts
    simp only [List.mem_cons, List.not_mem_nil, or_false] at he
    obtain rfl | rfl | rfl | rfl := he
    all_goals exact hrestarts
  exact ⟨s, hreach, hcalls,
    cache_calls_sound twoInTurn_hasCache ⟨rfl, rfl⟩ rfl hreach (of_decide_eq_true hregular)⟩

end ActiveHarmony

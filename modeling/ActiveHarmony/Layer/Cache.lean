import ActiveHarmony.Strategy.Common

/-!
# The layer `cache.c`

`cache_generate` answers a point that is in the cache with RETURN, and `cache_analyze` enters the
points that are not. A point that was looked up before gets the next of its entries.

The layer shares its session with a strategy, whose variables are the first component of `plug`.
-/

namespace ActiveHarmony

/-! ## The part of the strategy -/

section

variable {τ κ : Type}

/-- What the strategy sees. -/
def World.left (world : World (τ × κ)) : World τ :=
  { plug := world.plug.1, cfg := world.cfg, errmsg := world.errmsg }

/-- What the strategy leaves. -/
def World.withLeft (world : World (τ × κ)) (w : World τ) : World (τ × κ) :=
  { plug := (w.plug, world.plug.2), cfg := w.cfg, errmsg := w.errmsg }

@[simp]
lemma World.withLeft_left (world : World (τ × κ)) (w : World τ) : (world.withLeft w).left = w := rfl

@[simp]
lemma World.withLeft_right (world : World (τ × κ)) (w : World τ) :
    (world.withLeft w).plug.2 = world.plug.2 := rfl

end

/-! ## The cache -/

/-- `cache_t`. -/
structure CacheEntry (V W : Type) where
  point : HPoint V
  perf : HPerf W
deriving DecidableEq, Repr

/-- `visited_t`. -/
structure Visited (V : Type) where
  point : HPoint V
  /-- Times visited: the number of the matching entry to get. -/
  count : ℕ
  /-- How many times this point appears in the data. -/
  totalNum : ℕ
deriving DecidableEq, Repr

/-- The variables of `cache.c`. -/
structure Cache (V W : Type) where
  cache : List (CacheEntry V W)
  visited : List (Visited V)
  skip : Bool
deriving DecidableEq, Repr

variable {τ V W : Type} [LT V] [DecidableLT V]

/-- The loop of `pt_equiv` for one value. The message for a value without a type is left out. -/
def valEquiv : HVal V → HVal V → Bool
  | .int i, .int j => i = j
  | .real x, .real y => !(x < y ∨ y < x)
  | .str s, .str t => s = t
  | _, _ => false

/-- `pt_equiv`. -/
def ptEquiv (a b : HPoint V) : Bool :=
  a.val.length = b.val.length && (a.val.zip b.val).all fun vs => valEquiv vs.1 vs.2

/-- `find_visited`. -/
def findVisited (s : Cache V W) (pt : HPoint V) : Option ℕ := s.visited.findIdx? (ptEquiv pt ·.point)

/-- The lookup of `cache_generate`: the performance of the matching entry with the wanted number, and
how many matching entries were seen. With 0 or without a number it is the first one. -/
def cacheLookup (pt : HPoint V) (want : Option ℕ) : ℕ → List (CacheEntry V W) → Option (HPerf W) × ℕ
  | ptNum, [] => (none, ptNum)
  | ptNum, entry :: entries =>
    if ptEquiv pt entry.point then
      if want.all fun count => ptNum + 1 = count ∨ count = 0 then (some entry.perf, ptNum + 1)
      else cacheLookup pt want (ptNum + 1) entries
    else cacheLookup pt want ptNum entries

omit [LT V] [DecidableLT V] in
/-- Whether a session is converged. -/
def World.converged (world : World τ) : Bool :=
  ((hcfgGet world.cfg cfgkeyStrategyConverged).bind List.head?) = some 49

omit [LT V] [DecidableLT V] in
/-- A hit of the cache. -/
def cacheHit (world : World (τ × Cache V W)) (flow : Flow V) (visited : List (Visited V))
    (perf : HPerf W) : ℤ × World (τ × Cache V W) × Flow V × HPerf W :=
  let s := world.plug.2
  (0, { world with plug := (world.plug.1, { s with visited := visited, skip := true }) },
    { flow with status := .ret }, perf)

/-- `cache_generate`. -/
def cacheGenerate (world : World (τ × Cache V W)) (flow : Flow V) (trial : HTrial V W) :
    ℤ × World (τ × Cache V W) × Flow V × HPerf W :=
  let s := world.plug.2
  -- the value of HFLOW_ACCEPT, which is not 0
  if world.converged then (1, world, flow, trial.perf)
  else
    match (findVisited s trial.point).bind fun i => s.visited[i]?.map fun pt => (i, pt) with
    | none =>
      match (cacheLookup trial.point none 0 s.cache).1 with
      | some perf => cacheHit world flow s.visited perf
      | none => (0, world, if s.skip then flow else { flow with status := .accept }, trial.perf)
    | some (i, pt) =>
      -- wrapping around
      let count := if 0 < pt.totalNum ∧ pt.totalNum < pt.count then pt.count % pt.totalNum + 1
        else pt.count
      match cacheLookup trial.point (some count) 0 s.cache with
      | (some perf, _) => cacheHit world flow (s.visited.set i { pt with count := count }) perf
      | (none, ptNum) =>
        -- reached end of data
        let pt := { pt with totalNum := ptNum, count := count % ptNum }
        match (cacheLookup trial.point (some pt.count) 0 s.cache).1 with
        | some perf => cacheHit world flow (s.visited.set i pt) perf
        -- not reached in a session: a visited point is in the cache
        | none => (0, world, flow, trial.perf)

/-- `cache_analyze`. -/
def cacheAnalyze (world : World (τ × Cache V W)) (flow : Flow V) (trial : HTrial V W) :
    ℤ × World (τ × Cache V W) × Flow V × HPerf W :=
  let s := world.plug.2
  let cache := if s.skip then s.cache
    else s.cache ++ [{ point := hpointCopy trial.point, perf := trial.perf }]
  let world := sessionError world (cstr "cache_analyze")
  let visited := match findVisited s trial.point with
    | none => s.visited ++ [{ point := hpointCopy trial.point, count := 2, totalNum := 0 }]
    | some i => s.visited.modify i fun pt => { pt with count := pt.count + 1 }
  (0, { world with plug := (world.plug.1, { cache := cache, visited := visited, skip := false }) },
    { flow with status := .accept }, trial.perf)

omit [LT V] [DecidableLT V] in
/-- `cache_init`, with what it reads from a log file as a parameter. -/
def cacheInit (load : Bytes → Option (List (CacheEntry V W))) (world : World (τ × Cache V W)) :
    ℤ × World (τ × Cache V W) :=
  let s := { world.plug.2 with cache := [], visited := [] }
  match hcfgGet world.cfg (cstr "CACHE_FILE") with
  | none => (0, { world with plug := (world.plug.1, s) })
  | some filename =>
    match load filename with
    | none => (-1, { world with plug := (world.plug.1, s) })
    | some cache => (0, { world with plug := (world.plug.1, { s with cache := cache }) })

/-- The layer. `cache_fini` frees memory that `cache_init` does not look at. -/
def cacheLayer (load : Bytes → Option (List (CacheEntry V W))) : Layer (τ × Cache V W) V W where
  generate := some cacheGenerate
  analyze := some cacheAnalyze
  init := some (cacheInit load)
  fini := some fun world => (0, world)

/-- A point is in the cache. -/
def Cached (s : Cache V W) (pt : HPoint V) : Prop := ∃ entry ∈ s.cache, ptEquiv pt entry.point = true

instance (s : Cache V W) (pt : HPoint V) : Decidable (Cached s pt) :=
  inferInstanceAs (Decidable (∃ entry ∈ s.cache, _))

/-! ## Hits -/

/-- The performances of the entries for a point, in the order of the cache. -/
def occurrences (pt : HPoint V) (entries : List (CacheEntry V W)) : List (HPerf W) :=
  (entries.filter fun entry => ptEquiv pt entry.point).map CacheEntry.perf

variable {pt : HPoint V} {entries : List (CacheEntry V W)} {s : Cache V W}

lemma occurrences_cons (entry : CacheEntry V W) : occurrences pt (entry :: entries) =
    if ptEquiv pt entry.point then entry.perf :: occurrences pt entries else occurrences pt entries := by
  unfold occurrences
  rw [List.filter_cons]
  split_ifs
  · rfl
  · rfl

lemma cached_iff : Cached s pt ↔ occurrences pt s.cache ≠ [] := by
  unfold occurrences Cached
  rw [Ne, List.map_eq_nil_iff, List.filter_eq_nil_iff]
  constructor
  · intro ⟨entry, hentry, hequiv⟩ hnone
    exact hnone entry hentry hequiv
  · intro hsome
    by_contra hnone
    apply hsome
    intro entry hentry hequiv
    exact hnone ⟨entry, hentry, hequiv⟩

variable (pt entries) in
/-- Without a number, or with 0, the lookup goes to the first occurrence. -/
lemma cacheLookup_head {want : Option ℕ} (hwant : want = none ∨ want = some 0) (ptNum : ℕ) :
    (cacheLookup pt want ptNum entries).1 = (occurrences pt entries).head? := by
  induction entries with
  | nil => rfl
  | cons entry entries ih =>
    have hall : (want.all fun count => ptNum + 1 = count ∨ count = 0) = true := by
      obtain rfl | rfl := hwant
      · rfl
      · simp
    rw [cacheLookup, occurrences_cons]
    split_ifs with hequiv
    · rfl
    · exact ih

variable (pt entries) in
/-- With a number, the lookup goes to the occurrence with that number. -/
lemma cacheLookup_nth {count ptNum : ℕ} (hcount : ptNum < count) :
    (cacheLookup pt (some count) ptNum entries).1 = (occurrences pt entries)[count - ptNum - 1]? ∧
      ((cacheLookup pt (some count) ptNum entries).1 = none →
        (cacheLookup pt (some count) ptNum entries).2 = ptNum + (occurrences pt entries).length) := by
  induction entries generalizing ptNum with
  | nil => exact ⟨rfl, fun _ => rfl⟩
  | cons entry entries ih =>
    rw [cacheLookup, occurrences_cons]
    by_cases hequiv : ptEquiv pt entry.point = true
    · rw [if_pos hequiv, if_pos hequiv]
      by_cases hlast : ptNum + 1 = count
      · have hall : ((some count).all fun count => ptNum + 1 = count ∨ count = 0) = true := by
          simp [hlast]
        have hzero : count - ptNum - 1 = 0 := by omega
        rw [if_pos hall, hzero]
        exact ⟨rfl, fun hnone => absurd hnone (Option.some_ne_none _)⟩
      · have hall : ¬((some count).all fun count => ptNum + 1 = count ∨ count = 0) = true := by
          rw [Option.all_some, decide_eq_true_eq]
          omega
        have hnext : count - ptNum - 1 = (count - (ptNum + 1) - 1) + 1 := by omega
        rw [if_neg hall, hnext, List.getElem?_cons_succ, List.length_cons]
        obtain ⟨hperf, hend⟩ := ih (show ptNum + 1 < count by omega)
        refine ⟨hperf, ?_⟩
        intro hnone
        rw [hend hnone]
        omega
    · rw [if_neg hequiv, if_neg hequiv]
      exact ih hcount

/-- With a number that is not too great the lookup goes to its occurrence; with 0 that is the first one. -/
lemma cacheLookup_at {count : ℕ} (hcached : occurrences pt entries ≠ [])
    (hle : count ≤ (occurrences pt entries).length) :
    ∃ perf, (occurrences pt entries)[count - 1]? = some perf ∧
      (cacheLookup pt (some count) 0 entries).1 = some perf := by
  have hlen := List.length_pos_of_ne_nil hcached
  have hlt : count - 1 < (occurrences pt entries).length := by omega
  refine ⟨_, List.getElem?_eq_getElem hlt, ?_⟩
  obtain rfl | hpos := Nat.eq_zero_or_pos count
  · rw [cacheLookup_head pt entries (Or.inr rfl), List.head?_eq_getElem?]
    exact List.getElem?_eq_getElem hlt
  · rw [(cacheLookup_nth pt entries hpos).1]
    exact List.getElem?_eq_getElem hlt

/-- With a greater number the lookup counts the occurrences. -/
lemma cacheLookup_past {count : ℕ} (hlt : (occurrences pt entries).length < count) :
    cacheLookup pt (some count) 0 entries = (none, (occurrences pt entries).length) := by
  obtain ⟨hperf, hend⟩ := cacheLookup_nth pt entries (show 0 < count by omega)
  have hnone : (cacheLookup pt (some count) 0 entries).1 = none := by
    rw [hperf, List.getElem?_eq_none (by omega)]
  apply Prod.ext
  · exact hnone
  · rw [hend hnone, Nat.zero_add]

lemma cacheLookup_none (want : Option ℕ) (h : ∀ entry ∈ entries, ptEquiv pt entry.point = false) (ptNum : ℕ) :
    cacheLookup pt want ptNum entries = (none, ptNum) := by
  induction entries with
  | nil => rfl
  | cons entry entries ih =>
    rw [cacheLookup, if_neg (by rw [h entry List.mem_cons_self]; decide)]
    exact ih fun other hother => h other (List.mem_cons_of_mem entry hother)

variable {world : World (τ × Cache V W)} {flow : Flow V} {trial : HTrial V W}

/-- A point in the cache is a hit. -/
lemma cacheGenerate_cached (hopen : world.converged = false)
    (hcached : Cached world.plug.2 trial.point) :
    ∃ visited perf, cacheGenerate world flow trial = cacheHit world flow visited perf := by
  have hne := cached_iff.mp hcached
  unfold cacheGenerate
  rw [if_neg (by rw [hopen]; decide)]
  cases (findVisited world.plug.2 trial.point).bind fun i =>
      world.plug.2.visited[i]?.map fun pt => (i, pt) with
  | none =>
    have hlook := cacheLookup_head trial.point world.plug.2.cache (Or.inl rfl) 0
    rw [List.head?_eq_some_head hne] at hlook
    simp only [hlook]
    exact ⟨_, _, rfl⟩
  | some found =>
    rcases found with ⟨i, pt⟩
    dsimp only
    generalize (if 0 < pt.totalNum ∧ pt.totalNum < pt.count then pt.count % pt.totalNum + 1
      else pt.count) = count
    obtain hle | hlt := le_or_gt count (occurrences trial.point world.plug.2.cache).length
    · obtain ⟨perf, -, hlook⟩ := cacheLookup_at hne hle
      obtain ⟨ptNum, hpair⟩ : ∃ ptNum, cacheLookup trial.point (some count) 0 world.plug.2.cache =
          (some perf, ptNum) := ⟨_, Prod.ext hlook rfl⟩
      simp only [hpair]
      exact ⟨_, _, rfl⟩
    · -- the number was too large, so all occurrences were counted
      have hlen := List.length_pos_of_ne_nil hne
      obtain ⟨perf, -, hlook⟩ := cacheLookup_at hne (Nat.mod_lt count hlen).le
      simp only [cacheLookup_past hlt, hlook]
      exact ⟨_, _, rfl⟩

/-- Other points go on to the next layer. -/
lemma cacheGenerate_new (hopen : world.converged = false)
    (hnew : ¬ Cached world.plug.2 trial.point) (hflow : flow.status = .accept) :
    cacheGenerate world flow trial = (0, world, flow, trial.perf) := by
  have hnone : ∀ entry ∈ world.plug.2.cache, ptEquiv trial.point entry.point = false :=
    fun entry hentry => Bool.eq_false_iff.mpr fun heq => hnew ⟨entry, hentry, heq⟩
  unfold cacheGenerate
  rw [if_neg (by rw [hopen]; decide)]
  cases (findVisited world.plug.2 trial.point).bind fun i =>
      world.plug.2.visited[i]?.map fun pt => (i, pt) with
  | none =>
    simp only [cacheLookup_none none hnone]
    have haccept : { flow with status := .accept } = flow := by rw [← hflow]
    rw [haccept, ite_self]
  | some found =>
    simp only [cacheLookup_none _ hnone]

/-- A converged session gets the answer HFLOW_ACCEPT as an error. -/
lemma cacheGenerate_converged (hconv : world.converged = true) :
    cacheGenerate world flow trial = (1, world, flow, trial.perf) := by
  unfold cacheGenerate
  rw [if_pos hconv]

end ActiveHarmony

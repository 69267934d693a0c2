import ActiveHarmony.Lib.PrefixArray
import ActiveHarmony.Server.Core
import ActiveHarmony.Strategy.Common
import Mathlib.Algebra.Field.Rat

/-!
# The layer `agg.c`

Each point is measured several times before it goes on to the strategy. The measurements of a point
are collected in a slot of a list: `agg_analyze` takes the first slot that is free or has the id of the
point, so a slot that becomes free in front of the slot of a point takes over. `trials_not_mixed` says
that the layer works as `Inv` describes in every run without such a step.
-/

namespace ActiveHarmony.Agg

/-- `store_t`. The cells of `trial` are `none` while they are `NULL`. -/
structure Store (W : Type) where
  id : ℤ
  count : ℕ
  trial : List (Option (HPerf W))
deriving DecidableEq, Repr

/-- `aggfunc_t`. -/
inductive AggFunc where
  | unknown | min | max | mean | median
deriving DecidableEq, Repr

/-- The variables of `agg.c`; `slist_len` is the length of `slist`. -/
structure Layer (W : Type) where
  aggType : AggFunc
  trialPerPoint : ℤ
  slist : List (Store W)
deriving DecidableEq, Repr

variable {τ V W : Type}

/-- A change to the variables of the layer. -/
def withLayer (world : World (τ × Layer W)) (s : Layer W) : World (τ × Layer W) :=
  { world with plug := (world.plug.1, s) }

@[simp]
lemma withLayer_plug (world : World (τ × Layer W)) (s : Layer W) : (withLayer world s).plug.2 = s := rfl

@[simp]
lemma withLayer_withLayer (world : World (τ × Layer W)) (s s' : Layer W) :
    withLayer (withLayer world s) s' = withLayer world s' := rfl

/-- `add_storage`, with enough memory for every array but one of negative length. -/
def addStorage (world : World (τ × Layer W)) : ℤ × World (τ × Layer W) :=
  let s := world.plug.2
  if s.trialPerPoint < 0 then
    (-1, sessionError world (cstr "Could not allocate memory for trial list"))
  else
    let store := { id := -1, count := 0, trial := List.replicate s.trialPerPoint.toNat none }
    let stores := List.replicate (Hserver.grownCap s.slist.length - s.slist.length) store
    (0, withLayer world { s with slist := s.slist ++ stores })

/-- The names of the aggregating functions. -/
def aggFunc? (val : Bytes) : Option AggFunc :=
  if strcaseEq val (cstr "MIN") then some .min
  else if strcaseEq val (cstr "MAX") then some .max
  else if strcaseEq val (cstr "MEAN") then some .mean
  else if strcaseEq val (cstr "MEDIAN") then some .median
  else none

lemma aggFunc?_ne_unknown {val : Bytes} {aggType : AggFunc} (h : aggFunc? val = some aggType) :
    aggType ≠ .unknown := by
  unfold aggFunc? at h
  split_ifs at h <;> (rw [← Option.some.inj h]; decide)

/-- `agg_init`. -/
def aggInit (world : World (τ × Layer W)) : ℤ × World (τ × Layer W) :=
  match hcfgGet world.cfg (cstr "AGG_FUNC") with
  | none => (-1, sessionError world (cstr "AGG_FUNC configuration key empty"))
  | some val =>
    match aggFunc? val with
    | none => (-1, sessionError world (cstr "Invalide AGG_FUNC configuration value"))
    | some aggType =>
      match hcfgGet world.cfg (cstr "AGG_TIMES") with
      | none => (-1, sessionError world (cstr "AGG_TIMES configuration key empty"))
      | some val =>
        if atoi val = 0 then (-1, sessionError world (cstr "Invalid AGG_TIMES configuration value"))
        else
          addStorage (withLayer world { aggType := aggType, trialPerPoint := atoi val, slist := [] })

section

variable [Add W] [Zero W] [Div W] [IntCast W]

/-- Add the objectives of a performance to the sums so far; `none` if it has too few. -/
def addObjectives (sum : List W) (perf : HPerf W) : Option (List W) :=
  if sum.length ≤ perf.p.length then some (List.zipWith (· + ·) sum perf.p) else none

/-- `perf_mean` over the first `count` cells of `src`; `none` if it reads what is not there. -/
def perfMean (trialPerPoint : ℤ) (dst : HPerf W) (src : List (Option (HPerf W))) (count : ℕ) :
    Option (HPerf W) :=
  -- without objectives no cell is read
  if dst.p.isEmpty then some dst
  else if src.length < count then none
  else
    ((src.take count).mapM id).bind fun perfs =>
      (perfs.foldlM addObjectives (dst.p.map fun _ => 0)).map fun sum =>
        { p := sum.map (· / (trialPerPoint : W)) }

variable [LT W] [DecidableLT W]

/-- The `switch` of `agg_analyze`: the performance and the cells afterwards. -/
def aggregate (s : Layer W) (perf : HPerf W) (trial : List (Option (HPerf W))) :
    Option (HPerf W × List (Option (HPerf W))) :=
  ((trial.take s.trialPerPoint.toNat).mapM id).bind fun perfs =>
    match s.aggType with
    | .unknown => none
    | .min => some (perfs.foldl (fun best p => if 0 < hperfCmp best p then p else best) perf, trial)
    | .max => some (perfs.foldl (fun best p => if hperfCmp best p < 0 then p else best) perf, trial)
    | .mean => (perfMean s.trialPerPoint perf trial s.trialPerPoint.toNat).map fun mean => (mean, trial)
    | .median =>
      -- `qsort`
      let sorted := (perfs.mergeSort fun a b => ¬hperfUnify b < hperfUnify a).map some
      let i := ((s.trialPerPoint - 1) / 2).toNat
      if i % 2 ≠ 0 then (sorted[i]?.bind id).map fun middle => (middle, sorted)
      else (perfMean s.trialPerPoint perf (sorted.drop i) 2).map fun mean => (mean, sorted)

/-- `agg_analyze`; `none` if it reads or writes what is not there. -/
def aggAnalyze (world : World (τ × Layer W)) (flow : Flow V) (trial : HTrial V W) :
    Option (ℤ × World (τ × Layer W) × Flow V × HPerf W) :=
  let s := world.plug.2
  let i := s.slist.findIdx fun store => store.id = trial.point.id ∨ store.id = -1
  let (ret, world) := if i = s.slist.length then addStorage world else (0, world)
  if ret ≠ 0 then some (-1, world, flow, trial.perf)
  else
    let s := world.plug.2
    s.slist[i]?.bind fun store =>
      let store := if store.id = -1 then { store with id := trial.point.id, count := 0 } else store
      if store.count < store.trial.length then
        let store := { store with trial := store.trial.set store.count (some trial.perf)
                                  count := store.count + 1 }
        let put (store : Store W) := withLayer world { s with slist := s.slist.set i store }
        if (store.count : ℤ) < s.trialPerPoint then
          some (0, put store, { flow with status := .retry }, trial.perf)
        else if s.aggType = .unknown then
          some (-1, sessionError (put store) (cstr "Internal error: Invalid AGG type"), flow, trial.perf)
        else
          (aggregate s trial.perf store.trial).map fun res =>
            (0, put { id := -1, count := 0, trial := res.2 }, { flow with status := .accept }, res.1)
      else none

end

/-! ## The slots of the points -/

/-- The slots hold the measurements `pending` of the points that are not complete, each of `objectives`
values. -/
structure Inv (n objectives : ℕ) (pending : ℤ → List (HPerf W)) (slist : List (Store W)) : Prop where
  width : ∀ store ∈ slist, store.trial.length = n
  distinct : ∀ {i j : ℕ} {store store' : Store W}, slist[i]? = some store → slist[j]? = some store' →
    store.id = store'.id → store.id ≠ -1 → i = j
  slot : ∀ store ∈ slist, store.id ≠ -1 → pending store.id ≠ [] ∧
    store.count = (pending store.id).length ∧
    store.trial.take store.count = (pending store.id).map some
  kept : ∀ id, pending id ≠ [] → id ≠ -1 ∧ ∃ store ∈ slist, store.id = id
  short : ∀ id, (pending id).length < n
  sized : ∀ id, ∀ perf ∈ pending id, perf.p.length = objectives

variable {n objectives : ℕ} {pending : ℤ → List (HPerf W)} {slist : List (Store W)}

/-- Free slots do not matter. -/
lemma Inv.append_free (h : Inv n objectives pending slist) {stores : List (Store W)}
    (hstores : ∀ store ∈ stores, store.id = -1 ∧ store.trial.length = n) :
    Inv n objectives pending (slist ++ stores) := by
  have hold : ∀ {i : ℕ} {store : Store W}, (slist ++ stores)[i]? = some store → store.id ≠ -1 →
      slist[i]? = some store := by
    intro i store hi hid
    rw [List.getElem?_append] at hi
    split_ifs at hi with hlt
    · exact hi
    · exact absurd (hstores store (List.mem_of_getElem? hi)).1 hid
  constructor
  · intro store hmem
    rw [List.mem_append] at hmem
    obtain hmem | hmem := hmem
    · exact h.width store hmem
    · exact (hstores store hmem).2
  · intro i j store store' hi hj heq hid
    exact h.distinct (hold hi hid) (hold hj (heq ▸ hid)) heq hid
  · intro store hmem hid
    rw [List.mem_append] at hmem
    obtain hmem | hmem := hmem
    · exact h.slot store hmem hid
    · exact absurd (hstores store hmem).1 hid
  · intro id hid
    obtain ⟨hne, store, hmem, heq⟩ := h.kept id hid
    exact ⟨hne, store, List.mem_append_left _ hmem, heq⟩
  · exact h.short
  · exact h.sized

/-- What a slot may hold for a point with the measurements `mine`. -/
def Store.Holds (store : Store W) (id : ℤ) (mine : List (HPerf W)) : Prop :=
  (store.id = -1 ∧ mine = []) ∨
    (store.id = id ∧ id ≠ -1 ∧ mine ≠ [] ∧ store.count = mine.length ∧
      store.trial.take store.count = mine.map some)

/-- The slot of a point, or a free one if it has none, changes. -/
lemma Inv.set (h : Inv n objectives pending slist) {i : ℕ} {store store' : Store W} {id : ℤ}
    (hi : slist[i]? = some store) (hstore : store.Holds id (pending id)) {mine : List (HPerf W)}
    (hwidth : store'.trial.length = n) (hholds : store'.Holds id mine) (hshort : mine.length < n)
    (hsized : ∀ perf ∈ mine, perf.p.length = objectives) :
    Inv n objectives (Function.update pending id mine) (slist.set i store') := by
  have hlt : i < slist.length := (List.getElem?_eq_some_iff.mp hi).1
  -- no other slot has the id of the point
  have hother : ∀ {j : ℕ} {other : Store W}, slist[j]? = some other → other.id = id → id ≠ -1 → j = i := by
    intro j other hj hid hne
    obtain ⟨-, hnil⟩ | ⟨hown, -⟩ := hstore
    · rw [← hid] at hnil
      exact absurd hnil (h.slot other (List.mem_of_getElem? hj) (hid ▸ hne)).1
    · exact h.distinct hj hi (hid.trans hown.symm) (hid ▸ hne)
  have hset : ∀ {j : ℕ} {other : Store W}, (slist.set i store')[j]? = some other →
      (j = i ∧ other = store') ∨ (j ≠ i ∧ slist[j]? = some other) := by
    intro j other hj
    by_cases hji : j = i
    · rw [hji, List.getElem?_set_self hlt] at hj
      exact Or.inl ⟨hji, (Option.some.inj hj).symm⟩
    · rw [List.getElem?_set_ne (Ne.symm hji)] at hj
      exact Or.inr ⟨hji, hj⟩
  constructor
  · intro other hmem
    obtain hmem | rfl := List.mem_or_eq_of_mem_set hmem
    · exact h.width other hmem
    · exact hwidth
  · intro j k a b hj hk heq hid
    obtain ⟨hji, rfl⟩ | ⟨hji, hold⟩ := hset hj
    · obtain ⟨hki, -⟩ | ⟨hki, hold⟩ := hset hk
      · exact hji.trans hki.symm
      · obtain ⟨hfree, -⟩ | ⟨hown, hne, -⟩ := hholds
        · exact absurd hfree hid
        · exact absurd (hother hold (heq ▸ hown) hne) hki
    · obtain ⟨-, rfl⟩ | ⟨-, hold'⟩ := hset hk
      · obtain ⟨hfree, -⟩ | ⟨hown, hne, -⟩ := hholds
        · exact absurd (heq.trans hfree) hid
        · exact absurd (hother hold (heq.trans hown) hne) hji
      · exact h.distinct hold hold' heq hid
  · intro other hmem hid
    obtain ⟨j, hj⟩ := List.mem_iff_getElem?.mp hmem
    obtain ⟨rfl, rfl⟩ | ⟨hji, hj⟩ := hset hj
    · obtain ⟨hfree, -⟩ | ⟨hown, -, hmine, hcount, htake⟩ := hholds
      · exact absurd hfree hid
      · rw [hown, Function.update_self]
        exact ⟨hmine, hcount, htake⟩
    · have hne : other.id ≠ id := fun heq => hji (hother hj heq (heq ▸ hid))
      rw [Function.update_of_ne hne]
      exact h.slot other (List.mem_of_getElem? hj) hid
  · intro key hkey
    by_cases heq : key = id
    · rw [heq, Function.update_self] at hkey
      obtain ⟨-, hnil⟩ | ⟨hown, hne, -⟩ := hholds
      · exact absurd hnil hkey
      · exact ⟨heq ▸ hne, store', List.mem_set hlt _, hown.trans heq.symm⟩
    · rw [Function.update_of_ne heq] at hkey
      obtain ⟨hne, other, hmem, hid⟩ := h.kept key hkey
      obtain ⟨j, hj⟩ := List.mem_iff_getElem?.mp hmem
      have hji : j ≠ i := by
        intro hji
        rw [hji, hi] at hj
        obtain rfl := Option.some.inj hj
        obtain ⟨hfree, -⟩ | ⟨hown, -⟩ := hstore
        · exact hne (hid.symm.trans hfree)
        · exact heq (hid.symm.trans hown)
      have hkept : (slist.set i store')[j]? = some other := by
        rw [List.getElem?_set_ne (Ne.symm hji)]
        exact hj
      exact ⟨hne, other, List.mem_of_getElem? hkept, hid⟩
  · intro key
    by_cases heq : key = id
    · rw [heq, Function.update_self]
      exact hshort
    · rw [Function.update_of_ne heq]
      exact h.short key
  · intro key
    by_cases heq : key = id
    · rw [heq, Function.update_self]
      exact hsized
    · rw [Function.update_of_ne heq]
      exact h.sized key

/-! ## The aggregating functions -/

/-- What the aggregating functions read when all cells are filled. -/
lemma mapM_some (perfs : List (HPerf W)) : (perfs.map some).mapM id = some perfs := by
  induction perfs with
  | nil => rfl
  | cons perf perfs ih =>
    rw [List.map_cons, List.mapM_cons, ih]
    rfl

section

variable [Add W] [Zero W] [Div W] [IntCast W]

omit [Zero W] [Div W] [IntCast W] in
lemma addObjectives_sized {sum : List W} {perf : HPerf W} (h : perf.p.length = sum.length) :
    addObjectives sum perf = some (List.zipWith (· + ·) sum perf.p) ∧
      (List.zipWith (· + ·) sum perf.p).length = sum.length := by
  constructor
  · unfold addObjectives
    rw [if_pos (by omega)]
  · rw [List.length_zipWith]
    omega

omit [Zero W] [Div W] [IntCast W] in
lemma foldlM_addObjectives {sum : List W} {perfs : List (HPerf W)}
    (hperfs : ∀ perf ∈ perfs, perf.p.length = sum.length) :
    ∃ sum', perfs.foldlM addObjectives sum = some sum' := by
  induction perfs generalizing sum with
  | nil => exact ⟨sum, rfl⟩
  | cons perf perfs ih =>
    obtain ⟨hadd, hzip⟩ := addObjectives_sized (hperfs perf List.mem_cons_self)
    obtain ⟨sum', hsum⟩ := @ih (List.zipWith (· + ·) sum perf.p)
      (fun p hp => (hperfs p (List.mem_cons_of_mem perf hp)).trans hzip.symm)
    refine ⟨sum', ?_⟩
    rw [List.foldlM_cons, hadd]
    exact hsum

lemma perfMean_isSome (times : ℤ) {dst : HPerf W} {perfs : List (HPerf W)} {count : ℕ}
    (hcount : count ≤ perfs.length) (hperfs : ∀ perf ∈ perfs, perf.p.length = dst.p.length) :
    ∃ mean, perfMean times dst (perfs.map some) count = some mean := by
  have hmean : ∀ perf ∈ perfs.take count, perf.p.length = (dst.p.map fun _ => (0 : W)).length := by
    intro perf hperf
    rw [List.length_map]
    exact hperfs perf (List.mem_of_mem_take hperf)
  obtain ⟨sum, hsum⟩ := foldlM_addObjectives hmean
  unfold perfMean
  by_cases hempty : dst.p.isEmpty
  · exact ⟨dst, if_pos hempty⟩
  · rw [if_neg hempty, if_neg (by rw [List.length_map]; omega), ← List.map_take, mapM_some,
      Option.bind_some, hsum]
    exact ⟨_, rfl⟩

variable [LT W] [DecidableLT W]

/-- The median of a single measurement is not read from its cell alone. -/
lemma aggregate_isSome {s : Layer W} {perf : HPerf W} {perfs : List (HPerf W)}
    (hlen : s.trialPerPoint = perfs.length) (hpos : 1 ≤ s.trialPerPoint)
    (hperfs : ∀ p ∈ perfs, p.p.length = perf.p.length) (hknown : s.aggType ≠ .unknown)
    (hmedian : ¬(s.aggType = .median ∧ s.trialPerPoint = 1)) :
    ∃ perf' perfs', aggregate s perf (perfs.map some) = some (perf', perfs') ∧
      perfs'.length = perfs.length := by
  have hn : s.trialPerPoint.toNat = perfs.length := by omega
  have htake : (perfs.map some).take perfs.length = perfs.map some := by
    rw [List.take_of_length_le (by rw [List.length_map])]
  unfold aggregate
  rw [hn, htake, mapM_some, Option.bind_some]
  cases hagg : s.aggType with
  | unknown => exact absurd hagg hknown
  | min => exact ⟨_, _, rfl, List.length_map _⟩
  | max => exact ⟨_, _, rfl, List.length_map _⟩
  | mean =>
    obtain ⟨mean, hmean⟩ := perfMean_isSome s.trialPerPoint le_rfl hperfs
    exact ⟨mean, _, by rw [hmean]; rfl, List.length_map _⟩
  | median =>
    have htwo : s.trialPerPoint ≠ 1 := fun hone => hmedian ⟨hagg, hone⟩
    have hi : ((s.trialPerPoint - 1) / 2).toNat + 2 ≤ perfs.length := by omega
    show ∃ perf' perfs', ite _ _ _ = _ ∧ _
    generalize ((s.trialPerPoint - 1) / 2).toNat = i at hi ⊢
    generalize hsort : (perfs.mergeSort fun a b => ¬hperfUnify b < hperfUnify a) = sorted
    have hlength : sorted.length = perfs.length := by
      rw [← hsort]
      exact List.length_mergeSort perfs
    have hcells : (sorted.map some).length = perfs.length := by rw [List.length_map, hlength]
    by_cases hodd : i % 2 ≠ 0
    · rw [if_pos hodd, List.getElem?_map, List.getElem?_eq_getElem (by omega)]
      exact ⟨_, _, rfl, hcells⟩
    · obtain ⟨mean, hmean⟩ := @perfMean_isSome _ _ _ _ _ s.trialPerPoint perf (sorted.drop i) 2
        (by rw [List.length_drop]; omega) (by
          intro p hp
          apply hperfs p
          rw [← List.mem_mergeSort, hsort]
          exact List.mem_of_mem_drop hp)
      rw [if_neg hodd, ← List.map_drop, hmean]
      exact ⟨_, _, rfl, hcells⟩

end

/-! ## A call of `agg_analyze` -/

/-- No free slot stands in front of the slot of the point, and a median is not that of a single
measurement. -/
def Clear (s : Layer W) (trial : HTrial V W) : Prop :=
  (s.slist.map Store.id).Pairwise (fun a b => a = -1 → b ≠ trial.point.id) ∧
    ¬(s.aggType = .median ∧ s.trialPerPoint = 1)

instance (s : Layer W) (trial : HTrial V W) : Decidable (Clear s trial) :=
  inferInstanceAs (Decidable (_ ∧ _))

/-- The slot that `agg_analyze` takes for a point holds the measurements `mine`, or there is no slot and
none of them. -/
structure Collected (s : Layer W) (id : ℤ) (mine : List (HPerf W)) : Prop where
  held : ∀ store, s.slist.find? (fun store => store.id = id ∨ store.id = -1) = some store →
    (store.trial.length : ℤ) = s.trialPerPoint ∧ store.Holds id mine
  fresh : s.slist.find? (fun store => store.id = id ∨ store.id = -1) = none → mine = []

/-- The slot that `agg_analyze` takes is that of the point, or the point has none. -/
lemma Inv.collected {s : Layer W} (h : Inv n objectives pending s.slist) (hn : s.trialPerPoint = n) {id : ℤ}
    (hid : 0 ≤ id) (hclear : (s.slist.map Store.id).Pairwise fun a b => a = -1 → b ≠ id) :
    Collected s id (pending id) := by
  constructor
  · intro store hfind
    obtain ⟨hfound, before, after, hslist, hbefore⟩ := List.find?_eq_some_iff_append.mp hfind
    have hmem : store ∈ s.slist := by
      rw [hslist]
      exact List.mem_append_right before List.mem_cons_self
    refine ⟨by rw [h.width store hmem, hn], ?_⟩
    obtain hown | hfree := of_decide_eq_true hfound
    · have hslot := h.slot store hmem (by omega)
      rw [hown] at hslot
      exact Or.inr ⟨hown, by omega, hslot⟩
    · -- a slot of the point would stand behind the free one
      left
      refine ⟨hfree, ?_⟩
      by_contra hne
      obtain ⟨-, own, hmem, heq⟩ := h.kept _ hne
      rw [hslist, List.map_append, List.map_cons] at hclear
      rw [hslist] at hmem
      obtain hmem | hmem := List.mem_append.mp hmem
      · have hfalse := hbefore own hmem
        rw [heq] at hfalse
        simp at hfalse
      · obtain rfl | hmem := List.mem_cons.mp hmem
        · omega
        · have hpair := List.rel_of_pairwise_cons (List.pairwise_append.mp hclear).2.1
            (List.mem_map_of_mem hmem)
          exact hpair hfree heq
  · intro hnone
    by_contra hne
    obtain ⟨-, own, hmem, heq⟩ := h.kept _ hne
    have hfalse := List.find?_eq_none.mp hnone own hmem
    simp [heq] at hfalse

/-- The slot that is found, or the first of the new ones. -/
lemma Collected.slot {world : World (τ × Layer W)} {id : ℤ} {mine : List (HPerf W)}
    (h : Collected world.plug.2 id mine) (hn : world.plug.2.trialPerPoint = n) :
    ∃ stores store, (∀ store ∈ stores, store.id = -1 ∧ store.trial.length = n) ∧
      (if (world.plug.2.slist.findIdx fun store => store.id = id ∨ store.id = -1) =
          world.plug.2.slist.length then addStorage world else (0, world)) =
        (0, withLayer world { world.plug.2 with slist := world.plug.2.slist ++ stores }) ∧
      (world.plug.2.slist ++ stores)[world.plug.2.slist.findIdx fun store =>
        store.id = id ∨ store.id = -1]? = some store ∧
      store.trial.length = n ∧ store.Holds id mine := by
  by_cases hall : (world.plug.2.slist.findIdx fun store => store.id = id ∨ store.id = -1) =
      world.plug.2.slist.length
  · have hnone := h.fresh (List.find?_eq_none.mpr fun store hmem =>
      Bool.eq_false_iff.mp (List.findIdx_eq_length.mp hall store hmem))
    have hgrown : world.plug.2.slist.length < Hserver.grownCap world.plug.2.slist.length := by
      unfold Hserver.grownCap
      split_ifs <;> omega
    have hwidth : (List.replicate world.plug.2.trialPerPoint.toNat (none : Option (HPerf W))).length =
        n := by rw [List.length_replicate, hn, Int.toNat_natCast]
    rw [if_pos hall, hall]
    unfold addStorage
    rw [if_neg (by omega)]
    refine ⟨_, { id := -1, count := 0, trial := List.replicate world.plug.2.trialPerPoint.toNat none },
      ?_, rfl, ?_, hwidth, Or.inl ⟨rfl, hnone⟩⟩
    · intro store hmem
      rw [List.eq_of_mem_replicate hmem]
      exact ⟨rfl, hwidth⟩
    · rw [List.getElem?_append_right le_rfl, Nat.sub_self, List.getElem?_replicate, if_pos (by omega)]
  · have hlt := lt_of_le_of_ne List.findIdx_le_length hall
    have hfind := List.getElem?_eq_getElem hlt
    rw [← List.find?_eq_getElem?_findIdx] at hfind
    obtain ⟨hwidth, hholds⟩ := h.held _ hfind
    rw [if_neg hall]
    refine ⟨[], _, fun _ hmem => absurd hmem List.not_mem_nil, ?_, ?_, by omega, hholds⟩
    · rw [List.append_nil]
      rfl
    · rw [List.append_nil]
      exact List.getElem?_eq_getElem hlt

section

variable [Add W] [Zero W] [Div W] [IntCast W] [LT W] [DecidableLT W]

/-- A call with the measurements of its point: they are one more, or the point is complete. -/
lemma aggAnalyze_collected {world : World (τ × Layer W)} {trial : HTrial V W} {mine : List (HPerf W)}
    (h : Collected world.plug.2 trial.point.id mine) (hn : world.plug.2.trialPerPoint = n)
    (hshort : mine.length < n) (hknown : world.plug.2.aggType ≠ .unknown) (flow : Flow V) :
    ∃ (stores : List (Store W)) (i : ℕ) (store : Store W) (cells : List (Option (HPerf W))),
      (∀ store ∈ stores, store.id = -1 ∧ store.trial.length = n) ∧
      (world.plug.2.slist ++ stores)[i]? = some store ∧ store.Holds trial.point.id mine ∧
      cells.length = n ∧ cells.take (mine.length + 1) = (mine ++ [trial.perf]).map some ∧
      aggAnalyze world flow trial =
        let put (store : Store W) := withLayer world
          { world.plug.2 with slist := (world.plug.2.slist ++ stores).set i store }
        if mine.length + 1 < n then
          some (0, put { id := trial.point.id, count := mine.length + 1, trial := cells },
            { flow with status := .retry }, trial.perf)
        else
          (aggregate world.plug.2 trial.perf ((mine ++ [trial.perf]).map some)).map fun res =>
            (0, put { id := -1, count := 0, trial := res.2 }, { flow with status := .accept }, res.1) := by
  obtain ⟨stores, store, hstores, hstorage, hget, hwidth, hholds⟩ := h.slot hn
  -- the slot that is written
  obtain ⟨hcells, htake⟩ : (if store.id = -1 then
        { store with id := trial.point.id, count := 0 } else store) =
      { id := trial.point.id, count := mine.length, trial := store.trial } ∧
        store.trial.take mine.length = mine.map some := by
    obtain ⟨hfree, hnil⟩ | ⟨hown, hne, -, hcount, htake⟩ := hholds
    · rw [if_pos hfree, hnil]
      exact ⟨rfl, rfl⟩
    · refine ⟨?_, hcount ▸ htake⟩
      rw [if_neg (by rw [hown]; exact hne), ← hcount, ← hown]
  have hroom : mine.length < store.trial.length := by omega
  have htake' : (store.trial.set mine.length (some trial.perf)).take (mine.length + 1) =
      (mine ++ [trial.perf]).map some := by
    rw [PrefixArray.take_push hroom, htake, List.map_append]
    rfl
  refine ⟨stores, _, store, _, hstores, hget, hholds, by rw [List.length_set, hwidth], htake', ?_⟩
  unfold aggAnalyze
  simp only [hstorage, ne_eq, not_true_eq_false, if_false, withLayer_plug, withLayer_withLayer]
  rw [hget, Option.bind_some, hcells]
  simp only [hroom, if_true]
  by_cases hlast : mine.length + 1 < n
  · rw [if_pos (by omega), if_pos hlast]
  · have hfull : store.trial.set mine.length (some trial.perf) = (mine ++ [trial.perf]).map some := by
      rw [← htake', List.take_of_length_le (by rw [List.length_set]; omega)]
    rw [if_neg (by omega), if_neg hlast, if_neg hknown, hfull]
    rfl

/-- The right answer to the last of the measurements `mine` of a point. -/
def Answer (s : Layer W) (mine : List (HPerf W)) (last : HPerf W) (status : FlowStatus)
    (perf : HPerf W) : Prop :=
  ((mine.length : ℤ) < s.trialPerPoint ∧ status = .retry ∧ perf = last) ∨
    ((mine.length : ℤ) = s.trialPerPoint ∧ status = .accept ∧
      (aggregate s last (mine.map some)).map Prod.fst = some perf)

/-- One call collects a measurement, or completes a point. -/
lemma aggAnalyze_spec {world : World (τ × Layer W)} (h : Inv n objectives pending world.plug.2.slist)
    (hn : world.plug.2.trialPerPoint = n) (hknown : world.plug.2.aggType ≠ .unknown)
    {trial : HTrial V W} (hid : 0 ≤ trial.point.id) (hsize : trial.perf.p.length = objectives)
    (hclear : Clear world.plug.2 trial) (flow : Flow V) :
    let mine := pending trial.point.id ++ [trial.perf]
    ∃ world' status perf slist, aggAnalyze world flow trial =
        some (0, world', { flow with status := status }, perf) ∧
      world'.plug.2 = { world.plug.2 with slist := slist } ∧
      Answer world.plug.2 mine trial.perf status perf ∧
      Inv n objectives (Function.update pending trial.point.id (if status = .retry then mine else []))
        slist := by
  intro mine
  have hmine : mine.length = (pending trial.point.id).length + 1 := List.length_append
  have hshort := h.short trial.point.id
  obtain ⟨stores, i, store, cells, hstores, hget, hholds, hcells, htake, hcall⟩ :=
    aggAnalyze_collected (h.collected hn hid hclear.1) hn hshort hknown flow
  rw [← hmine] at htake
  have hinv := h.append_free hstores
  have hsized : ∀ perf ∈ mine, perf.p.length = objectives := by
    intro perf hperf
    obtain hperf | hperf := List.mem_append.mp hperf
    · exact h.sized _ perf hperf
    · rw [List.mem_singleton.mp hperf]
      exact hsize
  by_cases hlast : mine.length < n
  · simp only [← hmine, hlast, if_true] at hcall
    refine ⟨_, .retry, _, _, hcall, rfl, Or.inl ⟨by omega, rfl, rfl⟩, ?_⟩
    rw [if_pos rfl]
    apply hinv.set hget hholds hcells (Or.inr ⟨rfl, by omega, ?_, rfl, htake⟩) hlast hsized
    exact List.append_ne_nil_of_right_ne_nil _ (List.cons_ne_nil _ _)
  · obtain ⟨perf, trial', hagg, hlength⟩ := @aggregate_isSome _ _ _ _ _ _ _ world.plug.2 trial.perf mine
      (by omega) (by omega) (fun p hp => (hsized p hp).trans hsize.symm) hknown hclear.2
    simp only [← hmine, hlast, if_false] at hcall
    rw [show aggregate world.plug.2 trial.perf ((pending trial.point.id ++ [trial.perf]).map some) =
      some (perf, trial') from hagg] at hcall
    refine ⟨_, .accept, _, _, hcall, rfl, Or.inr ⟨by omega, rfl, by rw [hagg]; rfl⟩, ?_⟩
    rw [if_neg (by decide)]
    apply hinv.set hget hholds _ (Or.inl ⟨rfl, rfl⟩) (by rw [List.length_nil]; omega) (by simp)
    show trial'.length = n
    omega

/-! ## Runs -/

/-- The measurements of a point in a sequence of calls and answers. -/
def reportsOf (hist : List (HTrial V W × FlowStatus)) (id : ℤ) : List (HPerf W) :=
  (hist.filter fun call => call.1.point.id = id).map fun call => call.1.perf

/-- A trial may be reported while the calls for its point are answered with RETRY. -/
structure Reportable (objectives : ℕ) (hist : List (HTrial V W × FlowStatus)) (trial : HTrial V W) :
    Prop where
  id_nonneg : 0 ≤ trial.point.id
  sized : trial.perf.p.length = objectives
  retried : ∀ call ∈ hist, call.1.point.id = trial.point.id → call.2 = .retry

/-- The calls of a session whose trials meet a condition. What else happens to the world does not matter. -/
inductive Run (cond : Layer W → HTrial V W → Prop) (objectives : ℕ) (world₀ : World (τ × Layer W)) :
    List (HTrial V W × FlowStatus) → Layer W → Prop
  | start : Run cond objectives world₀ [] world₀.plug.2
  | call {hist : List (HTrial V W × FlowStatus)} {world world' : World (τ × Layer W)} {flow flow' : Flow V}
      {trial : HTrial V W} {ret : ℤ} {perf : HPerf W} :
      Run cond objectives world₀ hist world.plug.2 → Reportable objectives hist trial →
      cond world.plug.2 trial → aggAnalyze world flow trial = some (ret, world', flow', perf) →
      Run cond objectives world₀ (hist ++ [(trial, flow'.status)]) world'.plug.2

omit [Add W] [Zero W] [Div W] [IntCast W] [LT W] [DecidableLT W] in
/-- At first all slots are free. -/
lemma aggInit_spec {world₀ world : World (τ × Layer W)} (h : aggInit world₀ = (0, world)) :
    ∃ n : ℕ, world.plug.2.trialPerPoint = n ∧ world.plug.2.aggType ≠ .unknown ∧
      Inv n objectives (fun _ => []) world.plug.2.slist := by
  have hfail : ∀ w : World (τ × Layer W), (-1, w) ≠ (0, world) := by
    intro w hw
    exact absurd (show (-1 : ℤ) = 0 from congrArg Prod.fst hw) (by decide)
  unfold aggInit at h
  cases hfunc : hcfgGet world₀.cfg (cstr "AGG_FUNC") with
  | none =>
    simp only [hfunc] at h
    exact absurd h (hfail _)
  | some val =>
    cases hagg : aggFunc? val with
    | none =>
      simp only [hfunc, hagg] at h
      exact absurd h (hfail _)
    | some aggType =>
      cases htimes : hcfgGet world₀.cfg (cstr "AGG_TIMES") with
      | none =>
        simp only [hfunc, hagg, htimes] at h
        exact absurd h (hfail _)
      | some times =>
        simp only [hfunc, hagg, htimes] at h
        by_cases hzero : atoi times = 0
        · rw [if_pos hzero] at h
          exact absurd h (hfail _)
        rw [if_neg hzero, addStorage] at h
        by_cases hneg : atoi times < 0
        · rw [withLayer_plug, if_pos hneg] at h
          exact absurd h (hfail _)
        rw [withLayer_plug, if_neg hneg] at h
        rw [← (Prod.mk.inj h).2]
        have hnat : ((atoi times).toNat : ℤ) = atoi times := Int.toNat_of_nonneg (by omega)
        refine ⟨(atoi times).toNat, hnat.symm, aggFunc?_ne_unknown hagg, ?_⟩
        have hempty : Inv (atoi times).toNat objectives (fun _ => []) ([] : List (Store W)) := by
          constructor
          · exact fun _ h => absurd h List.not_mem_nil
          · exact fun h => absurd h (by simp)
          · exact fun _ h => absurd h List.not_mem_nil
          · exact fun _ h => absurd rfl h
          · exact fun _ => by rw [List.length_nil]; omega
          · exact fun _ _ h => absurd h List.not_mem_nil
        apply hempty.append_free
        intro store hmem
        rw [List.eq_of_mem_replicate hmem]
        exact ⟨rfl, List.length_replicate⟩

/-- What a run has collected. -/
lemma Run.inv {world₀ : World (τ × Layer W)} (hn : world₀.plug.2.trialPerPoint = n)
    (hknown : world₀.plug.2.aggType ≠ .unknown)
    (hinv : Inv n objectives (fun _ => []) world₀.plug.2.slist)
    {hist : List (HTrial V W × FlowStatus)} {s : Layer W} (hrun : Run Clear objectives world₀ hist s) :
    ∃ pending, Inv n objectives pending s.slist ∧
      s = { world₀.plug.2 with slist := s.slist } ∧
      ∀ id, (∀ call ∈ hist, call.1.point.id = id → call.2 = .retry) → pending id = reportsOf hist id := by
  induction hrun with
  | start => exact ⟨fun _ => [], hinv, rfl, fun _ _ => rfl⟩
  | @call hist world world' flow flow' trial ret perf hrun htrial hclear hstep ih =>
    obtain ⟨pending, hinv', hs, hpending⟩ := ih
    have hparams : world.plug.2.trialPerPoint = n ∧ world.plug.2.aggType ≠ .unknown := by
      rw [hs]
      exact ⟨hn, hknown⟩
    obtain ⟨world'', status, perf', slist, hstep', hplug, -, hinv''⟩ :=
      aggAnalyze_spec hinv' hparams.1 hparams.2 htrial.id_nonneg htrial.sized hclear flow
    rw [hstep] at hstep'
    obtain ⟨-, rfl, rfl, -⟩ : ret = 0 ∧ world' = world'' ∧ flow' = { flow with status := status } ∧
        perf = perf' := by
      simpa only [Option.some.injEq, Prod.mk.injEq] using hstep'
    refine ⟨_, by rw [hplug]; exact hinv'', by rw [hplug, hs], ?_⟩
    intro id hretry
    have hbefore := hpending id fun call hcall => hretry call (List.mem_append_left _ hcall)
    unfold reportsOf at hbefore ⊢
    rw [List.filter_append, List.map_append, ← hbefore]
    by_cases hid : trial.point.id = id
    · have hlast : status = .retry :=
        hretry _ (List.mem_append_right hist (List.mem_singleton.mpr rfl)) hid
      rw [← hid, Function.update_self, if_pos hlast, List.filter_singleton]
      simp
    · rw [Function.update_of_ne (Ne.symm hid), List.filter_singleton]
      simp [hid]

/-- A point is complete at its last measurement, and its performance is made of its own measurements. -/
theorem trials_not_mixed {world₀ world₁ world : World (τ × Layer W)}
    {hist : List (HTrial V W × FlowStatus)} (hinit : aggInit world₀ = (0, world₁))
    (hrun : Run Clear objectives world₁ hist world.plug.2) {trial : HTrial V W}
    (htrial : Reportable objectives hist trial) (hclear : Clear world.plug.2 trial) (flow : Flow V) :
    ∃ world' status perf, aggAnalyze world flow trial =
        some (0, world', { flow with status := status }, perf) ∧
      Answer world₁.plug.2 (reportsOf hist trial.point.id ++ [trial.perf]) trial.perf status perf := by
  obtain ⟨n, hn, hknown, hinv⟩ := @aggInit_spec _ _ objectives _ _ hinit
  obtain ⟨pending, hinv', hs, hpending⟩ := hrun.inv hn hknown hinv
  have hparams : world.plug.2.trialPerPoint = n ∧ world.plug.2.aggType ≠ .unknown := by
    rw [hs]
    exact ⟨hn, hknown⟩
  obtain ⟨world', status, perf, slist, hstep, -, hanswer, -⟩ :=
    aggAnalyze_spec hinv' hparams.1 hparams.2 htrial.id_nonneg htrial.sized hclear flow
  rw [hpending _ htrial.retried, hs] at hanswer
  exact ⟨world', status, perf, hstep, hanswer⟩

end

/-- A session that takes the smaller of two measurements of each point. -/
def minOfTwo : World (Unit × Layer ℚ) :=
  { plug := ((), { aggType := .unknown, trialPerPoint := 0, slist := [] })
    cfg := (((hcfgSet hcfgAlloc (cstr "AGG_FUNC") (some (cstr "min"))).bind fun cfg =>
      hcfgSet cfg.2 (cstr "AGG_TIMES") (some (cstr "2"))).map Prod.snd).getD hcfgAlloc
    errmsg := none }

/-- The layer with the first of its eight slots as given. -/
def slotsOf (stores : List (Store ℚ)) : Layer ℚ :=
  { aggType := .min, trialPerPoint := 2,
    slist := stores ++
      List.replicate (8 - stores.length) { id := -1, count := 0, trial := [none, none] } }

/-- The world with these variables of the layer. -/
def minWorld (stores : List (Store ℚ)) : World (Unit × Layer ℚ) := withLayer minOfTwo (slotsOf stores)

lemma aggInit_minOfTwo : aggInit minOfTwo = (0, minWorld []) := by
  have hfunc : hcfgGet minOfTwo.cfg (cstr "AGG_FUNC") = some (cstr "min") := by decide +kernel
  have htimes : hcfgGet minOfTwo.cfg (cstr "AGG_TIMES") = some (cstr "2") := by decide +kernel
  have hmin : aggFunc? (cstr "min") = some .min := by decide
  have htwo : atoi (cstr "2") = 2 := by decide
  unfold aggInit
  simp only [hfunc, hmin, htimes, htwo]
  rfl

/-- A trial of a point with one objective. -/
def trialOf (id : ℤ) (perf : ℚ) : HTrial ℚ ℚ := { point := { id := id, val := [] }, perf := { p := [perf] } }

/-- The flow that a layer is called with. -/
def acceptFlow : Flow ℚ := { status := .accept, point := { id := -1, val := [] } }

/-- A slot of the point with its measurements. -/
def slotOf (id : ℤ) (count : ℕ) (perfs : List ℚ) : Store ℚ :=
  { id := id, count := count, trial := (perfs.map fun perf => some { p := [perf] }) ++
      List.replicate (2 - perfs.length) none }

/-- What the layer answers, and its variables. -/
def answerOf (stores : List (Store ℚ)) (trial : HTrial ℚ ℚ) : Option (FlowStatus × Layer ℚ) :=
  (aggAnalyze (minWorld stores) acceptFlow trial).map fun res => (res.2.2.1.status, res.2.1.plug.2)

lemma Run.step {cond : Layer ℚ → HTrial ℚ ℚ → Prop} {hist : List (HTrial ℚ ℚ × FlowStatus)}
    {stores stores' : List (Store ℚ)} {trial : HTrial ℚ ℚ} {status : FlowStatus}
    (hrun : Run cond 1 (minWorld []) hist (slotsOf stores)) (htrial : Reportable 1 hist trial)
    (hcond : cond (slotsOf stores) trial)
    (hstep : answerOf stores trial = some (status, slotsOf stores')) :
    Run cond 1 (minWorld []) (hist ++ [(trial, status)]) (slotsOf stores') := by
  obtain ⟨⟨ret, world', flow', perf'⟩, hres, heq⟩ := Option.map_eq_some_iff.mp hstep
  obtain ⟨rfl, hplug⟩ : flow'.status = status ∧ world'.plug.2 = slotsOf stores' := by
    simpa only [Prod.mk.injEq] using heq
  rw [← hplug]
  exact Run.call hrun htrial hcond hres

/-- A point is complete before one that was reported earlier. -/
theorem nested_trials : ∃ world' status perf,
    aggAnalyze (minWorld [slotOf 1 1 [5], slotOf (-1) 0 [7, 9]]) acceptFlow (trialOf 1 3) =
        some (0, world', { acceptFlow with status := status }, perf) ∧
      Answer (minWorld []).plug.2 [{ p := [5] }, { p := [3] }] { p := [3] } status perf := by
  have hone : Run Clear 1 (minWorld []) [(trialOf 1 5, .retry)] (slotsOf [slotOf 1 1 [5]]) :=
    @Run.step Clear [] [] [slotOf 1 1 [5]] (trialOf 1 5) .retry .start ⟨by decide, by decide, by simp⟩
      (by decide) (by decide +kernel)
  have htwo := @Run.step Clear _ _ [slotOf 1 1 [5], slotOf 2 1 [7]] (trialOf 2 7) .retry hone
    ⟨by decide, by decide, by simp [trialOf]⟩ (by decide) (by decide +kernel)
  have hthree := @Run.step Clear _ _ [slotOf 1 1 [5], slotOf (-1) 0 [7, 9]] (trialOf 2 9) .accept htwo
    ⟨by decide, by decide, by simp [trialOf]⟩ (by decide) (by decide +kernel)
  exact @trials_not_mixed Unit ℚ ℚ 1 _ _ _ _ _ _ minOfTwo (minWorld []) (minWorld _) _ aggInit_minOfTwo
    hthree (trialOf 1 3) ⟨by decide, by decide, by simp [trialOf]⟩ (by decide) acceptFlow

/-- The slot that the first point leaves takes over from the slot of the second point, whose second
measurement is taken for its first. -/
theorem staggered_trials_mixed : ¬ ∀ (world₀ world₁ world : World (Unit × Layer ℚ)) (objectives : ℕ)
    (hist : List (HTrial ℚ ℚ × FlowStatus)), aggInit world₀ = (0, world₁) →
    Run (fun _ _ => True) objectives world₁ hist world.plug.2 → ∀ trial, Reportable objectives hist trial →
    ∀ flow : Flow ℚ, ∃ world' status perf, aggAnalyze world flow trial =
        some (0, world', { flow with status := status }, perf) ∧
      Answer world₁.plug.2 (reportsOf hist trial.point.id ++ [trial.perf]) trial.perf status perf := by
  intro hall
  have hone := @Run.step (fun _ _ => True) [] [] [slotOf 1 1 [5]] (trialOf 1 5) .retry .start
    ⟨by decide, by decide, by simp⟩ trivial (by decide +kernel)
  have htwo := @Run.step (fun _ _ => True) _ _ [slotOf 1 1 [5], slotOf 2 1 [7]] (trialOf 2 7) .retry hone
    ⟨by decide, by decide, by simp [trialOf]⟩ trivial (by decide +kernel)
  have hthree := @Run.step (fun _ _ => True) _ _ [slotOf (-1) 0 [5, 3], slotOf 2 1 [7]] (trialOf 1 3)
    .accept htwo ⟨by decide, by decide, by simp [trialOf]⟩ trivial (by decide +kernel)
  obtain ⟨world', status, perf, hstep, hanswer⟩ := hall minOfTwo (minWorld []) (minWorld _) 1 _
    aggInit_minOfTwo hthree (trialOf 2 9) ⟨by decide, by decide, by simp [trialOf]⟩ acceptFlow
  have hretry : answerOf [slotOf (-1) 0 [5, 3], slotOf 2 1 [7]] (trialOf 2 9) =
      some (.retry, slotsOf [slotOf 2 1 [9, 3], slotOf 2 1 [7]]) := by decide +kernel
  unfold answerOf at hretry
  rw [hstep, Option.map_some] at hretry
  obtain ⟨rfl, -⟩ : status = .retry ∧ _ := by simpa only [Option.some.injEq, Prod.mk.injEq] using hretry
  obtain ⟨hlt, -⟩ | ⟨-, haccept, -⟩ := hanswer
  · exact absurd hlt (by decide)
  · exact absurd haccept (by decide)

end ActiveHarmony.Agg

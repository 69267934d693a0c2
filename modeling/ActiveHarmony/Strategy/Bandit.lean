import ActiveHarmony.Strategy.Common
import Mathlib.Data.Int.Bitwise
import Mathlib.Data.List.Nodup

/-!
# The strategy `bandit.c`

The strategy hands out the points of several sub-strategies. The id of a point has the sub-strategy in
its upper bits, but `strategy_analyze` looks the id up in a window of the latest points before it passes
the result on. `results_delivered` says when every result reaches the sub-strategy it is for.

A sub-strategy may answer a call with anything: its answers are part of the events. What the calls of
sub-strategies leave in the configuration of the session is left out.
-/

namespace ActiveHarmony.Bandit

/-- The arithmetic of `assign_scores`; `gt` is the operator `>`. -/
structure Doubles (D : Type) where
  ofInt : ℤ → D
  infinity : D
  add : D → D → D
  mul : D → D → D
  div : D → D → D
  sqrt : D → D
  gt : D → D → Bool
  gt_irrefl : ∀ x, gt x x = false
  gt_trans : ∀ {x y z}, gt x y → gt y z → gt x z

/-- The hooks of `strategy_t` that a sub-strategy need not define. -/
structure SubStrategy where
  hint : Bool
  getcfg : Bool
  setcfg : Bool
deriving DecidableEq, Repr

/-- `subtrial_t`. -/
structure Subtrial where
  strategyId : ℤ
  pointId : ℤ
  complete : Bool
  newBest : Bool
deriving DecidableEq, Repr

/-- The variables of `bandit.c`; `window_size` is the length of `window`. -/
structure Vars (V W D : Type) where
  strategies : List SubStrategy
  exploreFactor : D
  window : List Subtrial
  windowPopulation : ℕ
  windowNext : ℕ
  requestsOutstanding : ℤ
  best : HPoint V
  bestPerf : W
  errmsg : Option Bytes

/-- The calls of sub-strategies. -/
inductive Call (V W : Type) where
  | generate (i : ℕ)
  | rejected (i : ℕ) (flow : Flow V) (point : HPoint V)
  | analyze (i : ℕ) (trial : HTrial V W)
  | hint (i : ℕ) (trial : HTrial V W)
  | setcfg (i : ℕ) (key val : Bytes)

/-- What a sub-strategy answers to `strategy_generate` and `strategy_rejected`. -/
structure Answer (V : Type) where
  result : ℤ
  flow : Flow V
  point : HPoint V

/-- What a call returns, and which calls of sub-strategies it makes. -/
structure Reply (V W : Type) where
  ret : ℤ
  flow : Option (Flow V)
  point : Option (HPoint V)
  calls : List (Call V W)

/-- `MAX_NUM_STRATEGIES`. -/
def maxNumStrategies : ℕ := 128

/-- `POINT_ID_BITS`. -/
def pointIdBits : ℕ := 24

/-- `MAX_REQUESTS_OUTSTANDING`. -/
def maxRequestsOutstanding : ℤ := 8

/-- `translate_id_from_sub`: the id, or the error. -/
def translateIdFromSub (strategyId pointId : ℤ) : Except Bytes ℤ :=
  if pointId % 2 ^ pointIdBits ≠ pointId then .error (cstr "substrategy point ID didn't fit in 24 bits")
  else if strategyId < 0 ∨ maxNumStrategies ≤ strategyId then
    .error (cstr "internal error: strategy_id outside valid range")
  else .ok (pointId + strategyId * 2 ^ pointIdBits)

/-- `translate_id_to_sub`: the id, and the strategy. -/
def translateIdToSub (pointId : ℤ) : ℤ × ℤ := (pointId % 2 ^ pointIdBits, pointId / 2 ^ pointIdBits)

variable {V W D : Type}

/-- `session_error`. -/
def Vars.error (s : Vars V W D) (msg : Bytes) : Vars V W D := { s with errmsg := some msg }

/-- `strategy_init` and `init_sliding_window`, with what lies in the memory of the window. -/
def strategyInit [Top W] (strategies : List SubStrategy) (exploreFactor : D) (memory : List Subtrial) :
    Vars V W D where
  strategies := strategies
  exploreFactor := exploreFactor
  window := memory.map fun subtrial => { subtrial with strategyId := -1 }
  windowPopulation := 0
  windowNext := 0
  requestsOutstanding := 0
  best := hpointInitializer V
  bestPerf := ⊤
  errmsg := none

/-! ## Choosing a sub-strategy -/

section

variable (F : Doubles D)

/-- The arrays of `assign_scores`. -/
structure Counts where
  usage : ℕ → ℤ
  result : ℕ → ℤ
  auc : ℕ → ℤ

/-- One round of the first loop of `assign_scores`. -/
def Counts.add (c : Counts) (subtrial : Subtrial) : Counts :=
  let i := subtrial.strategyId.toNat
  let usage := Function.update c.usage i (c.usage i + 1)
  { usage := usage
    result := if subtrial.complete then Function.update c.result i (c.result i + 1) else c.result
    auc := if subtrial.newBest then Function.update c.auc i (c.auc i + usage i) else c.auc }

/-- The score of a sub-strategy. -/
def score (exploreFactor : D) (c : Counts) (i : ℕ) : D :=
  if c.usage i = 0 then F.infinity
  else
    let nresults := F.ofInt (c.result i)
    let quality := F.div (F.div (F.mul (F.ofInt 2) (F.ofInt (c.auc i))) nresults)
      (F.add nresults (F.ofInt 1))
    F.add quality (F.div exploreFactor (F.sqrt (F.ofInt (c.usage i))))

/-- `assign_scores`: the strategy and the scores, or the error. The best score is not kept. -/
def assignScores (s : Vars V W D) : Except Bytes (ℤ × List D) :=
  let subtrials := s.window.take s.windowPopulation
  if subtrials.any fun t => t.strategyId < 0 ∨ (maxNumStrategies : ℤ) ≤ t.strategyId then
    .error (cstr "Internal error: unexpected invalid strategy id")
  else
    let counts := subtrials.foldl Counts.add { usage := 0, result := 0, auc := 0 }
    let scores := (List.range s.strategies.length).map (score F s.exploreFactor counts)
    .ok (scores.zipIdx.foldl (fun best p => if F.gt p.1 (F.ofInt (-1)) then (p.2 : ℤ) else best) (-1),
      scores)

/-- The next best strategy. -/
def nextBest (scores : List D) : ℤ :=
  (scores.zipIdx.foldl (fun best p => if F.gt p.1 best.2 then ((p.2 : ℤ), p.1) else best)
    (-1, F.ofInt (-1))).1

/-- What the loop of `strategy_generate` ends with. -/
structure Search (V W : Type) where
  failed : Bool
  bestStrategy : ℤ
  flow : Flow V
  point : HPoint V
  calls : List (Call V W)

/-- The loop of `strategy_generate`. -/
def generateLoop (answers : ℕ → Answer V) : ℕ → ℕ → List D → Option (Search V W)
  | 0, _, _ => none
  | fuel + 1, best, scores =>
    let answer := answers best
    let search (failed : Bool) (bestStrategy : ℤ) : Search V W :=
      { failed := failed, bestStrategy := bestStrategy, flow := answer.flow, point := answer.point,
        calls := [.generate best] }
    if answer.result < 0 then some (search true best)
    else if answer.flow.status = .wait then
      -- find the next best strategy
      let scores := scores.set best (F.ofInt (-1))
      let next := nextBest F scores
      if next < 0 then some (search false next)
      else
        (generateLoop answers fuel next.toNat scores).map fun rest =>
          { rest with calls := .generate best :: rest.calls }
    else some (search false best)

omit F in
/-- What `strategy_generate` does after its loop. -/
def Vars.finish (s : Vars V W D) (search : Search V W) : Vars V W D × Reply V W :=
  let reply (ret : ℤ) (id : ℤ) : Reply V W :=
    { ret := ret, flow := some search.flow, point := some { search.point with id := id },
      calls := search.calls }
  if search.failed then (s, reply (-1) search.point.id)
  -- all strategies want to wait, so we will
  else if search.bestStrategy < 0 then (s, reply 0 search.point.id)
  else
    match translateIdFromSub search.bestStrategy search.point.id with
    | .error msg => (s.error msg, reply (-1) (-1))
    | .ok id =>
      if s.window.length ≤ s.windowNext ∨ s.windowPopulation < s.windowNext then
        (s.error (cstr "Invalid window_next value."), reply (-1) id)
      else
        let subtrial := { strategyId := search.bestStrategy, pointId := id, complete := false,
                          newBest := false }
        let population :=
          if s.windowPopulation < s.window.length then s.windowPopulation + 1 else s.windowPopulation
        ({ s with
            window := s.window.set s.windowNext subtrial
            windowNext := if s.windowNext + 1 = s.window.length then 0 else s.windowNext + 1
            windowPopulation := population
            requestsOutstanding := s.requestsOutstanding + 1 },
          reply 0 id)

/-- `strategy_generate`; `none` if the loop is not done after as many rounds as there are strategies. -/
def strategyGenerate (s : Vars V W D) (flow : Flow V) (point : HPoint V) (answers : ℕ → Answer V) :
    Option (Vars V W D × Reply V W) :=
  if maxRequestsOutstanding < s.requestsOutstanding then
    some (s, { ret := 0, flow := some { flow with status := .wait }, point := some point, calls := [] })
  else
    match assignScores F s with
    | .error msg =>
      some (s.error msg, { ret := -1, flow := some flow, point := some point, calls := [] })
    | .ok (best, scores) =>
      if best < 0 then some (s, { ret := -1, flow := some flow, point := some point, calls := [] })
      else (generateLoop F answers s.strategies.length best.toNat scores).map s.finish

end

/-! ## Rejections, results and hooks -/

/-- `strategy_rejected`; `none` is the call of a strategy behind the list. -/
def strategyRejected (s : Vars V W D) (flow : Flow V) (point : HPoint V) (answer : Answer V) :
    Option (Vars V W D × Reply V W) :=
  let ids := translateIdToSub point.id
  if ids.2 < 0 ∨ (maxNumStrategies : ℤ) ≤ ids.2 then
    some (s.error (cstr "Invalid strategy ID in strategy_rejected."),
      { ret := -1, flow := some flow, point := some point, calls := [] })
  else if s.strategies.length ≤ ids.2 then none
  else
    -- we always let the original sub-strategy regenerate its own point
    let subFlow := if flow.point.id = point.id then
      { flow with point := { flow.point with id := ids.1 } } else flow
    let reply (id : ℤ) : Reply V W :=
      { ret := answer.result, flow := some answer.flow, point := some { answer.point with id := id },
        calls := [.rejected ids.2.toNat subFlow { point with id := ids.1 }] }
    match translateIdFromSub ids.2 answer.point.id with
    | .error msg => some (s.error msg, reply (-1))
    | .ok id => some (s, reply id)

/-- The loop of `strategy_analyze` that calls `strategy_hint` of these strategies; `none` is the call of
a function that is `NULL`. -/
def hintLoop (s : Vars V W D) (trial : HTrial V W) (hints : ℕ → ℤ) :
    List ℕ → Option (ℤ × List (Call V W))
  | [] => some (0, [])
  | i :: is =>
    if (s.strategies[i]?.map SubStrategy.hint) ≠ some true then none
    else if hints i < 0 then some (-1, [.hint i trial])
    else (hintLoop s trial hints is).map fun rest => (rest.1, .hint i trial :: rest.2)

section

variable [Add W] [Zero W] [LT W] [DecidableLT W]

/-- What `strategy_analyze` does with the entry of the window that it finds. -/
def Vars.complete (s : Vars V W D) (entry : ℕ) (trial : HTrial V W) : Vars V W D :=
  let s := { s with window := s.window.modify entry fun t => { t with complete := true }
                    requestsOutstanding := s.requestsOutstanding - 1 }
  -- track global optimum
  if hperfUnify trial.perf < s.bestPerf then
    { s with best := hpointCopy trial.point
             bestPerf := hperfUnify trial.perf
             window := s.window.modify entry fun t => { t with newBest := true } }
  else s

/-- `strategy_analyze`. The points `point_clone` and `trial_clone.point` are not initialised before they
are copied to: `stackOk` says whether `hpoint_copy` can do with what lies there. `none` if it cannot, or
if a function is called that is not there. -/
def strategyAnalyze (s : Vars V W D) (trial : HTrial V W) (stackOk : Bool) (result : ℤ) (hints : ℕ → ℤ) :
    Option (Vars V W D × Reply V W) :=
  let reply (ret : ℤ) (calls : List (Call V W)) : Reply V W :=
    { ret := ret, flow := none, point := none, calls := calls }
  match s.window.findIdx? fun t => t.pointId = trial.point.id with
  | none => some (s, reply 0 [])  -- i'm not responsible for this
  | some entry =>
    let s := s.complete entry trial
    let ids := translateIdToSub trial.point.id
    if ids.2 < 0 ∨ (maxNumStrategies : ℤ) ≤ ids.2 then
      some (s.error (cstr "Invalid strategy ID in strategy_analyze."), reply (-1) [])
    else if ¬stackOk ∨ s.strategies.length ≤ ids.2 then none
    else
      let call : Call V W :=
        .analyze ids.2.toNat { trial with point := { trial.point with id := ids.1 } }
      if result < 0 then some (s, reply (-1) [call])
      else
        -- call "hint" for all others
        let others := (List.range s.strategies.length).filter (· ≠ ids.2.toNat)
        (hintLoop s trial hints others).map fun rest => (s, reply rest.1 (call :: rest.2))

end

/-- One round of the loop of `strategy_setcfg`; `none` is the call of a function that is `NULL`. -/
def setcfgRound (key val : Bytes) (results : ℕ → ℤ) (r : Reply V W) (p : SubStrategy × ℕ) :
    Option (Reply V W) :=
  if p.1.getcfg then
    if p.1.setcfg then
      some { r with ret := Int.lor r.ret (results p.2), calls := r.calls ++ [.setcfg p.2 key val] }
    else none
  else some r

/-- `strategy_setcfg`. -/
def strategySetcfg (s : Vars V W D) (key val : Bytes) (results : ℕ → ℤ) :
    Option (Vars V W D × Reply V W) :=
  (s.strategies.zipIdx.foldlM (setcfgRound key val results)
    { ret := 0, flow := none, point := none, calls := [] }).map fun reply => (s, reply)

/-! ## Runs -/

/-- A call that the session makes, with what the sub-strategies answer. -/
inductive Event (V W : Type) where
  | generate (flow : Flow V) (point : HPoint V) (answers : ℕ → Answer V)
  | rejected (flow : Flow V) (point : HPoint V) (answer : Answer V)
  | analyze (trial : HTrial V W) (stackOk : Bool) (result : ℤ) (hints : ℕ → ℤ)
  | setcfg (key val : Bytes) (results : ℕ → ℤ)

/-- A point that was generated and not yet analyzed: its id, the sub-strategy that made it, and the id it
has there. -/
structure Pending where
  id : ℤ
  owner : ℕ
  ownId : ℤ
deriving DecidableEq, Repr

/-- The point that a call of `strategy_generate` hands out comes from the sub-strategy called last. -/
def handedOut (answers : ℕ → Answer V) (r : Reply V W) : List Pending :=
  match r.flow, r.point, r.calls.getLast? with
  | some flow, some point, some (.generate i) =>
    if r.ret = 0 ∧ flow.status ≠ .wait then
      [{ id := point.id, owner := i, ownId := (answers i).point.id }]
    else []
  | _, _, _ => []

/-- The points that are pending after a call. -/
def Event.pending (e : Event V W) (p : List Pending) (r : Reply V W) : List Pending :=
  match e with
  | .generate _ _ answers => handedOut answers r ++ p
  | .rejected _ point answer =>
    p.map fun q =>
      if q.id = point.id then
        { id := (r.point.map HPoint.id).getD (-1), owner := q.owner, ownId := answer.point.id }
      else q
  | .analyze trial _ _ _ => p.filter fun q => q.id ≠ trial.point.id
  | .setcfg _ _ _ => p

/-- The answer is a point to be measured. -/
def Answer.IsPoint (answer : Answer V) : Prop := 0 ≤ answer.result ∧ answer.flow.status ≠ .wait

/-- The id fits into `POINT_ID_BITS`. -/
def Fits (id : ℤ) : Prop := 0 ≤ id ∧ id < 2 ^ pointIdBits

/-- The ids of new points fit, and no other pending point of the same sub-strategy has them. -/
def NewIds (p : List Pending) (answers : ℕ → Answer V) : Prop := ∀ i, (answers i).IsPoint →
  Fits (answers i).point.id ∧ ∀ q ∈ p, q.owner = i → q.ownId ≠ (answers i).point.id

/-- The session rejects and analyzes pending points, and sub-strategies use ids as they should. -/
def Event.Valid (e : Event V W) (p : List Pending) : Prop :=
  match e with
  | .generate _ _ answers => NewIds p answers
  | .rejected _ point answer => Fits answer.point.id ∧
    ∃ q ∈ p, q.id = point.id ∧
      ∀ q' ∈ p, q'.id ≠ point.id → q'.owner = q.owner → q'.ownId ≠ answer.point.id
  | .analyze trial _ _ _ => ∃ q ∈ p, q.id = trial.point.id
  | .setcfg _ _ _ => True

/-- The result is still in the window, and no function is called that is not there. -/
def Event.Clear (s : Vars V W D) (e : Event V W) : Prop :=
  match e with
  | .generate _ _ _ => True
  | .rejected _ _ _ => True
  | .analyze trial stackOk result hints =>
    (∃ t ∈ s.window, t.pointId = trial.point.id) ∧ stackOk = true ∧
      (0 ≤ result → ∀ i < s.strategies.length, (i : ℤ) ≠ (translateIdToSub trial.point.id).2 →
        (∀ j < i, (j : ℤ) ≠ (translateIdToSub trial.point.id).2 → 0 ≤ hints j) →
        s.strategies[i]?.map SubStrategy.hint = some true)
  | .setcfg _ _ _ => ∀ sub ∈ s.strategies, sub.getcfg → sub.setcfg

def Call.isAnalyze : Call V W → Bool
  | .analyze _ _ => true
  | _ => false

/-- An optional hook is only called where it is defined. -/
def Call.Defined (strategies : List SubStrategy) : Call V W → Prop
  | .hint i _ => strategies[i]?.map SubStrategy.hint = some true
  | .setcfg i _ _ => strategies[i]?.map SubStrategy.setcfg = some true
  | _ => True

/-- What a call does for the sub-strategies. -/
structure Delivered (s : Vars V W D) (p : List Pending) (e : Event V W) (s' : Vars V W D)
    (r : Reply V W) : Prop where
  outstanding_eq : s'.requestsOutstanding = (e.pending p r).length
  /-- A result goes to the sub-strategy that the point comes from, and nowhere else. -/
  passed : match e with
    | .analyze trial _ _ _ => ∃ q ∈ p, q.id = trial.point.id ∧
        r.calls.filter Call.isAnalyze =
          [.analyze q.owner { trial with point := { trial.point with id := q.ownId } }] ∧
        ∀ q' ∈ p, q'.id = trial.point.id → q' = q
    | _ => r.calls.filter Call.isAnalyze = []
  defined : ∀ c ∈ r.calls, c.Defined s.strategies

section

variable [Add W] [Zero W] [LT W] [DecidableLT W] (F : Doubles D)

/-- One call; `none` is a crash, or a loop that does not end. -/
def step (s : Vars V W D) : Event V W → Option (Vars V W D × Reply V W)
  | .generate flow point answers => strategyGenerate F s flow point answers
  | .rejected flow point answer => strategyRejected s flow point answer
  | .analyze trial stackOk result hints => strategyAnalyze s trial stackOk result hints
  | .setcfg key val results => strategySetcfg s key val results

/-- The states that valid calls lead to, each of which meets the condition. -/
inductive Run (cond : Vars V W D → Event V W → Prop) (start : Vars V W D) :
    Vars V W D → List Pending → Prop
  | start : Run cond start start []
  | step {s s' : Vars V W D} {p : List Pending} {e : Event V W} {r : Reply V W} :
      Run cond start s p → e.Valid p → cond s e → Bandit.step F s e = some (s', r) →
      Run cond start s' (e.pending p r)

end

/-! ## Ids of points -/

lemma translateIdFromSub_ok {i : ℕ} {id : ℤ} (hi : i < maxNumStrategies) (hid : Fits id) :
    translateIdFromSub i id = .ok (id + i * 2 ^ pointIdBits) := by
  obtain ⟨hnonneg, hlt⟩ := hid
  have hrange : ¬((i : ℤ) < 0 ∨ (maxNumStrategies : ℤ) ≤ i) := by omega
  unfold translateIdFromSub
  rw [Int.emod_eq_of_lt hnonneg hlt, if_neg (not_not.mpr rfl), if_neg hrange]

lemma translateIdToSub_code {i : ℕ} {id : ℤ} (hid : Fits id) :
    translateIdToSub (id + i * 2 ^ pointIdBits) = (id, (i : ℤ)) := by
  obtain ⟨hnonneg, hlt⟩ := hid
  unfold translateIdToSub
  rw [Int.add_mul_emod_self_right, Int.emod_eq_of_lt hnonneg hlt, Int.add_mul_ediv_right _ _ (by decide),
    Int.ediv_eq_zero_of_lt hnonneg hlt, zero_add]

/-! ## The loop of `strategy_generate` -/

section

variable (F : Doubles D)

lemma nextBest_spec (scores : List D) : nextBest F scores = -1 ∨
    ∃ (i : ℕ) (x : D), nextBest F scores = i ∧ scores[i]? = some x ∧ F.gt x (F.ofInt (-1)) := by
  let Found (best : ℤ × D) : Prop := best = (-1, F.ofInt (-1)) ∨
    ∃ i : ℕ, best.1 = i ∧ scores[i]? = some best.2 ∧ F.gt best.2 (F.ofInt (-1))
  have hfound : Found (scores.zipIdx.foldl
      (fun best p => if F.gt p.1 best.2 then ((p.2 : ℤ), p.1) else best) (-1, F.ofInt (-1))) := by
    apply List.foldlRecOn (motive := Found)
    · exact Or.inl rfl
    · intro best hbest p hp
      split_ifs with hgt
      · right
        refine ⟨p.2, rfl, List.mem_zipIdx_iff_getElem?.mp hp, ?_⟩
        obtain rfl | ⟨_, _, _, hpos⟩ := hbest
        · exact hgt
        · exact F.gt_trans hgt hpos
      · exact hbest
  unfold nextBest
  obtain heq | ⟨i, hi, hget, hpos⟩ := hfound
  · left
    rw [heq]
  · exact Or.inr ⟨i, _, hi, hget, hpos⟩

lemma assignScores_spec {s : Vars V W D} {best : ℤ} {scores : List D}
    (h : assignScores F s = .ok (best, scores)) : scores.length = s.strategies.length ∧
      (best = -1 ∨ ∃ (i : ℕ) (x : D), best = i ∧ scores[i]? = some x ∧ F.gt x (F.ofInt (-1))) := by
  unfold assignScores at h
  dsimp only at h
  split_ifs at h
  obtain ⟨hbest, hscores⟩ := Prod.mk.inj (Except.ok.inj h)
  rw [hscores] at hbest
  constructor
  · rw [← hscores, List.length_map, List.length_range]
  · rw [← hbest]
    apply List.foldlRecOn (motive := fun best : ℤ => best = -1 ∨
      ∃ (i : ℕ) (x : D), best = i ∧ scores[i]? = some x ∧ F.gt x (F.ofInt (-1)))
    · exact Or.inl rfl
    · intro best hbest p hp
      split_ifs with hgt
      · exact Or.inr ⟨p.2, p.1, rfl, List.mem_zipIdx_iff_getElem?.mp hp, hgt⟩
      · exact hbest

/-- How the loop ends: a failure, no strategy that has a point, or the point of the strategy that was
called last. -/
structure Search.Ends (answers : ℕ → Answer V) (n : ℕ) (search : Search V W) : Prop where
  calls_eq : ∃ is : List ℕ, search.calls = is.map Call.generate
  ended : search.failed = true ∨ search.bestStrategy < 0 ∧ search.flow.status = .wait ∨
    ∃ i < n, search.bestStrategy = i ∧ search.calls.getLast? = some (.generate i) ∧
      search.flow = (answers i).flow ∧ search.point = (answers i).point ∧ (answers i).IsPoint

lemma Search.Ends.cons {answers : ℕ → Answer V} {n : ℕ} {search : Search V W} (h : search.Ends answers n)
    (best : ℕ) : Search.Ends answers n { search with calls := .generate best :: search.calls } := by
  obtain ⟨is, his⟩ := h.calls_eq
  refine ⟨⟨best :: is, by rw [his]; rfl⟩, ?_⟩
  obtain hfailed | hwait | ⟨i, hi, hbest, hlast, hrest⟩ := h.ended
  · exact Or.inl hfailed
  · exact Or.inr (Or.inl hwait)
  · refine Or.inr (Or.inr ⟨i, hi, hbest, ?_, hrest⟩)
    rw [List.getLast?_cons, hlast]
    rfl

/-- A score that is set to -1 is not chosen again. -/
lemma countP_set {scores : List D} {best : ℕ} {x : D} (hget : scores[best]? = some x)
    (hgt : F.gt x (F.ofInt (-1))) :
    (scores.set best (F.ofInt (-1))).countP (F.gt · (F.ofInt (-1))) + 1 =
      scores.countP (F.gt · (F.ofInt (-1))) := by
  obtain ⟨hlt, hx⟩ := List.getElem?_eq_some_iff.mp hget
  have hpos : 0 < scores.countP (F.gt · (F.ofInt (-1))) :=
    List.countP_pos_iff.mpr ⟨x, List.mem_of_getElem? hget, hgt⟩
  rw [List.countP_set hlt, hx, F.gt_irrefl, if_pos hgt]
  simp only [Bool.false_eq_true, if_false]
  omega

lemma generateLoop_ends (answers : ℕ → Answer V) {fuel best : ℕ} {scores : List D} {x : D}
    (hget : scores[best]? = some x) (hgt : F.gt x (F.ofInt (-1)))
    (hfuel : scores.countP (F.gt · (F.ofInt (-1))) ≤ fuel) :
    ∃ search : Search V W, generateLoop F answers fuel best scores = some search ∧
      search.Ends answers scores.length := by
  induction fuel generalizing best scores x with
  | zero =>
    have hpos : 0 < scores.countP (F.gt · (F.ofInt (-1))) :=
      List.countP_pos_iff.mpr ⟨x, List.mem_of_getElem? hget, hgt⟩
    omega
  | succ fuel ih =>
    have hcount := countP_set F hget hgt
    have hlen : (scores.set best (F.ofInt (-1))).length = scores.length := List.length_set
    have hlt : best < scores.length := (List.getElem?_eq_some_iff.mp hget).1
    unfold generateLoop
    dsimp only
    by_cases hfailed : (answers best).result < 0
    · rw [if_pos hfailed]
      exact ⟨_, rfl, ⟨[best], rfl⟩, Or.inl rfl⟩
    · rw [if_neg hfailed]
      by_cases hwait : (answers best).flow.status = .wait
      · rw [if_pos hwait]
        obtain hnone | ⟨i, y, hi, hget', hgt'⟩ := nextBest_spec F (scores.set best (F.ofInt (-1)))
        · rw [hnone, if_pos (by decide)]
          exact ⟨_, rfl, ⟨[best], rfl⟩, Or.inr (Or.inl ⟨(by decide : (-1 : ℤ) < 0), hwait⟩)⟩
        · obtain ⟨search, heq, hends⟩ := ih hget' hgt' (by omega)
          have hnonneg : ¬((i : ℤ) < 0) := by omega
          rw [hi, if_neg hnonneg, Int.toNat_natCast, heq, Option.map_some]
          rw [hlen] at hends
          exact ⟨_, rfl, hends.cons best⟩
      · rw [if_neg hwait]
        refine ⟨_, rfl, ⟨[best], rfl⟩, Or.inr (Or.inr ⟨best, hlt, rfl, rfl, rfl, rfl, ?_⟩)⟩
        exact ⟨not_lt.mp hfailed, hwait⟩

end

/-! ## Points and their owners -/

/-- The ids of the pending points say whose they are. -/
structure Owned (n : ℕ) (p : List Pending) : Prop where
  coded : ∀ q ∈ p, q.owner < n ∧ Fits q.ownId ∧ q.id = q.ownId + q.owner * 2 ^ pointIdBits
  apart : p.Pairwise fun q q' => q.owner = q'.owner → q.ownId ≠ q'.ownId

lemma code_inj {q q' : Pending} (hq : Fits q.ownId) (hq' : Fits q'.ownId)
    (hcode : q.id = q.ownId + q.owner * 2 ^ pointIdBits)
    (hcode' : q'.id = q'.ownId + q'.owner * 2 ^ pointIdBits) (h : q.id = q'.id) :
    q.owner = q'.owner ∧ q.ownId = q'.ownId := by
  rw [hcode, hcode'] at h
  have hids := congrArg translateIdToSub h
  rw [translateIdToSub_code hq, translateIdToSub_code hq'] at hids
  obtain ⟨hid, howner⟩ := Prod.mk.inj hids
  exact ⟨Int.ofNat.inj howner, hid⟩

lemma Owned.nodup {n : ℕ} {p : List Pending} (h : Owned n p) : (p.map Pending.id).Nodup := by
  rw [List.Nodup, List.pairwise_map]
  apply h.apart.imp_of_mem
  intro q q' hq hq' hapart hid
  obtain ⟨-, hfits, hcode⟩ := h.coded q hq
  obtain ⟨-, hfits', hcode'⟩ := h.coded q' hq'
  obtain ⟨howner, hown⟩ := code_inj hfits hfits' hcode hcode' hid
  exact hapart howner hown

lemma Owned.id_inj {n : ℕ} {p : List Pending} (h : Owned n p) {q q' : Pending} (hq : q ∈ p)
    (hq' : q' ∈ p) (hid : q'.id = q.id) : q' = q := List.inj_on_of_nodup_map h.nodup hq' hq hid

lemma Owned.cons {n i : ℕ} {id : ℤ} {p : List Pending} (h : Owned n p) (hi : i < n) (hid : Fits id)
    (hapart : ∀ q ∈ p, q.owner = i → q.ownId ≠ id) :
    Owned n ({ id := id + i * 2 ^ pointIdBits, owner := i, ownId := id } :: p) := by
  constructor
  · intro q hq
    obtain rfl | hq := List.mem_cons.mp hq
    · exact ⟨hi, hid, rfl⟩
    · exact h.coded q hq
  · apply List.Pairwise.cons _ h.apart
    intro q hq howner hown
    exact hapart q hq howner.symm hown.symm

/-- The owner gives one of its points a new id. -/
lemma Owned.rename {n : ℕ} {p : List Pending} (h : Owned n p) {q : Pending} (hq : q ∈ p) {id : ℤ}
    (hid : Fits id) (hapart : ∀ q' ∈ p, q'.id ≠ q.id → q'.owner = q.owner → q'.ownId ≠ id) :
    Owned n (p.map fun q' => if q'.id = q.id then
      { id := id + q.owner * 2 ^ pointIdBits, owner := q'.owner, ownId := id } else q') := by
  constructor
  · intro q'' hq''
    obtain ⟨q', hq', rfl⟩ := List.mem_map.mp hq''
    split_ifs with heq
    · rw [h.id_inj hq hq' heq]
      exact ⟨(h.coded q hq).1, hid, rfl⟩
    · exact h.coded q' hq'
  · rw [List.pairwise_map]
    have hne := List.pairwise_map.mp h.nodup
    apply (h.apart.and hne).imp_of_mem
    intro a b ha hb ⟨hab, hids⟩
    by_cases hqa : a.id = q.id
    · have hqb : ¬b.id = q.id := fun hqb => hids (hqa.trans hqb.symm)
      rw [if_pos hqa, if_neg hqb]
      intro howner hown
      rw [h.id_inj hq ha hqa] at howner
      exact hapart b hb hqb howner.symm hown.symm
    · rw [if_neg hqa]
      by_cases hqb : b.id = q.id
      · rw [if_pos hqb]
        intro howner
        rw [h.id_inj hq hb hqb] at howner
        exact hapart a ha hqa howner
      · rw [if_neg hqb]
        exact hab

/-- What holds in every run. -/
structure Inv (strategies : List SubStrategy) (s : Vars V W D) (p : List Pending) : Prop where
  strategies_eq : s.strategies = strategies
  outstanding_eq : s.requestsOutstanding = p.length
  owned : Owned strategies.length p

lemma Inv.error {strategies : List SubStrategy} {s : Vars V W D} {p : List Pending}
    (h : Inv strategies s p) (msg : Bytes) : Inv strategies (s.error msg) p :=
  ⟨h.strategies_eq, h.outstanding_eq, h.owned⟩

lemma handedOut_of_ret (answers : ℕ → Answer V) {r : Reply V W} (h : r.ret ≠ 0) :
    handedOut answers r = [] := by
  unfold handedOut
  split
  · rw [if_neg fun hret => h hret.1]
  · rfl

lemma handedOut_of_wait (answers : ℕ → Answer V) {r : Reply V W} {flow : Flow V}
    (hflow : r.flow = some flow) (hwait : flow.status = .wait) : handedOut answers r = [] := by
  unfold handedOut
  rw [hflow]
  split
  next heq _ _ =>
    rw [← Option.some.inj heq, if_neg fun h => h.2 hwait]
  · rfl

lemma handedOut_of_point {answers : ℕ → Answer V} {i : ℕ} {id : ℤ} (hpoint : (answers i).IsPoint)
    {calls : List (Call V W)} (hlast : calls.getLast? = some (.generate i)) :
    handedOut answers { ret := 0, flow := some (answers i).flow,
                        point := some { (answers i).point with id := id }, calls := calls } =
      [{ id := id, owner := i, ownId := (answers i).point.id }] := by
  unfold handedOut
  dsimp only
  rw [hlast]
  exact if_pos ⟨rfl, hpoint.2⟩

lemma Inv.finish {strategies : List SubStrategy} {s : Vars V W D} {p : List Pending}
    (h : Inv strategies s p) (hfew : strategies.length ≤ maxNumStrategies) {answers : ℕ → Answer V}
    (hvalid : NewIds p answers) {search : Search V W} (hends : search.Ends answers strategies.length) :
    (s.finish search).2.calls = search.calls ∧
      Inv strategies (s.finish search).1 (handedOut answers (s.finish search).2 ++ p) := by
  have hfail : ∀ {r : Reply V W}, r.ret = -1 → handedOut answers r = [] := by
    intro r hret
    apply handedOut_of_ret
    rw [hret]
    decide
  unfold Vars.finish
  dsimp only
  by_cases hfailed : search.failed
  · rw [if_pos hfailed, hfail rfl]
    exact ⟨rfl, h⟩
  · rw [if_neg hfailed]
    obtain hfail' | ⟨hbest, hwait⟩ | ⟨i, hi, hbest, hlast, hflow, hpt, hpoint⟩ := hends.ended
    · exact absurd hfail' hfailed
    · rw [if_pos hbest, handedOut_of_wait answers rfl hwait]
      exact ⟨rfl, h⟩
    · obtain ⟨hfits, hapart⟩ := hvalid i hpoint
      have hnonneg : ¬((i : ℤ) < 0) := by omega
      rw [hbest, if_neg hnonneg, hpt, translateIdFromSub_ok (by omega) hfits]
      dsimp only
      by_cases hnext : s.window.length ≤ s.windowNext ∨ s.windowPopulation < s.windowNext
      · rw [if_pos hnext, hfail rfl]
        exact ⟨rfl, h.error _⟩
      · rw [if_neg hnext, hflow, handedOut_of_point hpoint hlast]
        refine ⟨rfl, h.strategies_eq, ?_, h.owned.cons hi hfits hapart⟩
        show s.requestsOutstanding + 1 = ((p.length + 1 : ℕ) : ℤ)
        rw [h.outstanding_eq]
        rfl

lemma Inv.generate (F : Doubles D) {strategies : List SubStrategy} {s : Vars V W D} {p : List Pending}
    (h : Inv strategies s p) (hfew : strategies.length ≤ maxNumStrategies) (flow : Flow V)
    (point : HPoint V) {answers : ℕ → Answer V} (hvalid : NewIds p answers) :
    ∃ (s' : Vars V W D) (r : Reply V W), strategyGenerate F s flow point answers = some (s', r) ∧
      (∃ is : List ℕ, r.calls = is.map Call.generate) ∧
      Inv strategies s' (handedOut answers r ++ p) := by
  unfold strategyGenerate
  by_cases hmany : maxRequestsOutstanding < s.requestsOutstanding
  · rw [if_pos hmany]
    exact ⟨_, _, rfl, ⟨[], rfl⟩, h⟩
  · rw [if_neg hmany]
    match hassign : assignScores F s with
    | .error msg => exact ⟨_, _, rfl, ⟨[], rfl⟩, h.error msg⟩
    | .ok (best, scores) =>
      obtain ⟨hlen, hnone | ⟨best', x, rfl, hget, hgt⟩⟩ := assignScores_spec F hassign
      · dsimp only
        rw [hnone, if_pos (by decide)]
        exact ⟨_, _, rfl, ⟨[], rfl⟩, h⟩
      · have hfuel : scores.countP (F.gt · (F.ofInt (-1))) ≤ s.strategies.length :=
          hlen ▸ List.countP_le_length
        obtain ⟨search, hsearch, hends⟩ := generateLoop_ends (W := W) F answers hget hgt hfuel
        rw [hlen, h.strategies_eq] at hends
        obtain ⟨hcalls, hinv⟩ := h.finish hfew hvalid hends
        obtain ⟨is, his⟩ := hends.calls_eq
        have hnonneg : ¬((best' : ℤ) < 0) := by omega
        dsimp only
        rw [if_neg hnonneg, Int.toNat_natCast, hsearch, Option.map_some]
        exact ⟨_, _, rfl, ⟨is, hcalls.trans his⟩, hinv⟩

lemma Inv.rejected {strategies : List SubStrategy} {s : Vars V W D} {p : List Pending}
    (h : Inv strategies s p) (hfew : strategies.length ≤ maxNumStrategies) (flow : Flow V)
    {point : HPoint V} {answer : Answer V}
    (hvalid : (Event.rejected flow point answer : Event V W).Valid p) :
    ∃ (s' : Vars V W D) (r : Reply V W), strategyRejected s flow point answer = some (s', r) ∧
      (∃ i flow point, r.calls = [.rejected i flow point]) ∧
      Inv strategies s' ((Event.rejected flow point answer : Event V W).pending p r) := by
  obtain ⟨hfits, q, hq, hid, hapart⟩ := hvalid
  obtain ⟨howner, hown, hcode⟩ := h.owned.coded q hq
  have hrange : ¬((q.owner : ℤ) < 0 ∨ (maxNumStrategies : ℤ) ≤ q.owner) := by omega
  have hthere : ¬((s.strategies.length : ℤ) ≤ q.owner) := by
    rw [h.strategies_eq]
    omega
  unfold strategyRejected
  rw [← hid, hcode, translateIdToSub_code hown]
  dsimp only
  rw [if_neg hrange, if_neg hthere, translateIdFromSub_ok (by omega) hfits]
  refine ⟨_, _, rfl, ⟨_, _, _, rfl⟩, h.strategies_eq, ?_, ?_⟩
  · unfold Event.pending
    rw [List.length_map]
    exact h.outstanding_eq
  · rw [← hid] at hapart
    have hrename := h.owned.rename hq hfits hapart
    rw [hid] at hrename
    exact hrename

lemma hintLoop_defined {s : Vars V W D} (trial : HTrial V W) {hints : ℕ → ℤ} {is : List ℕ}
    (h : ∀ before i after, is = before ++ i :: after → (∀ j ∈ before, 0 ≤ hints j) →
      s.strategies[i]?.map SubStrategy.hint = some true) :
    ∃ ret calls, hintLoop s trial hints is = some (ret, calls) ∧
      ∀ c ∈ calls, c.isAnalyze = false ∧ c.Defined s.strategies := by
  induction is with
  | nil => exact ⟨0, [], rfl, fun _ hc => absurd hc List.not_mem_nil⟩
  | cons i is ih =>
    have hdef : s.strategies[i]?.map SubStrategy.hint = some true :=
      h [] i is rfl fun _ hj => absurd hj List.not_mem_nil
    unfold hintLoop
    rw [if_neg (not_not.mpr hdef)]
    by_cases hneg : hints i < 0
    · rw [if_pos hneg]
      refine ⟨_, _, rfl, ?_⟩
      intro c hc
      rw [List.mem_singleton.mp hc]
      exact ⟨rfl, hdef⟩
    · rw [if_neg hneg]
      obtain ⟨ret, calls, hrest, hcalls⟩ := ih (by
        intro before j after heq hbefore
        apply h (i :: before) j after (by rw [heq]; rfl)
        intro k hk
        obtain rfl | hk := List.mem_cons.mp hk
        · exact not_lt.mp hneg
        · exact hbefore k hk)
      rw [hrest, Option.map_some]
      refine ⟨_, _, rfl, ?_⟩
      intro c hc
      obtain rfl | hc := List.mem_cons.mp hc
      · exact ⟨rfl, hdef⟩
      · exact hcalls c hc

/-- The strategies before one in the list of the others are those with smaller indices. -/
lemma mem_before {n owner i j : ℕ} {before after : List ℕ}
    (h : (List.range n).filter (· ≠ owner) = before ++ i :: after) (hji : j < i) (hj : j ≠ owner) :
    j ∈ before := by
  have hi : i ∈ (List.range n).filter (· ≠ owner) := by
    rw [h]
    exact List.mem_append_right _ List.mem_cons_self
  have hmem : j ∈ (List.range n).filter (· ≠ owner) := by
    have hlt := List.mem_range.mp (List.mem_filter.mp hi).1
    exact List.mem_filter.mpr ⟨List.mem_range.mpr (hji.trans hlt), decide_eq_true hj⟩
  have hsorted : ((List.range n).filter (· ≠ owner)).Pairwise (· < ·) :=
    List.pairwise_lt_range.filter _
  rw [h] at hmem hsorted
  obtain hbefore | hrest := List.mem_append.mp hmem
  · exact hbefore
  · obtain rfl | hafter := List.mem_cons.mp hrest
    · exact absurd hji (lt_irrefl _)
    · have hlt := List.rel_of_pairwise_cons (List.pairwise_append.mp hsorted).2.1 hafter
      omega

/-- The result of one point leaves the others. -/
lemma Owned.remove {n : ℕ} {p : List Pending} (h : Owned n p) {q : Pending} (hq : q ∈ p) :
    Owned n (p.filter fun q' => q'.id ≠ q.id) ∧
      (p.filter fun q' => q'.id ≠ q.id).length + 1 = p.length := by
  constructor
  · exact ⟨fun q' hq' => h.coded q' (List.mem_filter.mp hq').1, h.apart.filter _⟩
  · have hcount : (p.map Pending.id).count q.id = 1 :=
      List.count_eq_one_of_mem h.nodup (List.mem_map_of_mem hq)
    have hsum := List.length_eq_countP_add_countP (fun q' : Pending => q'.id == q.id) (l := p)
    rw [List.count, List.countP_map] at hcount
    have hsame : p.countP ((· == q.id) ∘ Pending.id) = p.countP fun q' => q'.id == q.id := rfl
    have hrest : (p.filter fun q' => q'.id ≠ q.id).length =
        p.countP fun q' => decide ¬(q'.id == q.id) = true := by
      rw [← List.countP_eq_length_filter]
      apply List.countP_congr
      intro q' _
      simp
    omega

section

variable [Add W] [Zero W] [LT W] [DecidableLT W]

lemma Vars.complete_strategies (s : Vars V W D) (entry : ℕ) (trial : HTrial V W) :
    (s.complete entry trial).strategies = s.strategies := by
  unfold Vars.complete
  dsimp only
  split_ifs <;> rfl

lemma Vars.complete_outstanding (s : Vars V W D) (entry : ℕ) (trial : HTrial V W) :
    (s.complete entry trial).requestsOutstanding = s.requestsOutstanding - 1 := by
  unfold Vars.complete
  dsimp only
  split_ifs <;> rfl

/-- A result that is still in the window goes to the owner of the point. -/
lemma Inv.analyze {strategies : List SubStrategy} {s : Vars V W D} {p : List Pending}
    (h : Inv strategies s p) (hfew : strategies.length ≤ maxNumStrategies) {trial : HTrial V W}
    {stackOk : Bool} {result : ℤ} {hints : ℕ → ℤ} {q : Pending} (hq : q ∈ p)
    (hid : q.id = trial.point.id)
    (hclear : (Event.analyze trial stackOk result hints : Event V W).Clear s) :
    ∃ (s' : Vars V W D) (r : Reply V W) (calls : List (Call V W)),
      strategyAnalyze s trial stackOk result hints = some (s', r) ∧
      r.calls = .analyze q.owner { trial with point := { trial.point with id := q.ownId } } :: calls ∧
      (∀ c ∈ calls, c.isAnalyze = false ∧ c.Defined s.strategies) ∧
      Inv strategies s' (p.filter fun q' => q'.id ≠ trial.point.id) := by
  obtain ⟨⟨t, ht, htid⟩, hstack, hhints⟩ := hclear
  obtain ⟨howner, hown, hcode⟩ := h.owned.coded q hq
  have hdecode : translateIdToSub trial.point.id = (q.ownId, (q.owner : ℤ)) := by
    rw [← hid, hcode]
    exact translateIdToSub_code hown
  rw [hdecode] at hhints
  obtain ⟨entry, hentry⟩ :
      ∃ entry, s.window.findIdx? (fun t => t.pointId = trial.point.id) = some entry := by
    apply Option.isSome_iff_exists.mp
    rw [List.findIdx?_isSome]
    exact List.any_eq_true.mpr ⟨t, ht, decide_eq_true htid⟩
  obtain ⟨howned, hlen⟩ := h.owned.remove hq
  rw [hid] at howned hlen
  have hinv : Inv strategies (s.complete entry trial) (p.filter fun q' => q'.id ≠ trial.point.id) := by
    refine ⟨(s.complete_strategies entry trial).trans h.strategies_eq, ?_, howned⟩
    rw [s.complete_outstanding, h.outstanding_eq]
    omega
  have hrange : ¬((q.owner : ℤ) < 0 ∨ (maxNumStrategies : ℤ) ≤ q.owner) := by omega
  have hthere : ¬(¬stackOk = true ∨ ((s.complete entry trial).strategies.length : ℤ) ≤ q.owner) := by
    rw [hinv.strategies_eq, not_or, not_not]
    exact ⟨hstack, by omega⟩
  unfold strategyAnalyze
  rw [hentry]
  dsimp only
  rw [hdecode]
  dsimp only
  rw [if_neg hrange, if_neg hthere, Int.toNat_natCast]
  by_cases hneg : result < 0
  · rw [if_pos hneg]
    exact ⟨_, _, [], rfl, rfl, fun _ hc => absurd hc List.not_mem_nil, hinv⟩
  · rw [if_neg hneg]
    have hothers : ∀ before i after,
        (List.range (s.complete entry trial).strategies.length).filter (· ≠ q.owner) =
          before ++ i :: after → (∀ j ∈ before, 0 ≤ hints j) →
        (s.complete entry trial).strategies[i]?.map SubStrategy.hint = some true := by
      intro before i after heq hbefore
      have hi : i ∈ (List.range (s.complete entry trial).strategies.length).filter (· ≠ q.owner) := by
        rw [heq]
        exact List.mem_append_right _ List.mem_cons_self
      rw [s.complete_strategies] at heq hi ⊢
      obtain ⟨hlt, hne⟩ := List.mem_filter.mp hi
      apply hhints (not_lt.mp hneg) i (List.mem_range.mp hlt)
      · exact fun heq' => of_decide_eq_true hne (Int.ofNat.inj heq')
      · intro j hj hjowner
        exact hbefore j (mem_before heq hj fun heq' => hjowner (congrArg Int.ofNat heq'))
    obtain ⟨ret, calls, hloop, hcalls⟩ := hintLoop_defined trial hothers
    rw [hloop, Option.map_some]
    rw [s.complete_strategies] at hcalls
    exact ⟨_, _, calls, rfl, rfl, hcalls, hinv⟩

end

lemma setcfgLoop_defined {strategies : List SubStrategy} (key val : Bytes) (results : ℕ → ℤ)
    {l : List (SubStrategy × ℕ)} (hl : ∀ p ∈ l, strategies[p.2]? = some p.1)
    (hget : ∀ p ∈ l, p.1.getcfg → p.1.setcfg) {r : Reply V W}
    (hr : ∀ c ∈ r.calls, c.isAnalyze = false ∧ c.Defined strategies) :
    ∃ r', l.foldlM (setcfgRound key val results) r = some r' ∧
      ∀ c ∈ r'.calls, c.isAnalyze = false ∧ c.Defined strategies := by
  induction l generalizing r with
  | nil => exact ⟨r, rfl, hr⟩
  | cons p l ih =>
    obtain ⟨hp, hl⟩ := List.forall_mem_cons.mp hl
    obtain ⟨hpget, hget⟩ := List.forall_mem_cons.mp hget
    rw [List.foldlM_cons]
    by_cases hdef : p.1.getcfg
    · have hround : setcfgRound key val results r p = some
          { r with ret := Int.lor r.ret (results p.2), calls := r.calls ++ [.setcfg p.2 key val] } := by
        unfold setcfgRound
        rw [if_pos hdef, if_pos (hpget hdef)]
      rw [hround]
      apply ih hl hget
      intro c hc
      obtain hc | hc := List.mem_append.mp hc
      · exact hr c hc
      · rw [List.mem_singleton.mp hc]
        refine ⟨rfl, ?_⟩
        show strategies[p.2]?.map SubStrategy.setcfg = some true
        rw [hp, Option.map_some, hpget hdef]
    · have hround : setcfgRound key val results r p = some r := if_neg hdef
      rw [hround]
      exact ih hl hget hr

/-! ## Delivery -/

lemma filter_isAnalyze {calls : List (Call V W)} (h : ∀ c ∈ calls, c.isAnalyze = false) :
    calls.filter Call.isAnalyze = [] :=
  List.filter_eq_nil_iff.mpr fun c hc => by rw [h c hc]; decide

lemma strategyInit_inv [Top W] (strategies : List SubStrategy) (exploreFactor : D)
    (memory : List Subtrial) :
    Inv strategies (strategyInit strategies exploreFactor memory : Vars V W D) [] :=
  ⟨rfl, rfl, fun _ hq => absurd hq List.not_mem_nil, List.Pairwise.nil⟩

section

variable [Add W] [Zero W] [LT W] [DecidableLT W] {F : Doubles D}

/-- One call keeps the invariant, and delivers. -/
lemma Inv.step {strategies : List SubStrategy} {s : Vars V W D} {p : List Pending}
    (h : Inv strategies s p) (hfew : strategies.length ≤ maxNumStrategies) {e : Event V W}
    (hvalid : e.Valid p) (hclear : e.Clear s) :
    ∃ s' r, step F s e = some (s', r) ∧ Inv strategies s' (e.pending p r) ∧ Delivered s p e s' r := by
  cases e with
  | generate flow point answers =>
    obtain ⟨s', r, hstep, ⟨is, his⟩, hinv⟩ := h.generate F hfew flow point hvalid
    have hcalls : ∀ c ∈ r.calls, c.isAnalyze = false ∧ c.Defined s.strategies := by
      intro c hc
      rw [his] at hc
      obtain ⟨i, -, rfl⟩ := List.mem_map.mp hc
      exact ⟨rfl, trivial⟩
    exact ⟨s', r, hstep, hinv, hinv.outstanding_eq, filter_isAnalyze fun c hc => (hcalls c hc).1,
      fun c hc => (hcalls c hc).2⟩
  | rejected flow point answer =>
    obtain ⟨s', r, hstep, ⟨i, subFlow, subPoint, hcalls⟩, hinv⟩ := h.rejected hfew flow hvalid
    refine ⟨s', r, hstep, hinv, hinv.outstanding_eq, ?_, ?_⟩
    · show r.calls.filter Call.isAnalyze = []
      rw [hcalls]
      rfl
    · intro c hc
      rw [hcalls] at hc
      rw [List.mem_singleton.mp hc]
      trivial
  | analyze trial stackOk result hints =>
    obtain ⟨q, hq, hid⟩ := hvalid
    obtain ⟨s', r, calls, hstep, hcalls, hrest, hinv⟩ := h.analyze hfew hq hid hclear
    refine ⟨s', r, hstep, hinv, hinv.outstanding_eq, ⟨q, hq, hid, ?_, ?_⟩, ?_⟩
    · rw [hcalls, List.filter_cons_of_pos rfl, filter_isAnalyze fun c hc => (hrest c hc).1]
    · intro q' hq' hid'
      exact h.owned.id_inj hq hq' (hid'.trans hid.symm)
    · intro c hc
      rw [hcalls] at hc
      obtain rfl | hc := List.mem_cons.mp hc
      · trivial
      · exact (hrest c hc).2
  | setcfg key val results =>
    have hl : ∀ sub ∈ s.strategies.zipIdx, s.strategies[sub.2]? = some sub.1 :=
      fun sub hsub => List.mem_zipIdx_iff_getElem?.mp hsub
    have hget : ∀ sub ∈ s.strategies.zipIdx, sub.1.getcfg → sub.1.setcfg :=
      fun sub hsub => hclear sub.1 (List.mem_of_getElem? (hl sub hsub))
    obtain ⟨r, hloop, hcalls⟩ := setcfgLoop_defined (V := V) (W := W) key val results hl hget
      (r := { ret := 0, flow := none, point := none, calls := [] })
      fun _ hc => absurd hc List.not_mem_nil
    refine ⟨s, r, ?_, h, h.outstanding_eq, filter_isAnalyze fun c hc => (hcalls c hc).1,
      fun c hc => (hcalls c hc).2⟩
    show strategySetcfg s key val results = _
    unfold strategySetcfg
    rw [hloop]
    rfl

/-- In every run whose results are still in the window when they come, and in which no function is
called that is not there, each further such call delivers. -/
theorem results_delivered [Top W] {strategies : List SubStrategy}
    (hfew : strategies.length ≤ maxNumStrategies) {exploreFactor : D} {memory : List Subtrial}
    {s : Vars V W D} {p : List Pending}
    (hrun : Run F Event.Clear (strategyInit strategies exploreFactor memory) s p) :
    s.requestsOutstanding = p.length ∧ ∀ e, e.Valid p → e.Clear s →
      ∃ s' r, step F s e = some (s', r) ∧ Delivered s p e s' r := by
  have hinv : Inv strategies s p := by
    induction hrun with
    | start => exact strategyInit_inv strategies exploreFactor memory
    | step _ hvalid hclear hstep ih =>
      obtain ⟨s', r, hstep', hinv, -⟩ := ih.step hfew hvalid hclear
      obtain ⟨rfl, rfl⟩ := Prod.mk.inj (Option.some.inj (hstep'.symm.trans hstep))
      exact hinv
  refine ⟨hinv.outstanding_eq, ?_⟩
  intro e hvalid hclear
  obtain ⟨s', r, hstep, -, hdelivered⟩ := hinv.step hfew hvalid hclear
  exact ⟨s', r, hstep, hdelivered⟩

end

/-! ## A point with a new id -/

/-- Integers with an infinity, which the scores of strategies without results need. -/
def intDoubles : Doubles (Option ℤ) where
  ofInt := some
  infinity := none
  add := Option.map₂ (· + ·)
  mul := Option.map₂ (· * ·)
  div := Option.map₂ (· / ·)
  sqrt := Option.map fun x => (Nat.sqrt x.toNat : ℤ)
  gt
    | none, some _ => true
    | some x, some y => y < x
    | _, none => false
  gt_irrefl x := by cases x <;> simp
  gt_trans {x y z} := by
    cases x <;> cases y <;> cases z <;> simp
    omega

/-- A strategy without optional hooks. -/
def plain : SubStrategy := { hint := false, getcfg := false, setcfg := false }

/-- `bandit.c` with one strategy, and a window of two entries. -/
def single : Vars ℕ (WithTop ℕ) (Option ℤ) :=
  strategyInit [plain] (some 1) (List.replicate 2 { strategyId := 0, pointId := -7, complete := false,
                                                    newBest := false })

/-- The answer with the point `id`. -/
def accepted (id : ℤ) : Answer ℕ :=
  { result := 0, flow := { status := .accept, point := hpointInitializer ℕ }
    point := { id := id, val := [] } }

def asked : Event ℕ (WithTop ℕ) := .generate (accepted 0).flow (hpointInitializer ℕ) fun _ => accepted 0

def refused : Event ℕ (WithTop ℕ) := .rejected (accepted 0).flow (accepted 0).point (accepted 1)

def measured : Event ℕ (WithTop ℕ) :=
  .analyze { point := (accepted 1).point, perf := { p := [1] } } true 0 fun _ => 0

lemma accepted_fits {id : ℤ} (h : 0 ≤ id ∧ id < 2 ^ pointIdBits) : Fits (accepted id).point.id := h

lemma asked_valid : asked.Valid [] :=
  fun _ _ => ⟨accepted_fits (by decide), fun _ hq => absurd hq List.not_mem_nil⟩

/-- One point is generated, and is in the window. -/
theorem single_delivered : ∃ s p, Run intDoubles Event.Clear single s p ∧
    p = [{ id := 0, owner := 0, ownId := 0 }] ∧ s.requestsOutstanding = p.length ∧
    ∀ e, e.Valid p → e.Clear s → ∃ s' r, step intDoubles s e = some (s', r) ∧ Delivered s p e s' r := by
  have hend : (step intDoubles single asked).map (fun a => asked.pending [] a.2) =
      some [{ id := 0, owner := 0, ownId := 0 }] := by decide +kernel
  obtain ⟨⟨s, r⟩, hstep, hpending⟩ := Option.map_eq_some_iff.mp hend
  have hrun : Run intDoubles Event.Clear single s (asked.pending [] r) :=
    Run.step Run.start asked_valid trivial hstep
  exact ⟨s, _, hrun, hpending, results_delivered (by decide) hrun⟩

/-- The window has the old id of a point that was rejected. -/
theorem rejected_result_lost : ¬ ∀ (strategies : List SubStrategy) (exploreFactor : Option ℤ)
    (memory : List Subtrial) (s : Vars ℕ (WithTop ℕ) (Option ℤ)) (p : List Pending),
    strategies.length ≤ maxNumStrategies → memory ≠ [] →
    Run intDoubles (fun _ _ => True) (strategyInit strategies exploreFactor memory) s p →
    ∀ e, e.Valid p → ∃ s' r, step intDoubles s e = some (s', r) ∧ Delivered s p e s' r := by
  intro hall
  have hend : ((step intDoubles single asked).bind fun a => (step intDoubles a.1 refused).bind fun b =>
      (step intDoubles b.1 measured).map fun c => (asked.pending [] a.2,
        refused.pending (asked.pending [] a.2) b.2, c.1.requestsOutstanding)) =
      some ([{ id := 0, owner := 0, ownId := 0 }], [{ id := 1, owner := 0, ownId := 1 }], 1) := by
    decide +kernel
  obtain ⟨⟨s₁, r₁⟩, hasked, hend⟩ := Option.bind_eq_some_iff.mp hend
  obtain ⟨⟨s₂, r₂⟩, hrefused, hend⟩ := Option.bind_eq_some_iff.mp hend
  obtain ⟨⟨s₃, r₃⟩, hmeasured, hend⟩ := Option.map_eq_some_iff.mp hend
  obtain ⟨hp, hend⟩ := Prod.mk.inj hend
  obtain ⟨hp', hcount⟩ := Prod.mk.inj hend
  have hrun : Run intDoubles (fun _ _ => True) single s₁ (asked.pending [] r₁) :=
    Run.step Run.start asked_valid trivial hasked
  rw [hp] at hrun hp'
  have hvalid : refused.Valid [{ id := 0, owner := 0, ownId := 0 }] := by
    refine ⟨accepted_fits (by decide), _, List.mem_cons_self, rfl, ?_⟩
    intro q' hq' hne
    rw [List.mem_singleton.mp hq'] at hne
    exact absurd rfl hne
  have hrun' := Run.step hrun hvalid trivial hrefused
  rw [hp'] at hrun'
  obtain ⟨s', r', hstep, hdelivered⟩ := hall _ _ _ _ _ (by decide) (by decide) hrun' measured
    ⟨_, List.mem_cons_self, rfl⟩
  obtain ⟨rfl, rfl⟩ := Prod.mk.inj (Option.some.inj (hstep.symm.trans hmeasured))
  have hzero : (1 : ℤ) = (0 : ℕ) := hcount.symm.trans hdelivered.outstanding_eq
  exact absurd hzero (by decide)

end ActiveHarmony.Bandit

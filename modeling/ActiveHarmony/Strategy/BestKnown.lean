import ActiveHarmony.Session.Restart
import ActiveHarmony.Strategy.Pro

/-!
# The best point at the moment of convergence

Both simplex strategies set `STRATEGY_CONVERGED` inside their algorithm, and record the best point
after it. `notified` collects the worlds in which they set it, which are what the `setcfg` hook of a
layer sees. `converged_knows_best` says when `strategy_best` is up to date there.
-/

namespace ActiveHarmony

/-! ## A running minimum -/

section RunningMin

variable {α W : Type} [LinearOrder W]

/-- The first of the cheapest pairs, from left to right. -/
def runningMin (start : α × W) (l : List (α × W)) : α × W :=
  l.foldl (fun best x => if x.2 < best.2 then x else best) start

lemma runningMin_concat (start : α × W) (l : List (α × W)) (x : α × W) :
    runningMin start (l ++ [x])
      = if x.2 < (runningMin start l).2 then x else runningMin start l := by
  unfold runningMin
  rw [List.foldl_concat]

lemma runningMin_le (start : α × W) (l : List (α × W)) :
    ∀ x ∈ l, (runningMin start l).2 ≤ x.2 := by
  induction l using List.reverseRecOn with
  | nil => exact fun x hx => absurd hx List.not_mem_nil
  | append_singleton l y ih =>
    intro x hx
    rw [runningMin_concat]
    rcases List.mem_append.mp hx with hx | hx
    · split_ifs with hlt
      · exact le_trans hlt.le (ih x hx)
      · exact ih x hx
    · rw [List.mem_singleton.mp hx]
      split_ifs with hlt
      · exact le_refl _
      · exact not_lt.mp hlt

/-- Something cheaper than the start makes the minimum one of the pairs. -/
lemma runningMin_mem (start : α × W) (l : List (α × W)) (hlt : ∃ x ∈ l, x.2 < start.2) :
    runningMin start l ∈ l := by
  have hor : ∀ l : List (α × W), runningMin start l = start ∨ runningMin start l ∈ l := by
    intro l
    induction l using List.reverseRecOn with
    | nil => exact Or.inl rfl
    | append_singleton l y ih =>
      rw [runningMin_concat]
      split_ifs
      · exact Or.inr (List.mem_append_right l List.mem_cons_self)
      · exact ih.imp_right (List.mem_append_left [y])
  rcases hlt with ⟨x, hx, hlt⟩
  refine (hor l).resolve_left fun hstart => ?_
  have hle := runningMin_le start l x hx
  rw [hstart] at hle
  exact absurd hlt (not_lt.mpr hle)

end RunningMin

/-! ## Runs of a strategy -/

/-- A call that the session makes to its strategy. -/
inductive SearchCall (V W : Type) where
  | generate (flow : Flow V) (point : HPoint V)
  | rejected (flow : Flow V) (point : HPoint V)
  | analyze (trial : HTrial V W)

variable {σ V W : Type}

/-- The return value of a call, and what it leaves. -/
def Plugins.call (P : Plugins σ V W) (world : World σ) : SearchCall V W → ℤ × World σ
  | .generate flow point =>
    let res := P.strategyGenerate world flow point
    (res.1, res.2.1)
  | .rejected flow point =>
    let res := P.strategyRejected world flow point
    (res.1, res.2.1)
  | .analyze trial => P.strategyAnalyze world trial

/-- The configuration after `CONVERGED` was set in each of the worlds. -/
def cfgAfter (cfg : Hcfg) (notified : List (World σ)) : Hcfg :=
  (notified.map fun w => (sessionSetcfg w cfgkeyStrategyConverged (cstr "1")).2.cfg).getLastD cfg

variable [Add W] [Zero W]

/-- A strategy that records its best point after it has looked for convergence. `notified` are the
worlds in which a call sets `CONVERGED` to 1, and the only ones in which it changes the
configuration. -/
structure Strategy (σ V W : Type) [Add W] [Zero W] [LinearOrder W] [OrderTop W] where
  plugins : Plugins σ V W
  init : World σ → ℤ × World σ
  fresh : σ → Prop
  record : σ → HPoint V × W
  accepts : σ → HTrial V W → Bool
  notified : World σ → SearchCall V W → List (World σ)
  init_eq : plugins.strategyInit = some init
  init_record : ∀ world, fresh world.plug → record (init world).2.plug = (hpointInitializer V, ⊤)
  notified_cfg : ∀ world call,
    (plugins.call world call).2.cfg = cfgAfter world.cfg (notified world call)
  notified_record : ∀ world call, ∀ w ∈ notified world call, record w.plug = record world.plug
  generate_record : ∀ world flow point,
    record (plugins.call world (.generate flow point)).2.plug = record world.plug
  rejected_record : ∀ world flow point,
    record (plugins.call world (.rejected flow point)).2.plug = record world.plug
  analyze_record : ∀ world trial, (plugins.call world (.analyze trial)).1 = 0 →
    record (plugins.call world (.analyze trial)).2.plug =
      if accepts world.plug trial ∧ hperfUnify trial.perf < (record world.plug).2 then
        (hpointCopy trial.point, hperfUnify trial.perf)
      else record world.plug
  best_eq : ∀ world point,
    (plugins.strategyBest world point).2.2 = hpointCopy (record world.plug).1

namespace Strategy

variable [LinearOrder W] [OrderTop W] (S : Strategy σ V W)

/-- The trial of the call, unless the strategy ignores it. -/
def matching (world : World σ) : SearchCall V W → List (HTrial V W)
  | .analyze trial => if S.accepts world.plug trial then [trial] else []
  | _ => []

lemma matching_analyze (world : World σ) (trial : HTrial V W) :
    S.matching world (.analyze trial) = if S.accepts world.plug trial then [trial] else [] := rfl

/-- The worlds of runs that start by loading the strategy, each with the matching trials analyzed so
far. A failure of `strategy_analyze` ends the session. -/
inductive Reaches : World σ → List (HTrial V W) → Prop where
  | init {world : World σ} : S.fresh world.plug → (S.init world).1 = 0 → Reaches (S.init world).2 []
  | generate {world : World σ} {trials : List (HTrial V W)} (flow : Flow V) (point : HPoint V) :
    Reaches world trials → Reaches (S.plugins.call world (.generate flow point)).2 trials
  | rejected {world : World σ} {trials : List (HTrial V W)} (flow : Flow V) (point : HPoint V) :
    Reaches world trials → Reaches (S.plugins.call world (.rejected flow point)).2 trials
  | analyze {world : World σ} {trials : List (HTrial V W)} (trial : HTrial V W) :
    Reaches world trials → (S.plugins.call world (.analyze trial)).1 = 0 →
    Reaches (S.plugins.call world (.analyze trial)).2
      (trials ++ S.matching world (.analyze trial))
  /-- The rest of the session changes its configuration and its error message. -/
  | other {world world' : World σ} {trials : List (HTrial V W)} :
    Reaches world trials → world'.plug = world.plug → Reaches world' trials

/-- `strategy_best` returns the point of a cheapest trial. -/
def KnowsBest (world : World σ) (trials : List (HTrial V W)) : Prop :=
  ∃ trial ∈ trials, (∀ point, (S.plugins.strategyBest world point).2.2 = hpointCopy trial.point) ∧
    ∀ other ∈ trials, hperfUnify trial.perf ≤ hperfUnify other.perf

/-- A trial's point and performance, as the strategy records them. -/
def entry (trial : HTrial V W) : HPoint V × W := (hpointCopy trial.point, hperfUnify trial.perf)

variable {S} {world : World σ} {trials : List (HTrial V W)}

/-- The record is the running minimum of the matching trials. -/
theorem Reaches.record_eq (h : S.Reaches world trials) :
    S.record world.plug = runningMin (hpointInitializer V, ⊤) (trials.map entry) := by
  induction h with
  | init hfresh hret => exact S.init_record _ hfresh
  | generate flow point _ ih => rw [S.generate_record, ih]
  | rejected flow point _ ih => rw [S.rejected_record, ih]
  | @analyze world trials trial _ hret ih =>
    rw [S.analyze_record world trial hret, S.matching_analyze]
    by_cases haccepts : S.accepts world.plug trial = true
    · rw [if_pos haccepts, List.map_append, List.map_singleton, runningMin_concat, ← ih]
      simp only [haccepts, true_and]
      rfl
    · rw [if_neg haccepts, List.append_nil, if_neg fun hand => haccepts hand.1, ih]
  | other _ hplug ih => rw [hplug, ih]

lemma hpointCopy_hpointCopy (orig : HPoint V) : hpointCopy (hpointCopy orig) = hpointCopy orig := by
  by_cases hid : orig.id = -1
  · have hcopy : hpointCopy orig = hpointInitializer V := if_pos hid
    rw [hcopy]
    exact if_pos rfl
  · have hcopy : hpointCopy orig = orig := if_neg hid
    rw [hcopy, hcopy]

/-- Unless the trial at hand is a new optimum, the best point is known when `CONVERGED` is set. -/
theorem Reaches.knows_best (h : S.Reaches world trials) {call : SearchCall V W} {w : World σ}
    (hw : w ∈ S.notified world call) (hfinite : ∃ trial ∈ trials, hperfUnify trial.perf < ⊤)
    (hold : ∀ trial ∈ S.matching world call,
      ∃ other ∈ trials, hperfUnify other.perf ≤ hperfUnify trial.perf) :
    S.KnowsBest w (trials ++ S.matching world call) := by
  have hrecord := (S.notified_record world call w hw).trans h.record_eq
  have hle := runningMin_le (hpointInitializer V, (⊤ : W)) (trials.map entry)
  have hmem : runningMin (hpointInitializer V, ⊤) (trials.map entry) ∈ trials.map entry := by
    apply runningMin_mem
    rcases hfinite with ⟨trial, htrial, hlt⟩
    exact ⟨entry trial, List.mem_map_of_mem htrial, hlt⟩
  rcases List.mem_map.mp hmem with ⟨best, hbest, heq⟩
  rw [← heq] at hle hrecord
  have hmin : ∀ other ∈ trials, hperfUnify best.perf ≤ hperfUnify other.perf :=
    fun other hother => hle (entry other) (List.mem_map_of_mem hother)
  refine ⟨best, List.mem_append_left _ hbest, fun point => ?_, fun other hother => ?_⟩
  · rw [S.best_eq, hrecord]
    exact hpointCopy_hpointCopy best.point
  · rcases List.mem_append.mp hother with hother | hother
    · exact hmin other hother
    · rcases hold other hother with ⟨earlier, hearlier, hle'⟩
      exact le_trans (hmin earlier hearlier) hle'

end Strategy

/-! ## `nm.c` -/

section NelderMead

variable {K T ρ : Type} [Neg K] [LT W] [DecidableLT W] [Top W] (lib : NmLib K T V W ρ)
variable {m m' : Nm K T V W ρ}

/-- `best` and `best_perf`. -/
def Nm.record (m : Nm K T V W ρ) : HPoint V × W := (m.best, m.bestPerf)

omit [Neg K] [Add W] [Zero W] [LT W] [DecidableLT W] [Top W] in
lemma foldl_record {step : Nm K T V W ρ → ℕ → Nm K T V W ρ}
    (h : ∀ m i, (step m i).record = m.record) (l : List ℕ) (start : Nm K T V W ρ) :
    (l.foldl step start).record = start.record := by
  induction l generalizing start with
  | nil => rfl
  | cons i l ih => rw [List.foldl_cons, ih, h]

omit [Neg K] [Top W] in
lemma simplexUpdateIndex_record (m : Nm K T V W ρ) : (simplexUpdateIndex m).record = m.record := by
  unfold simplexUpdateIndex
  rw [foldl_record]
  · rfl
  · intro m i
    dsimp only
    split
    · split_ifs <;> rfl
    · rfl

omit [Neg K] [Top W] in
lemma simplexUpdateCentroid_record (m : Nm K T V W ρ) :
    (simplexUpdateCentroid lib m).record = m.record := simplexUpdateIndex_record m

omit [Neg K] [Top W] in
lemma nmStateTransition_record (h : nmStateTransition lib m = some m') : m'.record = m.record := by
  unfold nmStateTransition at h
  split at h
  · dsimp only at h
    split_ifs at h <;> cases h
    · exact simplexUpdateCentroid_record lib _
    · rfl
  · dsimp only at h
    split_ifs at h <;> cases h
    · exact simplexUpdateCentroid_record lib _
    · rfl
  · simp only [Option.bind_eq_bind, Option.bind_eq_some_iff] at h
    rcases h with ⟨best, -, worst, -, h⟩
    split_ifs at h <;> cases h
    · rfl
    all_goals exact simplexUpdateCentroid_record lib _
  · simp only [Option.bind_eq_bind, Option.bind_eq_some_iff] at h
    rcases h with ⟨best, -, h⟩
    cases h
    refine (simplexUpdateCentroid_record lib _).trans ?_
    split_ifs <;> rfl
  · simp only [Option.bind_eq_bind, Option.bind_eq_some_iff] at h
    rcases h with ⟨worst, -, h⟩
    split_ifs at h <;> cases h
    · exact simplexUpdateCentroid_record lib _
    · rfl
  · cases h

omit [Add W] [Zero W] [LT W] [DecidableLT W] in
lemma nmNextVertex_record (h : nmNextVertex lib m = some m') : m'.record = m.record := by
  have htransform : ∀ c, m.transformWorst lib c = some m' → m'.record = m.record := by
    intro c hc
    unfold Nm.transformWorst at hc
    simp only [Option.bind_eq_bind, Option.bind_eq_some_iff] at hc
    rcases hc with ⟨worst, -, hc⟩
    cases hc
    rfl
  unfold nmNextVertex at h
  split at h
  · cases h
    rfl
  · exact htransform _ h
  · exact htransform _ h
  · exact htransform _ h
  · split_ifs at h
    · simp only [Option.bind_eq_bind, Option.bind_eq_some_iff] at h
      rcases h with ⟨best, -, h⟩
      cases h
      rfl
    · cases h
      rfl
  · cases h
    rfl

omit [Neg K] [Add W] [Zero W] [LT W] [DecidableLT W] [Top W] in
lemma modifyNext_record (m : Nm K T V W ρ) (f : Vertex T W → Vertex T W) :
    (m.modifyNext f).record = m.record := by
  unfold Nm.modifyNext
  split <;> rfl

/-- The worlds in which `nm_algorithm` sets `CONVERGED`. -/
def nmNotified : ℕ → NmWorld K T V W ρ → List (NmWorld K T V W ρ)
  | 0, _ => []
  | fuel + 1, world =>
    if world.plug.state = .converged then []
    else
      match nmStateTransition lib world.plug with
      | none => []
      | some m =>
        if m.state = .reflect ∧ lib.hasConverged m.cfg m.base m.centroid then
          [{ world with plug := { m with state := .converged } }]
        else
          match nmNextVertex lib m with
          | none => []
          | some m =>
            match m.nextVertex with
            | none => []
            | some next =>
              if lib.vertexOutofbounds next.term then nmNotified fuel { world with plug := m } else []

lemma nmAlgorithm_converged {world : NmWorld K T V W ρ} (h : world.plug.state = .converged)
    (fuel : ℕ) : (nmAlgorithm lib fuel world).2 = world := by
  cases fuel with
  | zero => rfl
  | succ fuel =>
    unfold nmAlgorithm
    rw [if_pos h]

/-- The part of a round of `nm_algorithm` after the test for convergence. -/
def nmFinishRound (fuel : ℕ) (world : NmWorld K T V W ρ) : ℤ × NmWorld K T V W ρ :=
  match nmNextVertex lib world.plug with
  | none => (-1, world)
  | some m =>
    match m.nextVertex with
    | none => (-1, { world with plug := m })
    | some next =>
      if lib.vertexOutofbounds next.term then nmAlgorithm lib fuel { world with plug := m }
      else (0, { world with plug := m })

lemma nmAlgorithm_succ {world : NmWorld K T V W ρ} (hconv : world.plug.state ≠ .converged)
    (htrans : nmStateTransition lib world.plug = some m) (fuel : ℕ) :
    nmAlgorithm lib (fuel + 1) world = nmFinishRound lib fuel
      (if m.state = .reflect then checkConvergence lib { world with plug := m }
        else { world with plug := m }) := by
  rw [nmAlgorithm, if_neg hconv, htrans]
  dsimp only
  generalize (if m.state = .reflect then checkConvergence lib { world with plug := m }
    else { world with plug := m }) = next
  unfold nmFinishRound
  cases nmNextVertex lib next.plug with
  | none => rfl
  | some m =>
    dsimp only
    cases m.nextVertex <;> rfl

/-- After convergence the round ends without a change to the record and the configuration. -/
lemma nmFinishRound_converged {world : NmWorld K T V W ρ} (h : world.plug.state = .converged)
    (fuel : ℕ) : (nmFinishRound lib fuel world).2.plug.record = world.plug.record ∧
      (nmFinishRound lib fuel world).2.cfg = world.cfg := by
  have hnext : ∃ m, nmNextVertex lib world.plug = some m ∧ m.state = .converged ∧
      m.record = world.plug.record := by
    unfold nmNextVertex
    simp only [h]
    exact ⟨_, rfl, rfl, rfl⟩
  rcases hnext with ⟨m, hnext, hstate, hrecord⟩
  unfold nmFinishRound
  rw [hnext]
  dsimp only
  cases m.nextVertex with
  | none => exact ⟨hrecord, rfl⟩
  | some next =>
    dsimp only
    split_ifs
    · rw [nmAlgorithm_converged lib hstate fuel]
      exact ⟨hrecord, rfl⟩
    · exact ⟨hrecord, rfl⟩

/-- The algorithm leaves the record alone, and changes the configuration only where `nmNotified`
says. -/
lemma nmAlgorithm_spec (fuel : ℕ) (world : NmWorld K T V W ρ) :
    (nmAlgorithm lib fuel world).2.plug.record = world.plug.record ∧
      (nmAlgorithm lib fuel world).2.cfg = cfgAfter world.cfg (nmNotified lib fuel world) ∧
      ∀ w ∈ nmNotified lib fuel world, w.plug.record = world.plug.record := by
  have hnone : ∀ w ∈ ([] : List (NmWorld K T V W ρ)), w.plug.record = world.plug.record :=
    fun w hw => absurd hw List.not_mem_nil
  induction fuel generalizing world with
  | zero => exact ⟨rfl, rfl, hnone⟩
  | succ fuel ih =>
    by_cases hconv : world.plug.state = .converged
    · rw [nmAlgorithm_converged lib hconv, nmNotified, if_pos hconv]
      exact ⟨rfl, rfl, hnone⟩
    · rw [nmNotified, if_neg hconv]
      cases htrans : nmStateTransition lib world.plug with
      | none =>
        rw [nmAlgorithm, if_neg hconv, htrans]
        exact ⟨rfl, rfl, hnone⟩
      | some m =>
        have hm := nmStateTransition_record lib htrans
        rw [nmAlgorithm_succ lib hconv htrans]
        dsimp only
        by_cases hcheck : m.state = .reflect ∧ lib.hasConverged m.cfg m.base m.centroid
        · rw [if_pos hcheck, if_pos hcheck.1]
          unfold checkConvergence
          simp only [hcheck.2, if_true]
          have hplug := sessionSetcfg_plug ({ world with plug := { m with state := .converged } } :
            NmWorld K T V W ρ) cfgkeyStrategyConverged (cstr "1")
          rcases nmFinishRound_converged lib (by rw [hplug]) fuel with ⟨hrecord, hcfg⟩
          refine ⟨hrecord.trans ?_, hcfg, fun w hw => ?_⟩
          · rw [hplug]
            exact hm
          · rw [List.mem_singleton.mp hw]
            exact hm
        · have hsame : (if m.state = .reflect then checkConvergence lib { world with plug := m }
              else { world with plug := m }) = { world with plug := m } := by
            split_ifs with hreflect
            · unfold checkConvergence
              exact if_neg fun h => hcheck ⟨hreflect, h⟩
            · rfl
          rw [if_neg hcheck, hsame]
          unfold nmFinishRound
          cases hnext : nmNextVertex lib m with
          | none => exact ⟨hm, rfl, hnone⟩
          | some m₁ =>
            have hm₁ := (nmNextVertex_record lib hnext).trans hm
            dsimp only
            cases m₁.nextVertex with
            | none => exact ⟨hm₁, rfl, hnone⟩
            | some next =>
              dsimp only
              split_ifs
              · rcases ih { world with plug := m₁ } (fun w hw => absurd hw List.not_mem_nil) with
                  ⟨hrecord, hcfg, hnotified⟩
                exact ⟨hrecord.trans hm₁, hcfg, fun w hw => (hnotified w hw).trans hm₁⟩
              · exact ⟨hm₁, rfl, hnone⟩

/-- The test of `strategy_analyze`. -/
def nmAccepts (m : Nm K T V W ρ) (trial : HTrial V W) : Bool :=
  match m.nextVertex with
  | none => false
  | some next => trial.point.id = next.id

/-- The worlds in which a call sets `CONVERGED`. -/
def nmNotifiedBy (fuel : ℕ) (world : NmWorld K T V W ρ) :
    SearchCall V W → List (NmWorld K T V W ρ)
  | .generate _ _ => []
  | .rejected flow _ =>
    if flow.point.id = -1 ∧ world.plug.cfg.rejectType = .penalty then
      nmNotified lib fuel { world with plug := world.plug.modifyNext Vertex.resetPerf }
    else []
  | .analyze trial =>
    if nmAccepts world.plug trial then
      nmNotified lib fuel
        { world with plug := world.plug.modifyNext fun v => { v with perf := trial.perf } }
    else []

omit [Neg K] [Add W] [Zero W] [LT W] [DecidableLT W] [Top W] in
lemma nmGenerate_frame (world : NmWorld K T V W ρ) (flow : Flow V) (point : HPoint V) :
    (nmGenerate lib world flow point).2.1.plug.record = world.plug.record ∧
      (nmGenerate lib world flow point).2.1.cfg = world.cfg := by
  unfold nmGenerate
  dsimp only
  cases world.plug.nextVertex with
  | none => exact ⟨rfl, rfl⟩
  | some next =>
    dsimp only
    split_ifs
    · exact ⟨rfl, rfl⟩
    · exact ⟨modifyNext_record _ _, rfl⟩

lemma nmRejected_frame (fuel : ℕ) (world : NmWorld K T V W ρ) (flow : Flow V) (point : HPoint V) :
    (nmRejected lib fuel world flow point).2.1.plug.record = world.plug.record ∧
      (nmRejected lib fuel world flow point).2.1.cfg
        = cfgAfter world.cfg (nmNotifiedBy lib fuel world (.rejected flow point)) := by
  unfold nmRejected nmNotifiedBy
  by_cases hid : flow.point.id = -1
  · rw [if_neg (not_not.mpr hid)]
    cases hmethod : world.plug.cfg.rejectType with
    | penalty =>
      have hspec := nmAlgorithm_spec lib fuel
        { world with plug := world.plug.modifyNext Vertex.resetPerf }
      rw [modifyNext_record] at hspec
      simp only [hid, true_and, if_true]
      split_ifs
      · exact ⟨hspec.1, hspec.2.1⟩
      · split
        · exact ⟨hspec.1, hspec.2.1⟩
        · exact ⟨(modifyNext_record _ _).trans hspec.1, hspec.2.1⟩
    | random =>
      simp only [hid, reduceCtorEq, and_false, if_false]
      split
      · exact ⟨rfl, rfl⟩
      · exact ⟨modifyNext_record _ _, rfl⟩
  · rw [if_pos hid]
    dsimp only
    rw [if_neg fun h => hid h.1]
    exact ⟨modifyNext_record _ _, rfl⟩

lemma nmAnalyze_spec (fuel : ℕ) (world : NmWorld K T V W ρ) (trial : HTrial V W) :
    ((nmAnalyze lib fuel world trial).1 = 0 → (nmAnalyze lib fuel world trial).2.plug.record =
      if nmAccepts world.plug trial ∧ hperfUnify trial.perf < world.plug.record.2 then
        (hpointCopy trial.point, hperfUnify trial.perf)
      else world.plug.record) ∧
    (nmAnalyze lib fuel world trial).2.cfg
      = cfgAfter world.cfg (nmNotifiedBy lib fuel world (.analyze trial)) := by
  unfold nmAnalyze nmNotifiedBy nmAccepts
  cases hnext : world.plug.nextVertex with
  | none =>
    simp only [hnext]
    exact ⟨fun hret => absurd hret (by decide), rfl⟩
  | some next =>
    simp only [hnext]
    by_cases hid : trial.point.id = next.id
    · have hspec := nmAlgorithm_spec lib fuel
        { world with plug := world.plug.modifyNext fun v => { v with perf := trial.perf } }
      rw [modifyNext_record] at hspec
      have hperf := congrArg Prod.snd hspec.1
      simp only [hid, ne_eq, not_true_eq_false, if_false, decide_true, true_and, if_true]
      generalize nmAlgorithm lib fuel { world with plug := world.plug.modifyNext fun v =>
        { v with perf := trial.perf } } = res at hspec hperf ⊢
      by_cases hret : res.1 = 0
      · have hbest : res.2.plug.bestPerf = world.plug.record.2 := hperf
        simp only [hret, not_true_eq_false, if_false, hbest]
        by_cases hlt : hperfUnify trial.perf < world.plug.record.2
        · simp only [if_pos hlt]
          refine ⟨fun _ => ?_, hspec.2.1⟩
          split_ifs <;> rfl
        · simp only [if_neg hlt]
          refine ⟨fun _ => ?_, hspec.2.1⟩
          split_ifs
          · exact hspec.1
          · exact hspec.1
      · rw [if_pos hret]
        exact ⟨fun h => absurd (show (-1 : ℤ) = 0 from h) (by decide), hspec.2.1⟩
    · simp only [hid, ne_eq, not_false_eq_true, if_true, decide_false, Bool.false_eq_true, false_and,
        if_false]
      exact ⟨fun _ => trivial, rfl⟩

lemma nmNotifiedBy_record (fuel : ℕ) (world : NmWorld K T V W ρ) (call : SearchCall V W) :
    ∀ w ∈ nmNotifiedBy lib fuel world call, w.plug.record = world.plug.record := by
  intro w hw
  have hspec : ∀ f, w ∈ nmNotified lib fuel { world with plug := world.plug.modifyNext f } →
      w.plug.record = world.plug.record := by
    intro f hw
    rw [(nmAlgorithm_spec lib fuel _).2.2 w hw, modifyNext_record]
  unfold nmNotifiedBy at hw
  cases call with
  | generate flow point => exact absurd hw List.not_mem_nil
  | rejected flow point =>
    dsimp only at hw
    split_ifs at hw
    · exact hspec _ hw
    · exact absurd hw List.not_mem_nil
  | analyze trial =>
    dsimp only at hw
    split_ifs at hw
    · exact hspec _ hw
    · exact absurd hw List.not_mem_nil

omit [Add W] [Zero W] [LT W] [DecidableLT W] in
lemma nmInit_record {world : NmWorld K T V W ρ} (hfresh : world.plug.base = []) :
    (nmInit lib world).2.plug.record = (hpointInitializer V, ⊤) := by
  unfold nmInit
  simp only [hfresh, if_true]
  cases lib.strategyCfg world.cfg with
  | none => rfl
  | some cfg =>
    dsimp only
    split_ifs
    · rw [sessionSetcfg_plug]
      rfl
    · rw [sessionSetcfg_plug]
      split
      · rw [sessionSetcfg_plug]
        rfl
      · next hnext => exact nmNextVertex_record lib hnext

end NelderMead

/-- `nm.c`. -/
def nmSearch {K T ρ : Type} [Neg K] [LinearOrder W] [OrderTop W] (lib : NmLib K T V W ρ) (fuel : ℕ) :
    Strategy (Nm K T V W ρ) V W where
  plugins := nelderMead lib fuel
  init := nmInit lib
  fresh := fun m => m.base = []
  record := Nm.record
  accepts := nmAccepts
  notified := nmNotifiedBy lib fuel
  init_eq := rfl
  init_record := fun _ => nmInit_record lib
  notified_cfg := fun world call =>
    match call with
    | .generate flow point => (nmGenerate_frame lib world flow point).2
    | .rejected flow point => (nmRejected_frame lib fuel world flow point).2
    | .analyze trial => (nmAnalyze_spec lib fuel world trial).2
  notified_record := nmNotifiedBy_record lib fuel
  generate_record := fun world flow point => (nmGenerate_frame lib world flow point).1
  rejected_record := fun world flow point => (nmRejected_frame lib fuel world flow point).1
  analyze_record := fun world trial => (nmAnalyze_spec lib fuel world trial).1
  best_eq := fun _ _ => rfl

/-! ## `pro.c` -/

section ParallelRankOrder

variable {K T ρ : Type} [Neg K] [LT W] [DecidableLT W] [Top W] (lib : ProLib K T V W ρ)
variable {m m' : Pro K T V W ρ}

/-- `best` and `best_perf`. -/
def Pro.bestRecord (m : Pro K T V W ρ) : HPoint V × W := (m.best, m.bestPerf)

omit [Neg K] [Top W] in
lemma proNextState_record (h : proNextState m = some m') : m'.bestRecord = m.bestRecord := by
  unfold proNextState at h
  split at h
  · cases h
    rfl
  · cases h
    rfl
  · simp only [Option.bind_eq_bind, Option.bind_eq_some_iff] at h
    rcases h with ⟨better, -, h⟩
    split_ifs at h <;> cases h <;> rfl
  · simp only [Option.bind_eq_bind, Option.bind_eq_some_iff] at h
    rcases h with ⟨better, -, h⟩
    split_ifs at h <;> cases h <;> rfl
  · simp only [Option.bind_eq_bind, Option.bind_eq_some_iff] at h
    rcases h with ⟨better, -, h⟩
    split_ifs at h <;> cases h <;> rfl
  · cases h

omit [Add W] [Zero W] [LT W] [DecidableLT W] in
lemma proNextSimplex_record (h : proNextSimplex lib m = some m') :
    m'.bestRecord = m.bestRecord := by
  have htransform : ∀ c, m.transformBase lib c = some m' → m'.bestRecord = m.bestRecord := by
    intro c hc
    unfold Pro.transformBase at hc
    simp only [Option.bind_eq_bind, Option.bind_eq_some_iff] at hc
    rcases hc with ⟨best, -, hc⟩
    cases hc
    rfl
  unfold proNextSimplex at h
  split at h
  · cases h
    rfl
  · exact htransform _ h
  · simp only [Option.bind_eq_bind, Option.bind_eq_some_iff] at h
    rcases h with ⟨src, -, best, -, h⟩
    cases h
    rfl
  · exact htransform _ h
  · exact htransform _ h
  · cases h
    rfl

/-- The worlds in which `pro_algorithm` sets `CONVERGED`. -/
def proNotified : ℕ → ProWorld K T V W ρ → List (ProWorld K T V W ρ)
  | 0, _ => []
  | fuel + 1, world =>
    if world.plug.state = .converged then []
    else
      match proNextState world.plug with
      | none => []
      | some m =>
        if m.state = .reflect ∧ lib.hasConverged m.cfg m.base then
          [{ world with plug := { m with state := .converged } }]
        else
          match proNextSimplex lib m with
          | none => []
          | some m =>
            if simplexOutofbounds lib m.test then proNotified fuel { world with plug := m } else []

lemma proAlgorithm_converged {world : ProWorld K T V W ρ} (h : world.plug.state = .converged)
    (fuel : ℕ) : (proAlgorithm lib fuel world).2 = world := by
  cases fuel with
  | zero => rfl
  | succ fuel =>
    unfold proAlgorithm
    rw [if_pos h]

/-- The algorithm leaves the record alone, and changes the configuration only where `proNotified`
says. -/
lemma proAlgorithm_spec (fuel : ℕ) (world : ProWorld K T V W ρ) :
    (proAlgorithm lib fuel world).2.plug.bestRecord = world.plug.bestRecord ∧
      (proAlgorithm lib fuel world).2.cfg = cfgAfter world.cfg (proNotified lib fuel world) ∧
      ∀ w ∈ proNotified lib fuel world, w.plug.bestRecord = world.plug.bestRecord := by
  have hnone : ∀ w ∈ ([] : List (ProWorld K T V W ρ)), w.plug.bestRecord = world.plug.bestRecord :=
    fun w hw => absurd hw List.not_mem_nil
  induction fuel generalizing world with
  | zero => exact ⟨rfl, rfl, hnone⟩
  | succ fuel ih =>
    by_cases hconv : world.plug.state = .converged
    · rw [proAlgorithm_converged lib hconv, proNotified, if_pos hconv]
      exact ⟨rfl, rfl, hnone⟩
    · rw [proNotified, proAlgorithm, if_neg hconv, if_neg hconv]
      cases htrans : proNextState world.plug with
      | none => exact ⟨rfl, rfl, hnone⟩
      | some m =>
        have hm := proNextState_record htrans
        dsimp only
        by_cases hcheck : m.state = .reflect ∧ lib.hasConverged m.cfg m.base
        · rw [if_pos hcheck, if_pos hcheck.1]
          unfold proCheckConvergence
          simp only [hcheck.2, if_true]
          have hplug := sessionSetcfg_plug ({ world with plug := { m with state := .converged } } :
            ProWorld K T V W ρ) cfgkeyStrategyConverged (cstr "1")
          have hnext : proNextSimplex lib { m with state := .converged }
              = some { m with state := .converged } := rfl
          rw [hplug]
          simp only [hnext]
          refine ⟨?_, ?_, fun w hw => ?_⟩
          · split_ifs
            · rw [proAlgorithm_converged lib rfl]
              exact hm
            · exact hm
          · split_ifs
            · rw [proAlgorithm_converged lib rfl]
              rfl
            · rfl
          · rw [List.mem_singleton.mp hw]
            exact hm
        · have hsame : (if m.state = .reflect then proCheckConvergence lib { world with plug := m }
              else { world with plug := m }) = { world with plug := m } := by
            split_ifs with hreflect
            · unfold proCheckConvergence
              exact if_neg fun h => hcheck ⟨hreflect, h⟩
            · rfl
          rw [if_neg hcheck, hsame]
          dsimp only
          cases hnext : proNextSimplex lib m with
          | none => exact ⟨hm, rfl, hnone⟩
          | some m₁ =>
            have hm₁ := (proNextSimplex_record lib hnext).trans hm
            dsimp only
            split_ifs
            · rcases ih { world with plug := m₁ } (fun w hw => absurd hw List.not_mem_nil) with
                ⟨hrecord, hcfg, hnotified⟩
              exact ⟨hrecord.trans hm₁, hcfg, fun w hw => (hnotified w hw).trans hm₁⟩
            · exact ⟨hm₁, rfl, hnone⟩

/-- The worlds in which a round sets `CONVERGED`, once all vertices have been reported. -/
def proRoundNotified (fuel : ℕ) (world : ProWorld K T V W ρ) : List (ProWorld K T V W ρ) :=
  if world.plug.reported = world.plug.simplexSize then proNotified lib fuel world else []

lemma proRound_spec (fuel : ℕ) (world : ProWorld K T V W ρ) :
    (proRound lib fuel world).2.plug.bestRecord = world.plug.bestRecord ∧
      (proRound lib fuel world).2.cfg = cfgAfter world.cfg (proRoundNotified lib fuel world) ∧
      ∀ w ∈ proRoundNotified lib fuel world, w.plug.bestRecord = world.plug.bestRecord := by
  have hspec := proAlgorithm_spec lib fuel world
  unfold proRound proRoundNotified
  by_cases hfull : world.plug.reported = world.plug.simplexSize
  · rw [if_pos hfull, if_pos hfull]
    dsimp only
    split_ifs
    · exact hspec
    · exact hspec
  · rw [if_neg hfull, if_neg hfull]
    exact ⟨rfl, rfl, fun w hw => absurd hw List.not_mem_nil⟩

/-- The worlds in which a call sets `CONVERGED`. -/
def proNotifiedBy (fuel : ℕ) (world : ProWorld K T V W ρ) :
    SearchCall V W → List (ProWorld K T V W ρ)
  | .generate _ _ => []
  | .rejected flow point =>
    match world.plug.find point.id with
    | none => []
    | some i =>
      if flow.point.id = -1 ∧ world.plug.cfg.rejectType = .penalty then
        proRoundNotified lib fuel { world with plug :=
          { world.plug with test := world.plug.test.modify i Vertex.resetPerf
                            reported := world.plug.reported + 1 } }
      else []
  | .analyze trial =>
    match world.plug.find trial.point.id with
    | none => []
    | some i => proRoundNotified lib fuel { world with plug := world.plug.record i trial.perf }

omit [Neg K] [Top W] in
lemma record_bestRecord (m : Pro K T V W ρ) (i : ℕ) (perf : HPerf W) :
    (m.record i perf).bestRecord = m.bestRecord := by
  unfold Pro.record
  dsimp only
  split
  · split_ifs <;> rfl
  · rfl

omit [Neg K] [Add W] [Zero W] [LT W] [DecidableLT W] [Top W] in
lemma send_bestRecord {point : HPoint V} (h : m.send lib = some (point, m')) :
    m'.bestRecord = m.bestRecord := by
  unfold Pro.send at h
  simp only [Option.bind_eq_bind, Option.bind_eq_some_iff] at h
  rcases h with ⟨v, -, h⟩
  cases h
  rfl

omit [Neg K] [Add W] [Zero W] [LT W] [DecidableLT W] [Top W] in
lemma proGenerate_frame (world : ProWorld K T V W ρ) (flow : Flow V) (point : HPoint V) :
    (proGenerate lib world flow point).2.1.plug.bestRecord = world.plug.bestRecord ∧
      (proGenerate lib world flow point).2.1.cfg = world.cfg := by
  unfold proGenerate
  dsimp only
  split_ifs
  · exact ⟨rfl, rfl⟩
  · split
    · exact ⟨rfl, rfl⟩
    · next hsend => exact ⟨send_bestRecord lib hsend, rfl⟩

lemma proRejected_frame (fuel : ℕ) (world : ProWorld K T V W ρ) (flow : Flow V)
    (point : HPoint V) :
    (proRejected lib fuel world flow point).2.1.plug.bestRecord = world.plug.bestRecord ∧
      (proRejected lib fuel world flow point).2.1.cfg
        = cfgAfter world.cfg (proNotifiedBy lib fuel world (.rejected flow point)) := by
  unfold proRejected proNotifiedBy
  dsimp only
  cases world.plug.find point.id with
  | none => exact ⟨rfl, rfl⟩
  | some i =>
    dsimp only
    by_cases hid : flow.point.id = -1
    · rw [if_neg (not_not.mpr hid)]
      cases hmethod : world.plug.cfg.rejectType with
      | penalty =>
        have hspec := proRound_spec lib fuel { world with plug :=
          { world.plug with test := world.plug.test.modify i Vertex.resetPerf
                            reported := world.plug.reported + 1 } }
        simp only [hid, true_and, if_true]
        split_ifs
        · exact ⟨hspec.1, hspec.2.1⟩
        · exact ⟨hspec.1, hspec.2.1⟩
        · split
          · exact ⟨hspec.1, hspec.2.1⟩
          · next hsend => exact ⟨(send_bestRecord lib hsend).trans hspec.1, hspec.2.1⟩
      | random =>
        simp only [hid, reduceCtorEq, and_false, if_false]
        split
        · exact ⟨rfl, rfl⟩
        · exact ⟨rfl, rfl⟩
    · rw [if_pos hid, if_neg fun h => hid h.1]
      exact ⟨rfl, rfl⟩

lemma proAnalyze_spec (fuel : ℕ) (world : ProWorld K T V W ρ) (trial : HTrial V W) :
    ((proAnalyze lib fuel world trial).1 = 0 →
      (proAnalyze lib fuel world trial).2.plug.bestRecord =
        if (world.plug.find trial.point.id).isSome ∧
            hperfUnify trial.perf < world.plug.bestRecord.2 then
          (hpointCopy trial.point, hperfUnify trial.perf)
        else world.plug.bestRecord) ∧
    (proAnalyze lib fuel world trial).2.cfg
      = cfgAfter world.cfg (proNotifiedBy lib fuel world (.analyze trial)) := by
  unfold proAnalyze proNotifiedBy
  cases hfind : world.plug.find trial.point.id with
  | none =>
    simp only [hfind, Option.isSome_none, Bool.false_eq_true, false_and, if_false]
    exact ⟨fun _ => trivial, rfl⟩
  | some i =>
    have hspec := proRound_spec lib fuel { world with plug := world.plug.record i trial.perf }
    rw [record_bestRecord] at hspec
    have hperf := congrArg Prod.snd hspec.1
    simp only [hfind, Option.isSome_some, true_and]
    generalize proRound lib fuel { world with plug := world.plug.record i trial.perf } = res
      at hspec hperf ⊢
    by_cases hret : res.1 = 0
    · have hbest : res.2.plug.bestPerf = world.plug.bestRecord.2 := hperf
      simp only [hret, ne_eq, not_true_eq_false, if_false, hbest]
      by_cases hlt : hperfUnify trial.perf < world.plug.bestRecord.2
      · simp only [if_pos hlt]
        exact ⟨fun _ => rfl, hspec.2.1⟩
      · simp only [if_neg hlt]
        exact ⟨fun _ => hspec.1, hspec.2.1⟩
    · rw [if_pos hret]
      exact ⟨fun h => absurd (show (-1 : ℤ) = 0 from h) (by decide), hspec.2.1⟩

lemma proNotifiedBy_record (fuel : ℕ) (world : ProWorld K T V W ρ) (call : SearchCall V W) :
    ∀ w ∈ proNotifiedBy lib fuel world call, w.plug.bestRecord = world.plug.bestRecord := by
  intro w hw
  unfold proNotifiedBy at hw
  cases call with
  | generate flow point => exact absurd hw List.not_mem_nil
  | rejected flow point =>
    dsimp only at hw
    split at hw
    · exact absurd hw List.not_mem_nil
    · split_ifs at hw
      · exact ((proRound_spec lib fuel _).2.2 w hw).trans rfl
      · exact absurd hw List.not_mem_nil
  | analyze trial =>
    dsimp only at hw
    split at hw
    · exact absurd hw List.not_mem_nil
    · rw [(proRound_spec lib fuel _).2.2 w hw, record_bestRecord]

omit [Add W] [Zero W] [LT W] [DecidableLT W] in
lemma proInit_record {world : ProWorld K T V W ρ} (hfresh : world.plug.base = []) :
    (proInit lib world).2.plug.bestRecord = (hpointInitializer V, ⊤) := by
  unfold proInit
  simp only [hfresh, if_true]
  cases lib.strategyCfg world.cfg with
  | none => rfl
  | some cfg =>
    dsimp only
    split_ifs
    · rw [sessionSetcfg_plug]
      rfl
    · rw [sessionSetcfg_plug]
      split
      · rw [sessionSetcfg_plug]
        rfl
      · next hnext => exact proNextSimplex_record lib hnext

end ParallelRankOrder

/-- `pro.c`. -/
def proSearch {K T ρ : Type} [Neg K] [LinearOrder W] [OrderTop W] (lib : ProLib K T V W ρ)
    (fuel : ℕ) : Strategy (Pro K T V W ρ) V W where
  plugins := parallelRankOrder lib fuel
  init := proInit lib
  fresh := fun m => m.base = []
  record := Pro.bestRecord
  accepts := fun m trial => (m.find trial.point.id).isSome
  notified := proNotifiedBy lib fuel
  init_eq := rfl
  init_record := fun _ => proInit_record lib
  notified_cfg := fun world call =>
    match call with
    | .generate flow point => (proGenerate_frame lib world flow point).2
    | .rejected flow point => (proRejected_frame lib fuel world flow point).2
    | .analyze trial => (proAnalyze_spec lib fuel world trial).2
  notified_record := proNotifiedBy_record lib fuel
  generate_record := fun world flow point => (proGenerate_frame lib world flow point).1
  rejected_record := fun world flow point => (proRejected_frame lib fuel world flow point).1
  analyze_record := fun world trial => (proAnalyze_spec lib fuel world trial).1
  best_eq := fun _ _ => rfl

/-! ## Both strategies -/

/-- At every moment of a run in which `CONVERGED` is set to 1, the best point is known, provided some
trial before had a finite performance and the trial at hand, if any, is not better than all of them. -/
def Strategy.NotifiesBest [LinearOrder W] [OrderTop W] (S : Strategy σ V W) : Prop :=
  ∀ world trials call w, S.Reaches world trials → w ∈ S.notified world call →
    (∃ trial ∈ trials, hperfUnify trial.perf < ⊤) →
    (∀ trial ∈ S.matching world call,
      ∃ other ∈ trials, hperfUnify other.perf ≤ hperfUnify trial.perf) →
    S.KnowsBest w (trials ++ S.matching world call)

theorem converged_knows_best {K T ρ : Type} [Neg K] [LinearOrder W] [OrderTop W]
    (nm : NmLib K T V W ρ) (pro : ProLib K T V W ρ) (fuel : ℕ) :
    (nmSearch nm fuel).NotifiesBest ∧ (proSearch pro fuel).NotifiesBest :=
  ⟨fun _ _ _ _ h hw hfinite hold => h.knows_best hw hfinite hold,
    fun _ _ _ _ h hw hfinite hold => h.knows_best hw hfinite hold⟩

/-- As `unitInterval`, with an `INIT_PERCENT` of 0.002. -/
def smallSimplex : NmLib ℚ ℚ ℚ (WithTop ℚ) Unit :=
  { unitInterval with initial := fun _ _ _ => ([501 / 1000, 499 / 1000], ()) }

/-- The second trial makes the search converge and is the better one, but `strategy_best` still
returns the first. -/
theorem second_trial_unknown :
    ¬ ∀ (nm : NmLib ℚ ℚ ℚ (WithTop ℚ) Unit) (fuel : ℕ) (world : NmWorld ℚ ℚ ℚ (WithTop ℚ) Unit)
      (trials : List (HTrial ℚ (WithTop ℚ))) (call : SearchCall ℚ (WithTop ℚ))
      (w : NmWorld ℚ ℚ ℚ (WithTop ℚ) Unit), (nmSearch nm fuel).Reaches world trials →
      w ∈ (nmSearch nm fuel).notified world call →
      (nmSearch nm fuel).KnowsBest w (trials ++ (nmSearch nm fuel).matching world call) := by
  intro hall
  let S := nmSearch smallSimplex 5
  let flow : Flow ℚ := { status := .accept, point := hpointInitializer ℚ }
  let first : HTrial ℚ (WithTop ℚ) :=
    { point := { id := 1, val := [.real (501 / 1000)] }, perf := { p := [((201 / 200 : ℚ) : WithTop ℚ)] } }
  let second : HTrial ℚ (WithTop ℚ) :=
    { point := { id := 2, val := [.real (499 / 1000)] }, perf := { p := [((1 : ℚ) : WithTop ℚ)] } }
  let loaded : NmWorld ℚ ℚ ℚ (WithTop ℚ) Unit := { plug := Nm.loaded, cfg := hcfgAlloc, errmsg := none }
  let sent := (S.plugins.call (S.init loaded).2 (.generate flow (hpointInitializer ℚ))).2
  let analyzed := (S.plugins.call sent (.analyze first)).2
  let world := (S.plugins.call analyzed (.generate flow (hpointInitializer ℚ))).2
  have hreach : S.Reaches world [first] := by
    have hinit : S.Reaches (S.init loaded).2 [] := Strategy.Reaches.init rfl (by decide +kernel)
    have hsent := hinit.generate flow (hpointInitializer ℚ)
    have hanalyzed := hsent.analyze first (by decide +kernel)
    rw [S.matching_analyze, if_pos (by decide +kernel)] at hanalyzed
    exact hanalyzed.generate flow (hpointInitializer ℚ)
  have hmatching : S.matching world (.analyze second) = [second] := if_pos (by decide +kernel)
  have hbest : (S.notified world (.analyze second)).map (fun w => w.plug.best) = [first.point] := by
    decide +kernel
  rcases List.map_eq_singleton_iff.mp hbest with ⟨w, hw, hpoint⟩
  rcases hall smallSimplex 5 world [first] (.analyze second) w hreach
    (show w ∈ S.notified world (.analyze second) by rw [hw]; exact List.mem_singleton_self w)
    with ⟨trial, htrial, heq, hmin⟩
  have hcopy : hpointCopy first.point = hpointCopy trial.point := by
    rw [← heq (hpointInitializer ℚ), ← hpoint]
    rfl
  have hsecond : second ∈ [first] ++ S.matching world (.analyze second) := by
    rw [hmatching]
    exact List.mem_append_right _ (List.mem_singleton_self second)
  have hle := hmin second hsecond
  rw [show (nmSearch smallSimplex 5).matching world (.analyze second) = [second] from hmatching]
    at htrial
  rcases List.mem_cons.mp htrial with rfl | htrial
  · exact absurd hle (by decide +kernel)
  · rw [List.mem_singleton.mp htrial] at hcopy
    exact absurd hcopy (by decide +kernel)

end ActiveHarmony

import ActiveHarmony.Layer.Cache
import ActiveHarmony.Session.Workflow
import ActiveHarmony.Strategy.Random

/-!
# The loop that fills the queue

At the end of each round of its main loop the session calls `generate_trial` as long as there is room
and the strategy does not wait. A call that fails, or whose point the cache answers at once, leaves
the loop where it was: `refill_ends_iff` says that the loop ends unless from some call on all of them
do, for any strategy, with or without the cache layer.
-/

namespace ActiveHarmony

variable {τ V W : Type} [LT V] [DecidableLT V] [Top W] (P : Plugins (τ × Cache V W) V W)
  (s : Sess (τ × Cache V W) V W)

/-- The layer stack is empty, or holds the cache. -/
def AtMostCache : Prop := P.lstack = [] ∨ ∃ load, P.lstack = [cacheLayer load]

omit [LT V] [DecidableLT V] [Top W] in
/-- The condition of the loop. -/
def Sess.Refills : Prop := s.pollstate = true ∧ s.pendingLen < s.pending.length

instance : Decidable s.Refills := inferInstanceAs (Decidable (_ ∧ _))

omit [LT V] [DecidableLT V] in
/-- The loop, for fewer than `rounds` calls. Three rounds of `plugin_workflow` are enough. -/
def refill : ℕ → Sess (τ × Cache V W) V W → Option (Sess (τ × Cache V W) V W)
  | 0, _ => none
  | rounds + 1, s =>
    if s.Refills then (generateTrial P 3 s).bind fun res => refill rounds res.2 else some s

omit [LT V] [DecidableLT V] in
/-- The loop ends. -/
def RefillEnds : Prop := ∃ rounds s', refill P rounds s = some s'

omit [LT V] [DecidableLT V] in
/-- The session after one call, or as it is when the loop has ended. -/
def refillStep : Sess (τ × Cache V W) V W :=
  if s.Refills then ((generateTrial P 3 s).map Prod.snd).getD s else s

omit [Top W] in
/-- A trial on its way through the cache and back: what `strategy_analyze` gets. -/
def bounced (world : World (τ × Cache V W)) (flow : Flow V) (trial : HTrial V W) :
    World (τ × Cache V W) × HTrial V W :=
  let (_, world, flow, perf) := cacheGenerate world { flow with status := .accept } trial
  let trial := { trial with perf := perf }
  let (_, world, _, perf) := cacheAnalyze world { flow with status := .accept } trial
  (world, { trial with perf := perf })

/-- The cache returns the trial at once, and the strategy accepts it. -/
def Bounces (world : World (τ × Cache V W)) (flow : Flow V) (trial : HTrial V W) : Prop :=
  P.lstack ≠ [] ∧ world.converged = false ∧ Cached world.plug.2 trial.point ∧
    (P.strategyAnalyze (bounced world flow trial).1 (bounced world flow trial).2).1 = 0

/-- The slot of the next trial. -/
def Sess.freeSlot : ℕ := s.pending.findIdx fun trial => trial.point.id = -1

/-- The loop goes on with a call that leaves it where it is: there is no free slot, the strategy
fails, or its point bounces. -/
def Fruitless : Prop :=
  s.Refills ∧ ∀ trial, s.pending[s.freeSlot]? = some trial →
    ∀ ret world flow point, P.strategyGenerate s.world s.flow trial.point = (ret, world, flow, point) →
      ret ≠ 0 ∨ flow.status ≠ .wait ∧
        Bounces P world flow { point := point, perf := hperfReset trial.perf }

variable {P s} {s' : Sess (τ × Cache V W) V W} {trial : HTrial V W} {i : ℕ}
  {load : Bytes → Option (List (CacheEntry V W))}

/-! ## One call -/

omit [Top W] in
lemma callLayer_generate (hstack : P.lstack = [cacheLayer load]) (hlayer : s.currLayer = 1)
    (htrial : s.pending[i]? = some trial) {r : ℤ} {world : World (τ × Cache V W)} {flow : Flow V}
    {perf : HPerf W}
    (hans : cacheGenerate s.world { s.flow with status := .accept } trial = (r, world, flow, perf)) :
    callLayer P s i = some (r, ({ s with
      world := world
      flow := flow
      pending := s.pending.set i { trial with perf := perf } }).log (.layer 1 i r flow.status)) := by
  unfold callLayer
  have hlayer' : P.lstack[s.currLayer.natAbs - 1]? = some (cacheLayer load) := by
    rw [hlayer, hstack]
    rfl
  have hpos : ¬ s.currLayer < (0 : ℤ) := by omega
  simp only [hlayer', htrial, hpos, if_false, cacheLayer, hans]
  rw [hlayer]

omit [Top W] in
lemma callLayer_analyze (hstack : P.lstack = [cacheLayer load]) (hlayer : s.currLayer = -1)
    (htrial : s.pending[i]? = some trial) {r : ℤ} {world : World (τ × Cache V W)} {flow : Flow V}
    {perf : HPerf W}
    (hans : cacheAnalyze s.world { s.flow with status := .accept } trial = (r, world, flow, perf)) :
    callLayer P s i = some (r, ({ s with
      world := world
      flow := flow
      pending := s.pending.set i { trial with perf := perf } }).log (.layer (-1) i r flow.status)) := by
  unfold callLayer
  have hlayer' : P.lstack[s.currLayer.natAbs - 1]? = some (cacheLayer load) := by
    rw [hlayer, hstack]
    rfl
  have hneg : s.currLayer < (0 : ℤ) := by omega
  simp only [hlayer', htrial, hneg, if_true, cacheLayer, hans]
  rw [hlayer]

omit [LT V] [DecidableLT V] [Top W] in
/-- The trial comes back to the strategy. -/
lemma pluginWorkflow_bottom {fuel : ℕ} {result : Option (ℤ × Sess (τ × Cache V W) V W)}
    (hresult : result = pluginWorkflow P (fuel + 1) s i) (hlayer : s.currLayer = 0)
    (htrial : s.pending[i]? = some trial) {r : ℤ} {world : World (τ × Cache V W)}
    (hans : P.strategyAnalyze s.world trial = (r, world)) :
    ∃ ret s', result = some (ret, s') ∧
      s'.pending.length = s.pending.length ∧ (r ≠ 0 → s'.pendingLen = s.pendingLen) ∧
      (r = 0 → s'.pendingLen = s.pendingLen - 1 ∧ s'.pollstate = true ∧ s'.world = world ∧
        ∃ free, s'.pending[i]? = some free ∧ free.point.id = -1) := by
  have hi := (List.getElem?_eq_some_iff.mp htrial).1
  rw [hresult, pluginWorkflow, if_neg fun hand => hand.1 hlayer]
  unfold finishWorkflow
  rw [if_pos hlayer, htrial]
  simp only [hans]
  by_cases hr : r = 0
  · rw [if_neg (not_not.mpr hr)]
    exact ⟨_, _, rfl, List.length_set, fun hne => absurd hr hne, fun _ =>
      ⟨rfl, rfl, rfl, _, List.getElem?_set_self hi, rfl⟩⟩
  · rw [if_pos hr]
    exact ⟨_, _, rfl, rfl, fun _ => rfl, fun hzero => absurd hzero hr⟩

omit [Top W] in
/-- A point in the cache comes back to the strategy in the same call. -/
lemma pluginWorkflow_bounced (hstack : P.lstack = [cacheLayer load]) (hlayer : s.currLayer = 1)
    (htrial : s.pending[i]? = some trial) (hopen : s.world.converged = false)
    (hcached : Cached s.world.plug.2 trial.point) {r : ℤ} {world : World (τ × Cache V W)}
    (hans : P.strategyAnalyze (bounced s.world s.flow trial).1 (bounced s.world s.flow trial).2
      = (r, world)) :
    ∃ ret s', pluginWorkflow P 3 s i = some (ret, s') ∧ s'.pending.length = s.pending.length ∧
      (r ≠ 0 → s'.pendingLen = s.pendingLen) ∧
      (r = 0 → s'.pendingLen = s.pendingLen - 1 ∧ s'.pollstate = true ∧ s'.world = world ∧
        ∃ free, s'.pending[i]? = some free ∧ free.point.id = -1) := by
  have hlen : P.lstack.length = 1 := by rw [hstack]; rfl
  have hi := (List.getElem?_eq_some_iff.mp htrial).1
  obtain ⟨world₁, flow₁, perf₁, hgen, hret⟩ : ∃ world₁ flow₁ perf₁,
      cacheGenerate s.world { s.flow with status := .accept } trial = (0, world₁, flow₁, perf₁) ∧
        flow₁.status = .ret := by
    rcases cacheGenerate_cached hopen hcached with ⟨visited, perf, hgen⟩
    exact ⟨_, _, _, hgen, rfl⟩
  have hcall := callLayer_generate hstack hlayer htrial hgen
  have hturn := pluginWorkflow_round 2 (by omega) (by omega) hcall (workflowTransition_ret hret)
  -- the same layer analyzes the trial
  obtain ⟨world₂, flow₂, perf₂, hana, haccept⟩ : ∃ world₂ flow₂ perf₂,
      cacheAnalyze world₁ { flow₁ with status := .accept } { trial with perf := perf₁ }
        = (0, world₂, flow₂, perf₂) ∧ flow₂.status = .accept := ⟨_, _, _, rfl, rfl⟩
  have hbounced : bounced s.world s.flow trial = (world₂, { trial with perf := perf₂ }) := by
    unfold bounced
    simp only [hgen, hana]
  have hi₁ : i < (s.pending.set i { trial with perf := perf₁ }).length := by rwa [List.length_set]
  have hslot₁ : (s.pending.set i { trial with perf := perf₁ })[i]?
      = some { trial with perf := perf₁ } := List.getElem?_set_self hi
  have hcall' := callLayer_analyze (i := i) (P := P) (s := { ({ s with
      world := world₁
      flow := flow₁
      pending := s.pending.set i { trial with perf := perf₁ } } : Sess (τ × Cache V W) V W).log
        (.layer 1 i 0 flow₁.status) with currLayer := -s.currLayer }) hstack (by
      show -s.currLayer = -1
      omega) hslot₁ hana
  have hdown := pluginWorkflow_round 1 (by show -s.currLayer ≠ 0; omega)
    (by show -s.currLayer ≤ _; omega) hcall' (workflowTransition_accept haccept)
  rw [hbounced] at hans
  have hslot₂ : ((s.pending.set i { trial with perf := perf₁ }).set i
      { trial with perf := perf₂ })[i]? = some { trial with perf := perf₂ } :=
    List.getElem?_set_self hi₁
  rcases pluginWorkflow_bottom (hturn.trans hdown) (by show -s.currLayer + 1 = 0; omega) hslot₂ hans
    with ⟨ret, s', hend, hlength, hfail, hdone⟩
  refine ⟨ret, s', hend, ?_, hfail, hdone⟩
  rw [hlength]
  show ((s.pending.set i _).set i _).length = _
  rw [List.length_set, List.length_set]

omit [Top W] in
/-- `plugin_workflow` returns for a new trial. The trial keeps its slot unless it bounces. -/
lemma pluginWorkflow_returns (hcache : AtMostCache P) (hlayer : s.currLayer = 1)
    (htrial : s.pending[i]? = some trial) (htail : s.readyTail < s.ready.length) :
    ∃ ret s', pluginWorkflow P 3 s i = some (ret, s') ∧ s'.pending.length = s.pending.length ∧
      (¬ Bounces P s.world s.flow trial → s'.pendingLen = s.pendingLen) ∧
      (Bounces P s.world s.flow trial → s'.pendingLen = s.pendingLen - 1 ∧ s'.pollstate = true ∧
        s'.world = (P.strategyAnalyze (bounced s.world s.flow trial).1
          (bounced s.world s.flow trial).2).2 ∧
        ∃ free, s'.pending[i]? = some free ∧ free.point.id = -1) := by
  rcases hcache with hstack | ⟨load, hstack⟩
  · rcases pluginWorkflow_top (show pluginWorkflow P 3 s i = pluginWorkflow P (2 + 1) s i from rfl)
      (by rw [hlayer, hstack]; rfl) htail with
      ⟨ret, s', hend, hpending, hlen⟩
    exact ⟨ret, s', hend, by rw [hpending], fun _ => hlen, fun hbounce => absurd hstack hbounce.1⟩
  · have hcount : P.lstack.length = 1 := by rw [hstack]; rfl
    cases hconv : s.world.converged with
    | true =>
      have hcall := callLayer_generate hstack hlayer htrial (cacheGenerate_converged hconv)
      have hend := pluginWorkflow_failed 2 (by omega) (by omega) hcall (by decide)
      refine ⟨_, _, hend, List.length_set, fun _ => rfl, fun hbounce => ?_⟩
      have hopen := hbounce.2.1
      rw [hconv] at hopen
      cases hopen
    | false =>
      by_cases hcached : Cached s.world.plug.2 trial.point
      · rcases hans : P.strategyAnalyze (bounced s.world s.flow trial).1
          (bounced s.world s.flow trial).2 with ⟨r, world⟩
        rcases pluginWorkflow_bounced hstack hlayer htrial hconv hcached hans with
          ⟨ret, s', hend, hlength, hfail, hdone⟩
        refine ⟨ret, s', hend, hlength, fun hnot => hfail fun hr => hnot ?_, fun hbounce => ?_⟩
        · exact ⟨by rw [hstack]; exact nofun, hconv, hcached, by rw [hans]; exact hr⟩
        · have hr := hbounce.2.2.2
          rw [hans] at hr
          exact hdone hr
      · have hcall := callLayer_generate hstack hlayer htrial (cacheGenerate_new hconv hcached rfl)
        have hup := pluginWorkflow_round 2 (by omega) (by omega) hcall (workflowTransition_accept rfl)
        rcases pluginWorkflow_top hup (by show s.currLayer + 1 = _; omega) htail with
          ⟨ret, s', hend, hpending, hlen⟩
        refine ⟨ret, s', hend, ?_, fun _ => hlen, fun hbounce => absurd hbounce.2.2.1 hcached⟩
        rw [hpending]
        exact List.length_set

/-- A point that the strategy generated takes a slot, unless it bounces. -/
lemma generateTrial_goes (hcache : AtMostCache P) (htail : s.readyTail < s.ready.length)
    (htrial : s.pending[s.freeSlot]? = some trial) {world : World (τ × Cache V W)} {flow : Flow V}
    {point : HPoint V}
    (hgen : P.strategyGenerate s.world s.flow trial.point = (0, world, flow, point))
    (hwait : flow.status ≠ .wait) {fresh : HTrial V W}
    (hfresh : fresh = { point := point, perf := hperfReset trial.perf }) :
    ∃ ret s', generateTrial P 3 s = some (ret, s') ∧ s'.pending.length = s.pending.length ∧
      (¬ Bounces P world flow fresh → s'.pendingLen = s.pendingLen + 1) ∧
      (Bounces P world flow fresh → s'.pendingLen = s.pendingLen ∧ s'.pollstate = true ∧
        s'.world = (P.strategyAnalyze (bounced world flow fresh).1 (bounced world flow fresh).2).2 ∧
        ∃ free, s'.pending[s.freeSlot]? = some free ∧ free.point.id = -1) := by
  have hi := (List.getElem?_eq_some_iff.mp htrial).1
  rcases generateTrial_started rfl htrial hgen with
    ⟨t, hstarted, hworld, hflow, hlen, -, hready, htail', hpending⟩
  have hstart := hstarted 3
  rw [if_neg (not_not.mpr rfl), if_neg hwait] at hstart
  have hslot : t.pending[s.freeSlot]? = some fresh := by
    rw [hpending, hfresh]
    exact List.getElem?_set_self hi
  rcases pluginWorkflow_returns (s := { t with pendingLen := t.pendingLen + 1, currLayer := 1 })
    hcache rfl hslot (by show t.readyTail < t.ready.length; rw [hready, htail']; exact htail) with
    ⟨ret, s', hend, hlength, hstay, hbounced⟩
  refine ⟨ret, s', hstart.trans hend, hlength.trans ?_, fun hnot => ?_, fun hbounce => ?_⟩
  · show t.pending.length = _
    rw [hpending, List.length_set]
  · rw [← hworld, ← hflow] at hnot
    refine (hstay hnot).trans ?_
    show t.pendingLen + 1 = s.pendingLen + 1
    omega
  · rw [← hworld, ← hflow] at hbounce ⊢
    rcases hbounced hbounce with ⟨hless, hpoll, hafter, hfree⟩
    refine ⟨hless.trans ?_, hpoll, hafter, hfree⟩
    show t.pendingLen + 1 - 1 = s.pendingLen
    omega

/-- `generate_trial` returns. It takes a slot or ends the loop, unless it is fruitless. -/
theorem generateTrial_outcome (hcache : AtMostCache P) (hrefills : s.Refills)
    (htail : s.readyTail < s.ready.length) :
    ∃ ret s', generateTrial P 3 s = some (ret, s') ∧ s'.pending.length = s.pending.length ∧
      (Fruitless P s → s'.pendingLen = s.pendingLen ∧ s'.pollstate = true) ∧
      (¬ Fruitless P s → s'.pollstate = false ∨ s'.pendingLen = s.pendingLen + 1) := by
  cases htrial : s.pending[s.freeSlot]? with
  | none =>
    have hraise : generateTrial P 3 s = some (-1, s.raise .pointOverflow) := by
      unfold generateTrial
      unfold Sess.freeSlot at htrial
      simp only [htrial]
    refine ⟨_, _, hraise, rfl, fun _ => ⟨rfl, hrefills.1⟩, fun hnot => absurd ⟨hrefills, ?_⟩ hnot⟩
    intro trial hsome
    rw [htrial] at hsome
    cases hsome
  | some trial =>
    have hi := (List.getElem?_eq_some_iff.mp htrial).1
    rcases hgen : P.strategyGenerate s.world s.flow trial.point with ⟨r, world, flow, point⟩
    have hiff : Fruitless P s ↔ r ≠ 0 ∨ flow.status ≠ .wait ∧
        Bounces P world flow { point := point, perf := hperfReset trial.perf } := by
      refine ⟨fun h => h.2 trial htrial r world flow point hgen, fun h => ⟨hrefills, ?_⟩⟩
      intro trial' htrial' r' world' flow' point' hgen'
      rw [htrial] at htrial'
      cases htrial'
      rw [hgen] at hgen'
      cases hgen'
      exact h
    rcases generateTrial_started rfl htrial hgen with ⟨t, hstarted, -, -, hlen, hpoll, -, -, hpending⟩
    have hstart := hstarted 3
    have hlength : t.pending.length = s.pending.length := by rw [hpending, List.length_set]
    by_cases hr : r ≠ 0
    · rw [hstart, if_pos hr]
      exact ⟨_, _, rfl, hlength, fun _ => ⟨hlen, hpoll.trans hrefills.1⟩,
        fun hnot => absurd (hiff.mpr (Or.inl hr)) hnot⟩
    · by_cases hwait : flow.status = .wait
      · rw [hstart, if_neg hr, if_pos hwait]
        refine ⟨_, _, rfl, hlength, fun hfruitless => ?_, fun _ => Or.inl rfl⟩
        rcases hiff.mp hfruitless with hbad | hbounce
        · exact absurd hbad hr
        · exact absurd hwait hbounce.1
      · obtain rfl : r = 0 := not_not.mp hr
        rcases generateTrial_goes hcache htail htrial hgen hwait rfl with
          ⟨ret, s', hcall, hlength', hstay, hbounced⟩
        refine ⟨ret, s', hcall, hlength', fun hfruitless => ?_, fun hnot => Or.inr ?_⟩
        · have hdone := hbounced ((hiff.mp hfruitless).resolve_left hr).2
          exact ⟨hdone.1, hdone.2.1⟩
        · exact hstay fun hbounce => hnot (hiff.mpr (Or.inr ⟨hwait, hbounce⟩))

/-! ## The whole loop -/

/-- One call, seen from the loop. -/
lemma refillStep_spec (hcache : AtMostCache P) (hreach : Reachable P true s) (hrefills : s.Refills) :
    (∃ ret, generateTrial P 3 s = some (ret, refillStep P s)) ∧ Reachable P true (refillStep P s) ∧
      (refillStep P s).pending.length = s.pending.length ∧
      (Fruitless P s → (refillStep P s).pendingLen = s.pendingLen) ∧
      (¬ Fruitless P s → (refillStep P s).pollstate = false ∨
        (refillStep P s).pendingLen = s.pendingLen + 1) := by
  rcases generateTrial_outcome hcache hrefills hreach.tail_lt with
    ⟨ret, s', hcall, hlength, hsame, hmore⟩
  have hstep : refillStep P s = s' := by
    unfold refillStep
    rw [if_pos hrefills, hcall]
    rfl
  have hevent : sessEvent P 3 s .generate = some (true, s', none) := by
    dsimp only [sessEvent]
    rw [if_pos (show s.pollstate = true ∧ s.pendingLen < s.pending.length from hrefills), hcall]
    rfl
  rw [hstep]
  exact ⟨⟨ret, hcall⟩, hreach.step hevent, hlength, fun h => (hsame h).1, hmore⟩

omit [LT V] [DecidableLT V] in
lemma refillStep_ended (h : ¬ s.Refills) : refillStep P s = s := if_neg h

lemma Reachable.iterate (hcache : AtMostCache P) (hreach : Reachable P true s) (j : ℕ) :
    Reachable P true ((refillStep P)^[j] s) := by
  induction j generalizing s with
  | zero => exact hreach
  | succ j ih =>
    rw [Function.iterate_succ_apply]
    apply ih
    by_cases hrefills : s.Refills
    · exact (refillStep_spec hcache hreach hrefills).2.1
    · rw [refillStep_ended hrefills]
      exact hreach

/-- The loop ends when its condition fails after some number of calls. -/
lemma refillEnds_iff_exists (hcache : AtMostCache P) (hreach : Reachable P true s) :
    RefillEnds P s ↔ ∃ j, ¬ ((refillStep P)^[j] s).Refills := by
  constructor
  · rintro ⟨rounds, s', h⟩
    induction rounds generalizing s with
    | zero => cases h
    | succ rounds ih =>
      rw [refill] at h
      by_cases hrefills : s.Refills
      · rw [if_pos hrefills] at h
        rcases refillStep_spec hcache hreach hrefills with ⟨⟨ret, hcall⟩, hnext, -⟩
        rw [hcall, Option.bind_some] at h
        rcases ih hnext h with ⟨j, hj⟩
        exact ⟨j + 1, hj⟩
      · exact ⟨0, hrefills⟩
  · rintro ⟨j, hj⟩
    induction j generalizing s with
    | zero =>
      refine ⟨1, s, ?_⟩
      rw [refill, if_neg (show ¬ s.Refills from hj)]
    | succ j ih =>
      by_cases hrefills : s.Refills
      · rcases refillStep_spec hcache hreach hrefills with ⟨⟨ret, hcall⟩, hnext, -⟩
        rcases ih hnext hj with ⟨rounds, s', h⟩
        refine ⟨rounds + 1, s', ?_⟩
        rw [refill, if_pos hrefills, hcall, Option.bind_some]
        exact h
      · refine ⟨1, s, ?_⟩
        rw [refill, if_neg hrefills]

/-- The room that is left. -/
def Sess.room : ℕ := ((s.pending.length : ℤ) - s.pendingLen).toNat

/-- After a call that is not fruitless there is less room, or the loop has ended. -/
lemma refillStep_gains (hcache : AtMostCache P) (hreach : Reachable P true s)
    (hnot : ¬ Fruitless P s) :
    ∃ i, ¬ ((refillStep P)^[i] s).Refills ∨ ((refillStep P)^[i] s).room < s.room := by
  by_cases hrefills : s.Refills
  · rcases refillStep_spec hcache hreach hrefills with ⟨-, -, hlength, -, hmore⟩
    refine ⟨1, (hmore hnot).imp (fun hpoll hgo => ?_) fun hlen => ?_⟩
    · have htrue : (refillStep P s).pollstate = true := hgo.1
      rw [hpoll] at htrue
      cases htrue
    · have hlt := hrefills.2
      show ((refillStep P s).pending.length - (refillStep P s).pendingLen : ℤ).toNat < _
      unfold Sess.room
      omega
  · exact ⟨0, Or.inl hrefills⟩

/-- Fruitless calls leave the room as it is until the first one that is not. -/
lemma refill_progress (hcache : AtMostCache P) (hreach : Reachable P true s) {j : ℕ}
    (hj : ¬ Fruitless P ((refillStep P)^[j] s)) :
    ∃ i, ¬ ((refillStep P)^[i] s).Refills ∨ ((refillStep P)^[i] s).room < s.room := by
  induction j generalizing s with
  | zero => exact refillStep_gains hcache hreach hj
  | succ j ih =>
    by_cases hfruitless : Fruitless P s
    · rcases refillStep_spec hcache hreach hfruitless.1 with ⟨-, hnext, hlength, hsame, -⟩
      rcases ih hnext hj with ⟨i, hi⟩
      refine ⟨i + 1, hi.imp id fun hlt => ?_⟩
      rw [Function.iterate_succ_apply]
      refine hlt.trans_eq ?_
      unfold Sess.room
      rw [hlength, hsame hfruitless]
    · exact refillStep_gains hcache hreach hfruitless

/-- The loop ends unless from some call on all of them are fruitless. -/
theorem refill_ends_iff (hcache : AtMostCache P) (hreach : Reachable P true s) :
    RefillEnds P s ↔ ¬ ∃ k, ∀ j, k ≤ j → Fruitless P ((refillStep P)^[j] s) := by
  rw [refillEnds_iff_exists hcache hreach]
  refine ⟨fun ⟨j, hj⟩ ⟨k, hk⟩ => ?_, fun hnot => ?_⟩
  · -- an ended loop stays where it is
    have hstay : (refillStep P)^[k + j] s = (refillStep P)^[j] s := by
      rw [Function.iterate_add_apply]
      exact Function.iterate_fixed (refillStep_ended hj) k
    have hgo := (hk (k + j) (by omega)).1
    rw [hstay] at hgo
    exact hj hgo
  · -- by induction on the room
    generalize hroom : s.room = m
    induction m using Nat.strong_induction_on generalizing s with
    | _ m ih =>
      have hsome : ∃ j, ¬ Fruitless P ((refillStep P)^[j] s) := by
        by_contra hall
        rw [not_exists] at hall
        exact hnot ⟨0, fun j _ => not_not.mp (hall j)⟩
      rcases hsome with ⟨j, hj⟩
      rcases refill_progress hcache hreach hj with ⟨i, hended | hless⟩
      · exact ⟨i, hended⟩
      · have hlater : ¬ ∃ k, ∀ j, k ≤ j → Fruitless P ((refillStep P)^[j] ((refillStep P)^[i] s)) := by
          rintro ⟨k, hk⟩
          refine hnot ⟨k + i, fun j hj => ?_⟩
          have := hk (j - i) (by omega)
          rwa [← Function.iterate_add_apply, Nat.sub_add_cancel (by omega)] at this
        rcases ih _ (hroom ▸ hless) (hreach.iterate hcache i) hlater rfl with ⟨j', hj'⟩
        refine ⟨j' + i, ?_⟩
        rwa [Function.iterate_add_apply]

/-! ## Random search with a cache -/

section

variable {T ρ : Type} [Add W] [Zero W] [LT W] [DecidableLT W]

/-- The strategy `random.c` below the cache. -/
def cachedRandom (lib : RandomLib T V ρ) (load : Bytes → Option (List (CacheEntry V W))) :
    Plugins (RandomSearch T V W ρ × Cache V W) V W where
  strategyGenerate world flow point :=
    let (ret, w, flow, point) := rnGenerate lib world.left flow point
    (ret, world.withLeft w, flow, point)
  strategyRejected world flow point :=
    let (ret, w, flow, point) := rnRejected lib world.left flow point
    (ret, world.withLeft w, flow, point)
  strategyAnalyze world trial :=
    let (ret, w) := rnAnalyze world.left trial
    (ret, world.withLeft w)
  strategyBest world point :=
    let (ret, w, point) := rnBest world.left point
    (ret, world.withLeft w, point)
  strategyInit := some fun world =>
    let (ret, w) := rnInit lib world.left
    (ret, world.withLeft w)
  lstack := [cacheLayer load]
  cb := []
  cb_index := fun _ hc => absurd hc List.not_mem_nil

end

/-- A space of one point. -/
def onePoint : RandomLib Unit ℕ Unit where
  perfCount := 1
  zero := ()
  vertexRand := fun _ => ((), ())
  vertexToHpoint := fun _ => [.int 7]
  vertexFromString := fun _ => none

/-- Random search in that space, with an empty cache. -/
def oneSearch : Plugins (RandomSearch Unit ℕ (WithTop ℕ) Unit × Cache ℕ (WithTop ℕ)) ℕ (WithTop ℕ) :=
  cachedRandom onePoint fun _ => none

/-- The session after `strategy_init`, with 8 slots. -/
def oneStart : Sess (RandomSearch Unit ℕ (WithTop ℕ) Unit × Cache ℕ (WithTop ℕ)) ℕ (WithTop ℕ) :=
  Sess.start ((rnInit onePoint { plug := RandomSearch.loaded (), cfg := hcfgAlloc, errmsg := none }).2
    |> fun w => { plug := (w.plug, { cache := [], visited := [], skip := false }), cfg := w.cfg
                  errmsg := w.errmsg }) 8

/-- The first eight calls fill the slots. -/
theorem one_search_starts : RefillEnds oneSearch oneStart ∧
    ¬ ∃ k, ∀ j, k ≤ j → Fruitless oneSearch ((refillStep oneSearch)^[j] oneStart) := by
  have hends : RefillEnds oneSearch oneStart := by
    have hsome : (refill oneSearch 9 oneStart).isSome := by decide +kernel
    rcases Option.isSome_iff_exists.mp hsome with ⟨s', h⟩
    exact ⟨9, s', h⟩
  exact ⟨hends, (refill_ends_iff (Or.inr ⟨_, rfl⟩)
    (.init (Sess.start_initial _ (by decide)))).mp hends⟩

/-- The only point of the space is in the cache, and there is room for it. -/
structure Sated (s : Sess (RandomSearch Unit ℕ (WithTop ℕ) Unit × Cache ℕ (WithTop ℕ)) ℕ (WithTop ℕ)) :
    Prop where
  refills : s.Refills
  free : ∃ trial ∈ s.pending, trial.point.id = -1
  curr : ∃ v, s.world.plug.1.curr = some v
  opened : s.world.converged = false
  cached : Cached s.world.plug.2 { id := 0, val := [.int 7] }

omit [Top W] in
/-- A hit changes neither the strategy nor the configuration, and the cache keeps its entries. -/
lemma bounced_frame {world : World (τ × Cache V W)} {flow : Flow V} (hopen : world.converged = false)
    (hcached : Cached world.plug.2 trial.point) :
    (bounced world flow trial).1.plug.1 = world.plug.1 ∧
      (bounced world flow trial).1.cfg = world.cfg ∧
      world.plug.2.cache ⊆ (bounced world flow trial).1.plug.2.cache := by
  obtain ⟨visited, perf, hgen⟩ : ∃ visited perf,
      cacheGenerate world { flow with status := .accept } trial
        = cacheHit world { flow with status := .accept } visited perf :=
    cacheGenerate_cached hopen hcached
  unfold bounced
  simp only [hgen]
  exact ⟨rfl, rfl, List.Subset.refl _⟩

lemma oneSearch_analyze_frame
    (world : World (RandomSearch Unit ℕ (WithTop ℕ) Unit × Cache ℕ (WithTop ℕ)))
    (trial : HTrial ℕ (WithTop ℕ)) :
    (oneSearch.strategyAnalyze world trial).2.plug.1.curr = world.plug.1.curr ∧
      (oneSearch.strategyAnalyze world trial).2.cfg = world.cfg ∧
      (oneSearch.strategyAnalyze world trial).2.plug.2 = world.plug.2 := by
  refine ⟨?_, rfl, rfl⟩
  show (if _ then _ else _ : RandomSearch Unit ℕ (WithTop ℕ) Unit).curr = _
  split_ifs <;> rfl

/-- Every further call draws that point, finds it in the cache, and changes nothing. -/
lemma Sated.step {s : Sess (RandomSearch Unit ℕ (WithTop ℕ) Unit × Cache ℕ (WithTop ℕ)) ℕ (WithTop ℕ)}
    (h : Sated s) (hreach : Reachable oneSearch true s) :
    Fruitless oneSearch s ∧ Sated (refillStep oneSearch s) := by
  have hcache : AtMostCache oneSearch := Or.inr ⟨_, rfl⟩
  rcases h.free with ⟨free, hfree, hid⟩
  have hlt : s.freeSlot < s.pending.length := List.findIdx_lt_length_of_exists ⟨free, hfree, by simpa⟩
  have htrial := List.getElem?_eq_getElem hlt
  rcases h.curr with ⟨v, hv⟩
  -- the strategy draws the point
  obtain ⟨world, flow, hgen, hworld, hflow⟩ : ∃ world flow,
      oneSearch.strategyGenerate s.world s.flow s.pending[s.freeSlot].point
        = (0, world, flow, { id := v.id, val := [.int 7] }) ∧
      ((∃ v', world.plug.1.curr = some v') ∧ world.cfg = s.world.cfg ∧
        world.plug.2 = s.world.plug.2) ∧ flow.status = .accept := by
    have hv' : s.world.left.plug.curr = some v := hv
    unfold oneSearch cachedRandom rnGenerate
    simp only [hv']
    exact ⟨_, _, rfl, ⟨⟨_, rfl⟩, rfl, rfl⟩, rfl⟩
  have hwait : flow.status ≠ .wait := by
    rw [hflow]
    decide
  have hopen : world.converged = false := by
    unfold World.converged
    rw [hworld.2.1]
    exact h.opened
  generalize hfresh : ({ point := { id := v.id, val := [.int 7] }
                         perf := hperfReset s.pending[s.freeSlot].perf } :
      HTrial ℕ (WithTop ℕ)) = fresh
  have hcached : Cached world.plug.2 fresh.point := by
    rw [hworld.2.2, ← hfresh]
    exact h.cached
  have hbounce : Bounces oneSearch world flow fresh := ⟨nofun, hopen, hcached, rfl⟩
  have hfruitless : Fruitless oneSearch s := by
    refine ⟨h.refills, fun trial' htrial' r' world' flow' point' hgen' => Or.inr ?_⟩
    rw [htrial] at htrial'
    cases htrial'
    rw [hgen] at hgen'
    cases hgen'
    rw [hfresh]
    exact ⟨hwait, hbounce⟩
  rcases generateTrial_goes hcache hreach.tail_lt htrial hgen hwait hfresh.symm with
    ⟨ret, s', hcall, hlength, -, hdone⟩
  rcases hdone hbounce with ⟨hlen, hpoll, hafter, fresh', hslot, hid'⟩
  have hstep : refillStep oneSearch s = s' := by
    unfold refillStep
    rw [if_pos h.refills, hcall]
    rfl
  have hframe := @bounced_frame _ _ _ _ _ fresh world flow hopen hcached
  have hanalyze := oneSearch_analyze_frame (bounced world flow fresh).1 (bounced world flow fresh).2
  rw [hstep]
  refine ⟨hfruitless, ⟨hpoll, ?_⟩, ⟨fresh', List.mem_of_getElem? hslot, hid'⟩, ?_, ?_, ?_⟩
  · rw [hlen, hlength]
    exact h.refills.2
  · rw [hafter, hanalyze.1, hframe.1]
    exact hworld.1
  · unfold World.converged
    rw [hafter, hanalyze.2.1, hframe.2.1]
    exact hopen
  · rw [hafter, hanalyze.2.2]
    rcases h.cached with ⟨entry, hentry, hequiv⟩
    exact ⟨entry, hframe.2.2 (hworld.2.2 ▸ hentry), hequiv⟩

lemma Sated.forever
    {s : Sess (RandomSearch Unit ℕ (WithTop ℕ) Unit × Cache ℕ (WithTop ℕ)) ℕ (WithTop ℕ)}
    (h : Sated s) (hreach : Reachable oneSearch true s) (j : ℕ) :
    Fruitless oneSearch ((refillStep oneSearch)^[j] s) := by
  induction j generalizing s with
  | zero => exact (h.step hreach).1
  | succ j ih =>
    rw [Function.iterate_succ_apply]
    exact ih (h.step hreach).2 (refillStep_spec (Or.inr ⟨_, rfl⟩) hreach h.refills).2.1

/-- Once the first trial was reported, the loop does not end any more. -/
theorem cached_point_refills_forever :
    ¬ ∀ (lib : RandomLib Unit ℕ Unit)
      (s : Sess (RandomSearch Unit ℕ (WithTop ℕ) Unit × Cache ℕ (WithTop ℕ)) ℕ (WithTop ℕ)),
      Reachable (cachedRandom lib fun _ => none) true s →
        RefillEnds (cachedRandom lib fun _ => none) s := by
  intro hall
  have hrun : (sessRun oneSearch 3 oneStart (List.replicate 8 .generate ++
      [.mesg none .fetch, .mesg none (.report 1 { p := [3] })])).map
      (fun s => (decide s.Refills && s.pending.any (fun trial => trial.point.id = -1) &&
        s.world.plug.1.curr.isSome && !s.world.converged &&
        decide (Cached s.world.plug.2 { id := 0, val := [.int 7] }))) = some true := by decide +kernel
  rcases Option.map_eq_some_iff.mp hrun with ⟨s, hrun, hview⟩
  simp only [Bool.and_eq_true, decide_eq_true_eq, List.any_eq_true, Option.isSome_iff_exists,
    Bool.not_eq_true'] at hview
  have hsated : Sated s := ⟨hview.1.1.1.1, hview.1.1.1.2, hview.1.1.2, hview.1.2, hview.2⟩
  have hreach : Reachable oneSearch true s :=
    (Reachable.init (Sess.start_initial _ (by decide))).run hrun
  exact (refill_ends_iff (Or.inr ⟨_, rfl⟩) hreach).mp (hall onePoint s hreach)
    ⟨0, fun j _ => hsated.forever hreach j⟩

end ActiveHarmony

import ActiveHarmony.Session.Steps

/-!
# Reports and the memory of trials

Each trial has memory for `perf_count` values. `handle_report` copies as many values as the report has, with
their number. `reports_fit_iff` says for which runs of the core no report is copied past the end of a
trial, and every trial keeps its number of values.
-/

namespace ActiveHarmony

variable {σ V W : Type} {P : Plugins σ V W} {s s' : Sess σ V W} {i k : ℕ}

/-- All trials have `k` values. -/
def Counts (k : ℕ) (pending : List (HTrial V W)) : Prop := ∀ trial ∈ pending, trial.perf.p.length = k

variable {pending : List (HTrial V W)}

lemma Counts.set (h : Counts k pending) {point : HPoint V} {perf : HPerf W} (hperf : perf.p.length = k)
    (i : ℕ) : Counts k (pending.set i { point := point, perf := perf }) := by
  intro trial htrial
  obtain htrial | rfl := List.mem_or_eq_of_mem_set htrial
  · exact h trial htrial
  · exact hperf

lemma Counts.at (h : Counts k pending) {trial : HTrial V W} (hi : pending[i]? = some trial) :
    trial.perf.p.length = k := h trial (List.mem_of_getElem? hi)

lemma Counts.setPerfs (h : Counts k pending) {perfs : List (ℤ × HPerf W)}
    (hperfs : ∀ perf ∈ perfs, perf.2.p.length = k) : Counts k (setPerfs pending perfs) := by
  induction perfs generalizing pending with
  | nil => exact h
  | cons perf perfs ih =>
    apply ih
    · intro trial htrial
      obtain ⟨j, hj⟩ := List.mem_iff_getElem?.mp htrial
      rw [List.getElem?_modify, Option.map_eq_map] at hj
      obtain ⟨old, hold, rfl⟩ := Option.map_eq_some_iff.mp hj
      split_ifs
      · exact hperfs perf List.mem_cons_self
      · exact h.at hold
    · exact fun p hp => hperfs p (List.mem_cons_of_mem perf hp)

/-! ## One step -/

lemma workflowTransition_counts {ret : ℤ} (h : workflowTransition P s i = some (ret, s'))
    (hs : Counts k s.pending) : Counts k s'.pending := by
  obtain ⟨-, -, rfl⟩ | ⟨-, -, rfl⟩ | ⟨-, -, rfl⟩ | ⟨-, r, hwait, -⟩ | ⟨-, r, s₁, hrej, hres⟩ :=
    workflowTransition_cases h
  · exact hs
  · exact hs
  · exact hs
  · obtain ⟨cell, -, -, -, rfl⟩ | ⟨-, -, rfl⟩ := handleWait_cases hwait
    · exact hs
    · exact hs
  · have hkept : Counts k s₁.pending := by
      obtain ⟨-, -, rfl⟩ | ⟨trial, r', world, flow, point, -, htrial, -, hres⟩ := handleReject_cases hrej
      · exact hs
      · obtain ⟨-, -, rfl⟩ | ⟨-, -, -, rfl⟩ | ⟨-, -, -, rfl⟩ := hres
        all_goals exact hs.set (hs.at htrial) i
    obtain ⟨-, -, rfl⟩ | ⟨-, -, -, rfl⟩ | ⟨-, -, -, rfl⟩ := hres
    all_goals exact hkept

/-- The layer that is called next leaves the number of values of its trial as it is. -/
def LayerKeeps (P : Plugins σ V W) (s : Sess σ V W) (i : ℕ) : Prop :=
  ∀ layer trial hook, P.lstack[s.currLayer.natAbs - 1]? = some layer → s.pending[i]? = some trial →
    (if s.currLayer < (0 : ℤ) then layer.analyze else layer.generate) = some hook →
    (hook s.world { s.flow with status := .accept } trial).2.2.2.p.length = trial.perf.p.length

lemma callLayer_counts {ret : ℤ} (h : callLayer P s i = some (ret, s')) (hkeeps : LayerKeeps P s i)
    (hs : Counts k s.pending) : Counts k s'.pending := by
  obtain ⟨layer, trial, hlayer, htrial, ⟨-, -, rfl⟩ | ⟨hook, world, flow, perf, hhook, hcall, rfl⟩⟩ :=
    callLayer_cases h
  · exact hs
  · have hcount := hkeeps layer trial hook hlayer htrial hhook
    rw [hcall] at hcount
    exact hs.set (hcount.trans (hs.at htrial)) i

lemma finishWorkflow_counts {ret : ℤ} (h : finishWorkflow P s i = some (ret, s'))
    (hs : Counts k s.pending) : Counts k s'.pending := by
  obtain ⟨-, trial, r, world, htrial, -, hres⟩ | ⟨-, cell, -, hres⟩ | ⟨-, -, -, rfl⟩ := finishWorkflow_cases h
  · obtain ⟨-, -, rfl⟩ | ⟨-, -, rfl⟩ := hres
    · exact hs
    · exact hs.set (hs.at htrial) i
  · obtain ⟨-, -, rfl⟩ | ⟨-, -, rfl⟩ := hres
    · exact hs
    · exact hs
  · exact hs

lemma workflowRound_counts {res : Option ℤ} (h : workflowRound P s i = some (res, s'))
    (hkeeps : LayerKeeps P s i) (hs : Counts k s.pending) : Counts k s'.pending := by
  unfold workflowRound at h
  by_cases hlayer : s.currLayer ≠ 0 ∧ s.currLayer ≤ P.lstack.length
  · rw [if_pos hlayer] at h
    obtain ⟨⟨r, s₁⟩, hcall, h⟩ := Option.bind_eq_some_iff.mp h
    have hcalled := callLayer_counts hcall hkeeps hs
    dsimp only at h
    split_ifs at h
    · cases h
      exact hcalled
    · obtain ⟨⟨r', s₂⟩, htrans, h⟩ := Option.bind_eq_some_iff.mp h
      have hmoved := workflowTransition_counts htrans hcalled
      dsimp only at h
      split_ifs at h
      all_goals
        cases h
        exact hmoved
  · rw [if_neg hlayer] at h
    obtain ⟨⟨r, s₁⟩, hfinish, h⟩ := Option.map_eq_some_iff.mp h
    cases h
    exact finishWorkflow_counts hfinish hs

lemma startTrial_counts [Top W] {head : Head σ V W} (h : startTrial P s = some head)
    (hs : Counts k s.pending) : Counts k head.2.pending := by
  unfold startTrial at h
  simp only at h
  cases htrial : s.pending[s.pending.findIdx fun trial => trial.point.id = -1]? with
  | none =>
    simp only [htrial] at h
    cases h
    exact hs
  | some trial =>
    have hreset : (hperfReset trial.perf).p.length = k := by
      unfold hperfReset
      rw [List.length_map]
      exact hs.at htrial
    simp only [htrial] at h
    split_ifs at h
    all_goals
      cases h
      exact hs.set hreset _

/-- The callback leaves the number of values of its trials as it is. -/
def CallbackKeeps (s : Sess σ V W) (cb : Callback σ V W) : Prop :=
  ∀ trials k, waitingTrials { s with currLayer := cb.index } (s.wait cb.index) = some trials →
    Counts k trials → ∀ perf ∈ (cb.func s.world s.flow trials).2.2.2, perf.p.length = k

lemma waitingTrials_counts {l : WaitList} {trials : List (HTrial V W)}
    (h : waitingTrials s l = some trials) (hs : Counts k s.pending) : Counts k trials := by
  unfold waitingTrials at h
  generalize l.cells.take l.len = cells at h
  induction cells generalizing trials with
  | nil =>
    cases h
    exact List.forall_mem_nil _
  | cons cell cells ih =>
    rw [List.mapM_cons] at h
    obtain ⟨trial, htrial, h⟩ := Option.bind_eq_some_iff.mp h
    obtain ⟨rest, hrest, h⟩ := Option.bind_eq_some_iff.mp h
    cases h
    split_ifs at htrial
    exact List.forall_mem_cons.mpr ⟨hs.at htrial, ih hrest⟩

lemma startCallback_counts {cb : Callback σ V W} {head : Head σ V W} (h : startCallback P s cb = some head)
    (hkeeps : CallbackKeeps s cb) (hs : Counts k s.pending) : Counts k head.2.pending := by
  unfold startCallback at h
  simp only at h
  split_ifs at h
  · cases h
    exact hs
  · obtain ⟨trials, htrials, h⟩ := Option.bind_eq_some_iff.mp h
    have hperfs := hkeeps trials k htrials (waitingTrials_counts htrials hs)
    split_ifs at h
    obtain ⟨cell, -, h⟩ := Option.bind_eq_some_iff.mp h
    obtain ⟨⟨r, s₁⟩, htrans, h⟩ := Option.bind_eq_some_iff.mp h
    have hmoved := workflowTransition_counts htrans (hs.setPerfs (by
      intro perf hperf
      exact hperfs perf.2 (List.of_mem_zip hperf).2))
    simp only at h
    split_ifs at h
    all_goals
      cases h
      exact hmoved

lemma handleBest_pending : (handleBest P s).2.1.pending = s.pending := by
  unfold handleBest
  simp only
  split_ifs
  all_goals rfl

lemma handleFetch_pending {ret : ℤ} {reply : Reply V} (h : handleFetch P s = some (ret, s', reply)) :
    s'.pending = s.pending := by
  obtain ⟨idx, -, ⟨next, -, -, -, rfl, -⟩ | ⟨r, world, pt, -, ⟨-, -, rfl⟩ | ⟨-, -, rfl, -⟩⟩⟩ :=
    handleFetch_cases h
  all_goals rfl

lemma sessionRestart_pending : (sessionRestart P s).2.pending = s.pending := by
  unfold sessionRestart
  cases P.strategyInit with
  | none =>
    simp only
    split_ifs
    all_goals rfl
  | some strategyInit =>
    simp only
    split_ifs
    all_goals rfl

section

variable [Top W] {perfCount targetCap : ℕ} {zero : HTrial V W} {garbage : ℕ → ℤ} {garbage' : ℕ → HTrial V W}
  {q : Queues V W}

/-- New slots have memory for `perf_count` values. -/
lemma extendLists_counts (hcap : q.pending.length = q.pendingCap) (hs : Counts perfCount q.pending) :
    Counts perfCount (extendLists perfCount zero garbage garbage' q targetCap).2.pending := by
  unfold extendLists
  simp only
  split_ifs with hroom
  · exact hs
  · intro trial htrial
    obtain ⟨i, hi⟩ := List.mem_iff_getElem?.mp htrial
    rw [List.getElem?_mapIdx] at hi
    obtain ⟨old, hold, rfl⟩ := Option.map_eq_some_iff.mp hi
    have hlt := (List.getElem?_eq_some_iff.mp hold).1
    have hrange := hlt
    rw [length_grown] at hrange
    rw [length_grown, Nat.one_mul] at hlt
    by_cases hnew : q.pendingCap ≤ i
    · rw [if_pos ⟨hnew, hlt⟩]
      exact List.length_replicate
    · rw [if_neg fun h => hnew h.1]
      -- an old slot
      have hsmall : ¬ 1 * targetCap ≤ i := by omega
      unfold arrayGrow at hold hrange
      rw [List.getElem?_map, List.getElem?_range hrange, Option.map_some, if_neg hsmall, alignReady_pending,
        List.getElem?_eq_getElem (by omega)] at hold
      cases hold
      exact hs _ (List.getElem_mem _)

end

namespace Core

variable {S : Setup σ V W} {c c' : Core σ V W}

/-- The plug-in that is called next leaves the number of values of its trials as it is. -/
def PluginKeeps (S : Setup σ V W) (c : Core σ V W) : Input V W → Prop
  | .callback j => ∀ cb, S.plugins.cb[j]? = some cb → CallbackKeeps c.sess cb
  | .round => ∀ i mesg, c.pos = .workflow i mesg → LayerKeeps S.plugins c.sess i
  | _ => True

/-- The trial that the report is copied to which comes next, and its values. -/
def reported (c : Core σ V W) : Input V W → Option (HTrial V W × HPerf W)
  | .mesg _ (.report candId perf) =>
    (c.sess.pending[c.sess.pending.findIdx fun trial => trial.point.id = candId]?).map fun trial =>
      (trial, perf)
  | _ => none

lemma setClient_pending {srcId : Option Bytes} (h : s.setClient srcId = some s') :
    s'.pending = s.pending := by
  unfold Sess.setClient at h
  obtain ⟨res, -, rfl⟩ := Option.map_eq_some_iff.mp h
  rfl

lemma answer_pending {ret : ℤ} : (c.answer ret s).sess.pending = s.pending := by
  unfold answer
  split_ifs
  · rfl
  · cases hset : s.setClient none with
    | none => rfl
    | some s' => exact setClient_pending hset

lemma finish_pending {mesg : Bool} {ret : ℤ} : (c.finish mesg ret s).sess.pending = s.pending := by
  unfold finish
  split_ifs
  · exact answer_pending
  · rfl

lemma goOn_pending {mesg : Bool} {head : Head σ V W} : (c.goOn mesg head).sess.pending = head.2.pending := by
  obtain ⟨ret | i, s⟩ := head
  · exact finish_pending
  · rfl

variable [Top W] {input : Input V W}

lemma extend_counts {garbage : ℕ → ℤ} {garbage' : ℕ → HTrial V W} {targetCap : ℕ}
    (hs : Counts S.perfCount c.sess.pending) :
    Counts S.perfCount (c.extend S targetCap garbage garbage').sess.pending :=
  extendLists_counts rfl hs

/-- One step keeps the number of values of each trial, if a report has as many. -/
lemma step_counts (h : c.step S input = some c') (hkeeps : c.PluginKeeps S input)
    (hreport : ∀ trial perf, c.reported input = some (trial, perf) → perf.p.length = S.perfCount)
    (hs : Counts S.perfCount c.sess.pending) : Counts S.perfCount c'.sess.pending := by
  cases input with
  | top =>
    cases h
    exact hs
  | callback j =>
    obtain ⟨cb, hcb, h⟩ := Option.bind_eq_some_iff.mp h
    obtain ⟨head, hhead, rfl⟩ := Option.map_eq_some_iff.mp h
    rw [goOn_pending]
    exact startCallback_counts hhead (hkeeps cb hcb) hs
  | mesg srcId req =>
    obtain ⟨s, hset, h⟩ := Option.bind_eq_some_iff.mp h
    have hsame := setClient_pending hset
    cases req with
    | best =>
      have hanswer : c.answer (handleBest S.plugins s).1 (handleBest S.plugins s).2.1 = c' :=
        Option.some.inj h
      rw [← hanswer, answer_pending, handleBest_pending, hsame]
      exact hs
    | fetch =>
      obtain ⟨⟨ret, s₁, reply⟩, hfetch, rfl⟩ := Option.map_eq_some_iff.mp h
      rw [answer_pending, handleFetch_pending hfetch, hsame]
      exact hs
    | report candId perf =>
      cases h
      rw [goOn_pending]
      unfold startReport
      simp only
      rw [hsame]
      cases htrial : c.sess.pending[c.sess.pending.findIdx fun trial => trial.point.id = candId]? with
      | none =>
        simp only
        split_ifs
        all_goals exact hsame ▸ hs
      | some trial =>
        have hcount : perf.p.length = S.perfCount := by
          apply hreport trial perf
          unfold reported
          simp only [htrial]
          rfl
        exact hs.set hcount _
    | restart =>
      have hanswer : c.answer 0 (sessionRestart S.plugins s).2 = c' := Option.some.inj h
      rw [← hanswer, answer_pending, sessionRestart_pending, hsame]
      exact hs
  | join srcId matched garbage garbage' =>
    obtain ⟨s, hset, rfl⟩ := Option.map_eq_some_iff.mp h
    rw [answer_pending]
    rw [← setClient_pending hset] at hs
    unfold handleJoin
    split_ifs
    · exact hs
    · exact extend_counts hs
  | generate =>
    obtain ⟨head, hhead, rfl⟩ := Option.map_eq_some_iff.mp h
    rw [goOn_pending]
    exact startTrial_counts hhead hs
  | round =>
    cases hpos : c.pos with
    | workflow i mesg =>
      unfold step at h
      simp only [hpos] at h
      obtain ⟨⟨ret, s⟩, hround, rfl⟩ := Option.map_eq_some_iff.mp h
      have hkept := workflowRound_counts hround (hkeeps i mesg hpos) hs
      cases ret with
      | none => exact hkept
      | some ret =>
        show Counts S.perfCount (c.finish mesg ret s).sess.pending
        rw [finish_pending]
        exact hkept
    | _ =>
      unfold step at h
      simp only [hpos] at h
      cases h
      exact hs

/-! ## Runs -/

variable {c₀ : Core σ V W} {inputs : List (Input V W)}

/-- Along `inputs` every trial keeps `perf_count` values, and no report is copied past its end. -/
def ReportsFit (S : Setup σ V W) (c₀ : Core σ V W) (inputs : List (Input V W)) : Prop :=
  ∀ before c, before <+: inputs → Run S c₀ before c → Counts S.perfCount c.sess.pending ∧
    ∀ input trial perf, before ++ [input] <+: inputs → c.Takes S input →
      c.reported input = some (trial, perf) → perf.p.length ≤ S.perfCount

/-- Along `inputs` each report for a trial has `perf_count` values. -/
def ReportsCount (S : Setup σ V W) (c₀ : Core σ V W) (inputs : List (Input V W)) : Prop :=
  ∀ before input c trial perf, before ++ [input] <+: inputs → Run S c₀ before c → c.Takes S input →
    c.reported input = some (trial, perf) → perf.p.length = S.perfCount

/-- Along `inputs` the plug-ins leave the number of values of a trial as it is, as long as all trials have had
`perf_count` of them. -/
def PluginsKeep (S : Setup σ V W) (c₀ : Core σ V W) (inputs : List (Input V W)) : Prop :=
  ∀ before input c, before ++ [input] <+: inputs → Run S c₀ before c →
    (∀ before' c', before' <+: before → Run S c₀ before' c' → Counts S.perfCount c'.sess.pending) →
    c.PluginKeeps S input

lemma run_counts (hkeeps : PluginsKeep S c₀ inputs) (hreports : ReportsCount S c₀ inputs)
    (hstart : Counts S.perfCount c₀.sess.pending) {all : List (Input V W)} (hall : all <+: inputs) :
    ∀ before c, before <+: all → Run S c₀ before c → Counts S.perfCount c.sess.pending := by
  induction all using List.reverseRecOn with
  | nil =>
    intro before c hbefore hrun
    rw [List.prefix_nil] at hbefore
    subst hbefore
    rw [hrun.of_nil]
    exact hstart
  | append_singleton all input ih =>
    have hearlier := ih ((List.prefix_append all [input]).trans hall)
    intro before c hbefore hrun
    obtain rfl | hbefore := List.prefix_concat_iff.mp hbefore
    · obtain ⟨c₁, hrun₁, htakes, hstep⟩ := hrun.of_snoc
      apply step_counts hstep (hkeeps all input c₁ hall hrun₁ hearlier)
      · intro trial perf hreported
        exact hreports all input c₁ trial perf hall hrun₁ htakes hreported
      · exact hearlier all c₁ (List.prefix_refl all) hrun₁
    · exact hearlier before c hbefore hrun

/-- After a report the trial has its values. -/
lemma step_reported {trial : HTrial V W} {perf : HPerf W} (htakes : c.Takes S input)
    (hreported : c.reported input = some (trial, perf)) :
    ∃ c', c.step S input = some c' ∧ ∃ trial' ∈ c'.sess.pending, trial'.perf = perf := by
  unfold reported at hreported
  split at hreported
  · rename_i srcId candId perf'
    obtain ⟨trial', htrial, hpair⟩ := Option.map_eq_some_iff.mp hreported
    cases hpair
    obtain ⟨s, hset⟩ := Option.isSome_iff_exists.mp htakes.2
    have hstep : c.step S (.mesg srcId (.report candId perf))
        = some (c.goOn true (startReport S.plugins s candId perf)) := by
      simp only [step, hset, Option.bind_some]
    refine ⟨_, hstep, ?_⟩
    rw [goOn_pending]
    have hslot := (List.getElem?_eq_some_iff.mp htrial).1
    unfold startReport
    simp only [setClient_pending hset, htrial]
    exact ⟨_, List.mem_set hslot _, rfl⟩
  · cases hreported

/-- Reports fit in a run of the core exactly if each one for a trial has `perf_count` values. -/
theorem reports_fit_iff (world : World σ) (count : ℕ) (garbage : ℕ → ℤ) (garbage' : ℕ → HTrial V W)
    (inputs : List (Input V W)) (hkeeps : PluginsKeep S (start S world count garbage garbage') inputs) :
    ReportsFit S (start S world count garbage garbage') inputs ↔
      ReportsCount S (start S world count garbage garbage') inputs := by
  constructor
  · intro hfit before input c trial perf hbefore hrun htakes hreported
    obtain ⟨c', hstep, trial', htrial', rfl⟩ := step_reported htakes hreported
    exact (hfit _ c' hbefore (hrun.snoc htakes hstep)).1 trial' htrial'
  · intro hreports before c hbefore hrun
    have hstart : Counts S.perfCount (start S world count garbage garbage').sess.pending := by
      apply extend_counts
      exact List.forall_mem_nil _
    constructor
    · exact run_counts hkeeps hreports hstart (List.prefix_refl inputs) before c hbefore hrun
    · intro input trial perf hnext htakes hreported
      exact (hreports before input c trial perf hnext hrun htakes hreported).le

end Core

/-! ### One value -/

/-- A layer that looks at trials only, with one value for each trial. -/
def oneValue : Setup Unit ℤ (WithTop ℕ) where
  plugins :=
    { strategyGenerate := fun w flow _ => (0, w, flow, { id := 1, val := [] })
      strategyRejected := fun w flow point => (0, w, flow, point)
      strategyAnalyze := fun w _ => (0, w)
      strategyBest := fun w point => (0, w, point)
      strategyInit := none
      lstack := [{
        generate := none
        analyze := some fun w flow trial => (0, w, flow, trial.perf)
        init := none
        fini := none }]
      cb := []
      cb_index := List.forall_mem_nil _ }
  join := []
  perClient := 1
  perfCount := 1
  zero := emptySlot 1

/-- The core at the start of its main loop. -/
def oneValueStart : Core Unit ℤ (WithTop ℕ) :=
  Core.start oneValue { plug := (), cfg := hcfgAlloc, errmsg := none } 1 (fun _ => 0) fun _ => emptySlot 1

/-- A client fetches the first trial and reports `perf` for it. -/
def oneReport (perf : HPerf (WithTop ℕ)) : List (Input ℤ (WithTop ℕ)) :=
  [.generate, .round, .round, .top, .mesg none .fetch, .mesg none (.report 1 perf)]

lemma oneValue_keeps {inputs : List (Input ℤ (WithTop ℕ))} :
    Core.PluginsKeep oneValue oneValueStart inputs := by
  intro before input c hbefore hrun hearlier
  cases input with
  | callback j =>
    intro cb hcb
    cases hcb
  | round =>
    intro i mesg hpos layer trial hook hlayer htrial hhook
    have hmem := List.mem_of_getElem? hlayer
    obtain rfl := List.mem_singleton.mp hmem
    simp only at hhook
    split_ifs at hhook
    cases hhook
    rfl
  | _ => trivial

theorem reports_fit_oneValue : Core.ReportsFit oneValue oneValueStart (oneReport { p := [3] }) ↔
    Core.ReportsCount oneValue oneValueStart (oneReport { p := [3] }) :=
  Core.reports_fit_iff _ _ _ _ _ oneValue_keeps

/-- A report with two values is copied past the end of its trial. -/
theorem report_past_end : ¬ ∀ inputs, Core.ReportsFit oneValue oneValueStart inputs := by
  intro hclaim
  obtain ⟨c, hrun, htakes, trial, hreported⟩ : ∃ c, Core.Run oneValue oneValueStart
      [.generate, .round, .round, .top, .mesg none .fetch] c ∧
      c.Takes oneValue (.mesg none (.report 1 { p := [3, 4] })) ∧
      ∃ trial, c.reported (.mesg none (.report 1 { p := [3, 4] })) = some (trial, { p := [3, 4] }) := by
    refine ⟨_, .snoc (.snoc (.snoc (.snoc (.snoc .nil ?_ rfl) ?_ rfl) ?_ rfl) ?_ rfl) ?_ rfl, ?_, _, rfl⟩
    · exact ⟨rfl, rfl, by decide⟩
    · exact ⟨0, false, rfl⟩
    · exact ⟨0, false, rfl⟩
    · rfl
    · exact ⟨rfl, rfl⟩
    · exact ⟨rfl, rfl⟩
  have hfits := (hclaim (oneReport { p := [3, 4] }) _ c (List.prefix_append _ [_]) hrun).2
  have hle := hfits _ trial _ (List.prefix_refl _) htakes hreported
  exact absurd hle (by decide)

end ActiveHarmony

import ActiveHarmony.Session.Ledger

/-!
# The workflow round by round

The equations of `plugin_workflow` for one round of its loop, and the invariants of plug-ins: what each
call of a plug-in keeps, whatever it returns, holds in every state of a session.
-/

namespace ActiveHarmony

variable {σ V W : Type} {P : Plugins σ V W} {s s' : Sess σ V W} {i fuel : ℕ} {ret : ℤ}

/-! ## One round -/

section

variable {s₁ s₂ : Sess σ V W}

lemma pluginWorkflow_round (fuel : ℕ) (hne : s.currLayer ≠ 0)
    (hle : s.currLayer ≤ P.lstack.length) (hcall : callLayer P s i = some (0, s₁))
    (htrans : workflowTransition P s₁ i = some (0, s₂)) :
    pluginWorkflow P (fuel + 1) s i = pluginWorkflow P fuel s₂ i := by
  rw [pluginWorkflow, if_pos ⟨hne, hle⟩, hcall, Option.bind_eq_bind, Option.bind_some]
  dsimp only
  rw [if_neg (by decide), htrans, Option.bind_some]
  dsimp only
  rw [if_neg (by decide), if_neg (by decide)]

lemma pluginWorkflow_failed {r : ℤ} (fuel : ℕ)
    (hne : s.currLayer ≠ 0) (hle : s.currLayer ≤ P.lstack.length)
    (hcall : callLayer P s i = some (r, s₁)) (hr : r ≠ 0) :
    pluginWorkflow P (fuel + 1) s i = some (-1, s₁) := by
  rw [pluginWorkflow, if_pos ⟨hne, hle⟩, hcall, Option.bind_eq_bind, Option.bind_some]
  dsimp only
  rw [if_pos hr]

/-- A trial that has passed the layers is enqueued, or the queue overflows. -/
lemma pluginWorkflow_top {result : Option (ℤ × Sess σ V W)}
    (hresult : result = pluginWorkflow P (fuel + 1) s i)
    (hlayer : s.currLayer = P.lstack.length + 1) (htail : s.readyTail < s.ready.length) :
    ∃ ret s', result = some (ret, s') ∧ s'.pending = s.pending ∧
      s'.pendingLen = s.pendingLen := by
  have hpast : ¬ (s.currLayer ≠ 0 ∧ s.currLayer ≤ P.lstack.length) := by omega
  have hne : s.currLayer ≠ 0 := by omega
  have hgt : s.currLayer > P.lstack.length := by omega
  rw [hresult, pluginWorkflow, if_neg hpast]
  unfold finishWorkflow
  rw [if_neg hne, if_pos hgt, List.getElem?_eq_getElem htail]
  dsimp only
  split_ifs
  · exact ⟨_, _, rfl, rfl, rfl⟩
  · exact ⟨_, _, rfl, rfl, rfl⟩

lemma workflowTransition_accept (h : s.flow.status = .accept) :
    workflowTransition P s i = some (0, { s with currLayer := s.currLayer + 1 }) := by
  unfold workflowTransition
  rw [h]

lemma workflowTransition_ret (h : s.flow.status = .ret) :
    workflowTransition P s i = some (0, { s with currLayer := -s.currLayer }) := by
  unfold workflowTransition
  rw [h]

/-- A rejected trial goes back to the first layer with the point of `strategy_rejected`. -/
lemma workflowTransition_reject (h : s.flow.status = .reject) (hlayer : 0 ≤ s.currLayer) {trial : HTrial V W}
    (htrial : s.pending[i]? = some trial) {world : World σ} {flow : Flow V} {point : HPoint V}
    (hrej : P.strategyRejected s.world s.flow trial.point = (0, world, flow, point))
    (hwait : flow.status ≠ .wait) :
    workflowTransition P s i = some (0, { ({ s with
      world := world
      flow := flow
      pending := s.pending.set i { trial with point := point } } : Sess σ V W).log
        (.rejected i s.ids 0 flow.status point.id) with currLayer := 1 }) := by
  unfold workflowTransition handleReject
  simp only [h, if_neg (not_lt.mpr hlayer), htrial, hrej, Sess.log, hwait, ne_eq, not_true_eq_false,
    if_false, Option.bind_eq_bind, Option.bind_some]

/-- The session with the point that the strategy generated. -/
lemma generateTrial_started [Top W] {trial : HTrial V W}
    (hslot : (s.pending.findIdx fun trial => trial.point.id = -1) = i)
    (htrial : s.pending[i]? = some trial) {r : ℤ}
    {world : World σ} {flow : Flow V} {point : HPoint V}
    (hgen : P.strategyGenerate s.world s.flow trial.point = (r, world, flow, point)) :
    ∃ t : Sess σ V W,
      (∀ fuel, generateTrial P fuel s = if r ≠ 0 then some (-1, t)
        else if flow.status = .wait then some (0, { t with pollstate := false })
        else pluginWorkflow P fuel { t with pendingLen := t.pendingLen + 1, currLayer := 1 } i) ∧
      t.world = world ∧ t.flow = flow ∧ t.pendingLen = s.pendingLen ∧
      t.pollstate = s.pollstate ∧ t.ready = s.ready ∧ t.readyTail = s.readyTail ∧
      t.pending = s.pending.set i { point := point, perf := hperfReset trial.perf } := by
  refine ⟨({ s with
    world := world
    flow := flow
    pending := s.pending.set i { point := point, perf := hperfReset trial.perf } }).log
      (.generate i s.ids r flow.status point.id), ?_, rfl, rfl, rfl, rfl, rfl, rfl, rfl⟩
  intro fuel
  unfold generateTrial
  simp only [hslot, htrial, hgen]
  rfl

end

/-- The tail of the ready queue stays within it. -/
lemma Ledger.Run.tail_lt {n : ℕ} {L L' : Ledger} {acts : List Act} (h : L.tail < L.ring.length)
    (hrun : L.Run n acts L') : L'.tail < L'.ring.length := by
  induction hrun with
  | nil => exact h
  | snoc _ hstep ih =>
    cases hstep with
    | enqueue =>
      rw [List.length_set]
      exact Nat.mod_lt _ (by omega)
    | deliver =>
      rw [List.length_set]
      exact ih
    | _ => exact ih

lemma Reachable.tail_lt [Top W] {alive : Bool} (h : Reachable P alive s) :
    s.readyTail < s.ready.length := by
  obtain ⟨cap, hcap, hrun⟩ := reachable_run h
  exact Ledger.Run.tail_lt (by simpa [Ledger.initial] using hcap) hrun

/-! ## Calls that are due -/

/-- Between two events `Inv` holds of the plug-ins. Inside a workflow it can be that instead a call is due:
`Due` tells its layer and its trial, and the call comes next. -/
structure Plugins.Guards (P : Plugins σ V W) (Inv : σ → Prop) (Due : σ → ℤ → HTrial V W → Prop) : Prop where
  generate : ∀ w flow point, Inv w.plug → Inv (P.strategyGenerate w flow point).2.1.plug
  rejected : ∀ w flow point, Inv w.plug → Inv (P.strategyRejected w flow point).2.1.plug
  analyze : ∀ w trial, Inv w.plug → Inv (P.strategyAnalyze w trial).2.plug
  best : ∀ w point, Inv w.plug → Inv (P.strategyBest w point).2.1.plug
  callback : ∀ cb ∈ P.cb, ∀ w flow trials, Inv w.plug → Inv (cb.func w flow trials).2.1.plug
  due_layer : ∀ plug c trial, Due plug c trial → c ≠ 0 ∧ c ≤ P.lstack.length
  missing : ∀ layer c, c ≠ 0 → P.lstack[c.natAbs - 1]? = some layer →
    (if c < 0 then layer.analyze else layer.generate) = none → ∀ plug trial, Due plug c trial → Inv plug
  hook : ∀ layer c, c ≠ 0 → P.lstack[c.natAbs - 1]? = some layer →
    ∀ hook, (if c < 0 then layer.analyze else layer.generate) = some hook →
    ∀ w flow trial, flow.status = .accept → Inv w.plug ∨ Due w.plug c trial →
    Inv (hook w flow trial).2.1.plug ∨
      (hook w flow trial).1 = 0 ∧ (hook w flow trial).2.2.1.status = .ret ∧
      Due (hook w flow trial).2.1.plug (-c) { trial with perf := (hook w flow trial).2.2.2 }

/-- A request to restart the session. -/
def Event.Restarts : Event W → Prop
  | .mesg _ .restart => True
  | _ => False

namespace Plugins.Guards

variable {Inv : σ → Prop} {Due : σ → ℤ → HTrial V W → Prop} (hP : P.Guards Inv Due)

/-- `Inv` holds, or the next call is due. -/
def Holds (Inv : σ → Prop) (Due : σ → ℤ → HTrial V W → Prop) (s : Sess σ V W) (i : ℕ) : Prop :=
  Inv s.world.plug ∨ ∃ trial, s.pending[i]? = some trial ∧ Due s.world.plug s.currLayer trial

include hP

lemma transition (hs : Inv s.world.plug) (h : workflowTransition P s i = some (ret, s')) :
    Inv s'.world.plug := by
  obtain ⟨-, -, rfl⟩ | ⟨-, -, rfl⟩ | ⟨-, -, rfl⟩ | ⟨-, r, hwait, -⟩ | ⟨-, r, s₁, hrej, hres⟩ :=
    workflowTransition_cases h
  · exact hs
  · exact hs
  · exact hs
  · obtain ⟨cell, -, -, -, rfl⟩ | ⟨-, -, rfl⟩ := handleWait_cases hwait
    · exact hs
    · exact hs
  · have hkept : Inv s₁.world.plug := by
      obtain ⟨-, -, rfl⟩ | ⟨trial, r', world, flow, point, -, -, hcall, hres⟩ := handleReject_cases hrej
      · exact hs
      · have hplug := hP.rejected s.world s.flow trial.point hs
        rw [hcall] at hplug
        obtain ⟨-, -, rfl⟩ | ⟨-, -, -, rfl⟩ | ⟨-, -, -, rfl⟩ := hres
        all_goals exact hplug
    obtain ⟨-, -, rfl⟩ | ⟨-, -, -, rfl⟩ | ⟨-, -, -, rfl⟩ := hres
    all_goals exact hkept

/-- After a call `Inv` holds, or the workflow turns around to a call that is due. -/
lemma call (hne : s.currLayer ≠ 0) (hs : Holds Inv Due s i) (h : callLayer P s i = some (ret, s')) :
    Inv s'.world.plug ∨ ret = 0 ∧ s'.flow.status = .ret ∧
      ∃ trial, s'.pending[i]? = some trial ∧ Due s'.world.plug (-s'.currLayer) trial := by
  obtain ⟨layer, trial, hlayer, htrial, hres⟩ := callLayer_cases h
  have hor : Inv s.world.plug ∨ Due s.world.plug s.currLayer trial := by
    obtain hinv | ⟨other, hother, hdue⟩ := hs
    · exact Or.inl hinv
    · rw [htrial] at hother
      rw [Option.some.inj hother]
      exact Or.inr hdue
  obtain ⟨hhook, -, rfl⟩ | ⟨hook, world, flow, perf, hhook, hcall, rfl⟩ := hres
  · left
    obtain hinv | hdue := hor
    · exact hinv
    · exact hP.missing layer s.currLayer hne hlayer hhook _ trial hdue
  · have hi := (List.getElem?_eq_some_iff.mp htrial).1
    have hcalled := hP.hook layer s.currLayer hne hlayer hook hhook s.world
      { s.flow with status := .accept } trial rfl hor
    rw [hcall] at hcalled
    obtain hinv | ⟨hret, hstatus, hdue⟩ := hcalled
    · exact Or.inl hinv
    · exact Or.inr ⟨hret, hstatus, _, List.getElem?_set_self hi, hdue⟩

lemma finish (hs : Inv s.world.plug) (h : finishWorkflow P s i = some (ret, s')) : Inv s'.world.plug := by
  obtain ⟨-, trial, r, world, -, hcall, hres⟩ | ⟨-, cell, -, hres⟩ | ⟨-, -, -, rfl⟩ := finishWorkflow_cases h
  · have hplug := hP.analyze s.world trial hs
    rw [hcall] at hplug
    obtain ⟨-, -, rfl⟩ | ⟨-, -, rfl⟩ := hres
    all_goals exact hplug
  · obtain ⟨-, -, rfl⟩ | ⟨-, -, rfl⟩ := hres
    all_goals exact hs
  · exact hs

lemma workflow (hs : Holds Inv Due s i) (h : pluginWorkflow P fuel s i = some (ret, s')) :
    Inv s'.world.plug := by
  induction fuel generalizing s with
  | zero => cases h
  | succ fuel ih =>
    rw [pluginWorkflow] at h
    by_cases hrun : s.currLayer ≠ 0 ∧ s.currLayer ≤ P.lstack.length
    · rw [if_pos hrun] at h
      obtain ⟨⟨r, s₁⟩, hcall, h⟩ := Option.bind_eq_some_iff.mp h
      dsimp only at h
      obtain hcalled | ⟨rfl, hstatus, trial, htrial, hdue⟩ := hP.call hrun.1 hs hcall
      · split_ifs at h
        · cases h
          exact hcalled
        · obtain ⟨⟨r', s₂⟩, htrans, h⟩ := Option.bind_eq_some_iff.mp h
          have hmoved := hP.transition hcalled htrans
          dsimp only at h
          split_ifs at h
          · cases h
            exact hmoved
          · cases h
            exact hmoved
          · exact ih (Or.inl hmoved) h
      · -- the call that is due comes next
        rw [if_neg (not_not.mpr rfl), workflowTransition_ret hstatus] at h
        have hnext : Holds Inv Due { s₁ with currLayer := -s₁.currLayer } i := Or.inr ⟨trial, htrial, hdue⟩
        exact ih hnext h
    · rw [if_neg hrun] at h
      obtain hinv | ⟨trial, -, hdue⟩ := hs
      · exact hP.finish hinv h
      · exact absurd (hP.due_layer _ _ _ hdue) hrun

lemma trial [Top W] (hs : Inv s.world.plug) (h : generateTrial P fuel s = some (ret, s')) :
    Inv s'.world.plug := by
  obtain ⟨-, -, rfl⟩ | ⟨free, r, world, flow, point, s₁, -, hgen, rfl, hres⟩ := generateTrial_cases h
  · exact hs
  · have hcall := hP.generate s.world s.flow free.point hs
    rw [hgen] at hcall
    obtain ⟨-, -, rfl⟩ | ⟨-, -, -, rfl⟩ | ⟨-, -, hworkflow⟩ := hres
    · exact hcall
    · exact hcall
    · apply hP.workflow _ hworkflow
      exact Or.inl hcall

lemma answer {cb : Callback σ V W} (hcb : cb ∈ P.cb) (hs : Inv s.world.plug)
    (h : handleCallback P fuel s cb = some (ret, s')) : Inv s'.world.plug := by
  obtain ⟨-, -, rfl⟩ | ⟨trials, idx, world, flow, perfs, cell, s₁, r, s₂, hfunc, -, -, -, rfl, htrans, hres⟩ :=
    handleCallback_cases h
  · exact hs
  · have hcall := hP.callback cb hcb s.world s.flow trials hs
    rw [hfunc] at hcall
    have hmoved := hP.transition hcall htrans
    obtain ⟨-, -, rfl⟩ | ⟨-, -, rfl⟩ | ⟨-, hworkflow⟩ := hres
    · exact hmoved
    · exact hmoved
    · apply hP.workflow _ hworkflow
      exact Or.inl hmoved

lemma fetch {reply : Reply V} (hs : Inv s.world.plug) (h : handleFetch P s = some (ret, s', reply)) :
    Inv s'.world.plug := by
  obtain ⟨idx, -, ⟨next, -, -, -, rfl, -⟩ | ⟨r, world, pt, hbest, hres⟩⟩ := handleFetch_cases h
  · exact hs
  · have hcall := hP.best s.world (hpointInitializer V) hs
    rw [hbest] at hcall
    obtain ⟨-, -, rfl⟩ | ⟨-, -, rfl, -⟩ := hres
    · exact hcall
    · exact hcall

lemma report {candId : ℤ} {perf : HPerf W} {reply : Reply V} (hs : Inv s.world.plug)
    (h : handleReport P fuel s candId perf = some (ret, s', reply)) : Inv s'.world.plug := by
  obtain ⟨-, ⟨-, ⟨-, -, rfl⟩ | ⟨-, -, rfl⟩⟩ | ⟨trial, r, -, hworkflow, -⟩⟩ := handleReport_cases h
  · exact hs
  · exact hs
  · apply hP.workflow _ hworkflow
    exact Or.inl hs

/-- One event of the main loop. A restart, which calls other hooks, is apart. -/
theorem event [Top W] {e : Event W} {alive : Bool} {reply : Option (Reply V)} (hs : Inv s.world.plug)
    (hrestart : ∀ s : Sess σ V W, Inv s.world.plug → e.Restarts → Inv (sessionRestart P s).2.world.plug)
    (h : sessEvent P fuel s e = some (alive, s', reply)) : Inv s'.world.plug := by
  cases e with
  | top =>
    cases h
    exact hs
  | callback j =>
    obtain ⟨cb, hcb, h⟩ := Option.bind_eq_some_iff.mp h
    obtain ⟨⟨r, s₁⟩, hcall, h⟩ := Option.bind_eq_some_iff.mp h
    cases h
    exact hP.answer (List.mem_of_getElem? hcb) hs hcall
  | generate =>
    unfold sessEvent at h
    split_ifs at h
    obtain ⟨⟨r, s₁⟩, hgen, h⟩ := Option.bind_eq_some_iff.mp h
    cases h
    exact hP.trial hs hgen
  | mesg srcId req =>
    obtain ⟨⟨live, s₁, r⟩, hmesg, h⟩ := Option.bind_eq_some_iff.mp h
    cases h
    obtain ⟨⟨r', cfg⟩, -, hmesg⟩ := Option.bind_eq_some_iff.mp hmesg
    obtain ⟨⟨r'', s₂, reply'⟩, hreq, hmesg⟩ := Option.bind_eq_some_iff.mp hmesg
    have hhandled : Inv s₂.world.plug := by
      have hstart : Inv ({ s with world := { s.world with cfg := cfg } } : Sess σ V W).world.plug := hs
      cases req with
      | best =>
        have hcall := hP.best { s.world with cfg := cfg } (hpointInitializer V) hs
        simp only [handleRequest, handleBest] at hreq
        split_ifs at hreq
        all_goals
          cases hreq
          exact hcall
      | fetch => exact hP.fetch hstart hreq
      | report candId perf => exact hP.report hstart hreq
      | restart =>
        cases hreq
        exact hrestart _ hstart trivial
    dsimp only at hmesg
    split_ifs at hmesg
    · cases hmesg
      exact hhandled
    · obtain ⟨⟨r₃, cfg'⟩, -, hmesg⟩ := Option.bind_eq_some_iff.mp hmesg
      cases hmesg
      exact hhandled

end Plugins.Guards

/-- The states a session reaches from `start` without a restart; the flag tells whether its main loop is still
running. -/
inductive Unrestarted [Top W] (P : Plugins σ V W) (start : Sess σ V W) : Bool → Sess σ V W → Prop where
  | init : Unrestarted P start true start
  | step {s s' : Sess σ V W} {alive : Bool} {fuel : ℕ} {e : Event W} {reply : Option (Reply V)} :
      Unrestarted P start true s → ¬e.Restarts → sessEvent P fuel s e = some (alive, s', reply) →
      Unrestarted P start alive s'

lemma Unrestarted.run [Top W] {start s : Sess σ V W} {es : List (Event W)} (h : Unrestarted P start true s)
    (hes : ∀ e ∈ es, ¬e.Restarts) (hrun : sessRun P fuel s es = some s') : Unrestarted P start true s' := by
  induction es generalizing s with
  | nil =>
    cases hrun
    exact h
  | cons e es ih =>
    rw [sessRun] at hrun
    split at hrun
    · rename_i s₁ reply hevent
      have hnext := h.step (hes e List.mem_cons_self) hevent
      exact ih hnext (fun e' he' => hes e' (List.mem_cons_of_mem e he')) hrun
    · cases hrun

/-- What is guarded holds as long as the session is not restarted. -/
lemma Plugins.Guards.unrestarted [Top W] {Inv : σ → Prop} {Due : σ → ℤ → HTrial V W → Prop}
    (hP : P.Guards Inv Due) {start : Sess σ V W} (hstart : Inv start.world.plug) {alive : Bool}
    (h : Unrestarted P start alive s) : Inv s.world.plug := by
  induction h with
  | init => exact hstart
  | step _ hkeeps hevent ih =>
    apply hP.event ih _ hevent
    intro _ _ hrestarts
    exact absurd hrestarts hkeeps

/-! ## What the plug-ins keep -/

/-- Every call of a plug-in keeps `Inv`, whatever it returns. -/
structure Plugins.Keeps (P : Plugins σ V W) (Inv : σ → Prop) : Prop where
  generate : ∀ w flow point, Inv w.plug → Inv (P.strategyGenerate w flow point).2.1.plug
  rejected : ∀ w flow point, Inv w.plug → Inv (P.strategyRejected w flow point).2.1.plug
  analyze : ∀ w trial, Inv w.plug → Inv (P.strategyAnalyze w trial).2.plug
  best : ∀ w point, Inv w.plug → Inv (P.strategyBest w point).2.1.plug
  init : ∀ hook ∈ P.strategyInit, ∀ w, Inv w.plug → Inv (hook w).2.plug
  layerGenerate : ∀ layer ∈ P.lstack, ∀ hook ∈ layer.generate, ∀ w flow trial,
    Inv w.plug → Inv (hook w flow trial).2.1.plug
  layerAnalyze : ∀ layer ∈ P.lstack, ∀ hook ∈ layer.analyze, ∀ w flow trial,
    Inv w.plug → Inv (hook w flow trial).2.1.plug
  layerInit : ∀ layer ∈ P.lstack, ∀ hook ∈ layer.init, ∀ w, Inv w.plug → Inv (hook w).2.plug
  layerFini : ∀ layer ∈ P.lstack, ∀ hook ∈ layer.fini, ∀ w, Inv w.plug → Inv (hook w).2.plug
  callback : ∀ cb ∈ P.cb, ∀ w flow trials, Inv w.plug → Inv (cb.func w flow trials).2.1.plug

namespace Plugins.Keeps

variable {Inv : σ → Prop} (hP : P.Keeps Inv)

include hP

/-- No call is ever due. -/
lemma guards : P.Guards Inv fun _ _ _ => False where
  generate := hP.generate
  rejected := hP.rejected
  analyze := hP.analyze
  best := hP.best
  callback := hP.callback
  due_layer := fun _ _ _ hdue => hdue.elim
  missing := fun _ _ _ _ _ _ _ hdue => hdue.elim
  hook := by
    intro layer c _ hlayer hook hhook w flow trial _ hor
    have hs : Inv w.plug := by
      obtain hinv | hdue := hor
      · exact hinv
      · exact hdue.elim
    have hmem := List.mem_of_getElem? hlayer
    split_ifs at hhook
    · exact Or.inl (hP.layerAnalyze layer hmem hook hhook w flow trial hs)
    · exact Or.inl (hP.layerGenerate layer hmem hook hhook w flow trial hs)

omit hP in
lemma hooks {hooks : List (Option (World σ → ℤ × World σ))}
    (hhooks : ∀ o ∈ hooks, ∀ hook ∈ o, ∀ w, Inv w.plug → Inv (hook w).2.plug) {w : World σ}
    (hw : Inv w.plug) : Inv (callHooks hooks w).2.plug := by
  induction hooks generalizing w with
  | nil => exact hw
  | cons o hooks ih =>
    have hrest := fun {w : World σ} => @ih (fun o ho => hhooks o (List.mem_cons_of_mem _ ho)) w
    cases o with
    | none => exact hrest hw
    | some hook =>
      have hcall := hhooks (some hook) List.mem_cons_self hook rfl w hw
      unfold callHooks
      dsimp only
      split_ifs
      · exact hcall
      · exact hrest hcall

lemma restart (hs : Inv s.world.plug) : Inv (sessionRestart P s).2.world.plug := by
  have hfini : Inv (callHooks (P.lstack.reverse.map Layer.fini) s.world).2.plug := by
    apply hooks _ hs
    intro o ho hook hhook
    obtain ⟨layer, hlayer, rfl⟩ := List.mem_map.mp ho
    exact hP.layerFini layer (List.mem_reverse.mp hlayer) hook hhook
  have hinit : ∀ w, Inv w.plug → Inv (callHooks (P.lstack.map Layer.init) w).2.plug := by
    intro w hw
    apply hooks _ hw
    intro o ho hook hhook
    obtain ⟨layer, hlayer, rfl⟩ := List.mem_map.mp ho
    exact hP.layerInit layer hlayer hook hhook
  unfold sessionRestart
  dsimp only
  split_ifs with hret hret'
  · exact hfini
  · cases hstrategy : P.strategyInit with
    | none => exact hfini
    | some strategyInit => exact hP.init strategyInit hstrategy _ hfini
  · cases hstrategy : P.strategyInit with
    | none => exact hinit _ hfini
    | some strategyInit => exact hinit _ (hP.init strategyInit hstrategy _ hfini)

/-- One event of the main loop. -/
theorem event [Top W] {e : Event W} {alive : Bool} {reply : Option (Reply V)} (hs : Inv s.world.plug)
    (h : sessEvent P fuel s e = some (alive, s', reply)) : Inv s'.world.plug := by
  apply hP.guards.event hs _ h
  intro s₁ hs₁ _
  exact hP.restart hs₁

/-- What every call keeps holds after any run. -/
theorem run [Top W] {es : List (Event W)} (hs : Inv s.world.plug) (h : sessRun P fuel s es = some s') :
    Inv s'.world.plug := by
  induction es generalizing s with
  | nil =>
    cases h
    exact hs
  | cons e es ih =>
    rw [sessRun] at h
    split at h
    · rename_i s₁ reply hevent
      exact ih (hP.event hs hevent) h
    · cases h

end Plugins.Keeps

end ActiveHarmony

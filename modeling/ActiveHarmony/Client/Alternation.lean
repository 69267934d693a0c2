import ActiveHarmony.Client.BestPoint
import ActiveHarmony.Session.Queue

/-!
# Clients that fetch and report

Clients that alternate `harmony_fetch` and `harmony_report` still get the error of a rouge point: the
session remembers one `paused_id` for all of them, and a client may report another best point than
the one it was sent. `report_answered` says in which runs every report is answered with OK.
-/

namespace ActiveHarmony

variable {σ V W : Type}

/-! ## What the core does on its own -/

/-- An act that does not answer a request of a client. -/
def Act.Internal : Act → Prop
  | .deliver _ _ => False
  | .busy _ => False
  | .report _ _ => False
  | .raised e => e ≠ .rougePoint
  | _ => True

lemma raised_internal {e : CoreError} (h : e ≠ .rougePoint) : (Act.raised e).Internal := h

/-- A plug-in failed, or its answer was not legal. -/
def Act.Fails : Act → Prop
  | .layer _ _ ret _ => ret ≠ 0
  | .rejected _ _ ret _ _ => ret ≠ 0
  | .analyzed _ ret => ret ≠ 0
  | .raised e => e = .invalidStatus ∨ e = .rejectInAnalysis
  | _ => False

/-- A queue of the core is full. -/
def Act.Overflows : Act → Prop
  | .raised e => e = .readyOverflow ∨ e = .waitAppend
  | _ => False

/-- From `s` the core went to `s'` on its own, and if `ret` is an error something caused it. -/
structure Works (s : Sess σ V W) (ret : ℤ) (s' : Sess σ V W) : Prop where
  pausedId : s'.pausedId = s.pausedId
  acts : ∃ acts, s'.trace = s.trace ++ acts ∧ (∀ a ∈ acts, a.Internal) ∧
    (ret < 0 → ∃ a ∈ acts, a.Fails ∨ a.Overflows)

variable {P : Plugins σ V W} {s s' s'' : Sess σ V W} {i : ℕ} {ret r : ℤ}

lemma Works.of_eq (hpaused : s'.pausedId = s.pausedId) (htrace : s'.trace = s.trace) (hret : 0 ≤ ret) :
    Works s ret s' where
  pausedId := hpaused
  acts := ⟨[], by rw [htrace, List.append_nil], fun _ ha => absurd ha List.not_mem_nil,
    fun hneg => absurd hneg (not_lt.mpr hret)⟩

/-- One act. -/
lemma Works.of_act {a : Act} (hpaused : s'.pausedId = s.pausedId) (htrace : s'.trace = s.trace ++ [a])
    (ha : a.Internal) (hret : ret < 0 → a.Fails ∨ a.Overflows) : Works s ret s' where
  pausedId := hpaused
  acts := by
    refine ⟨[a], htrace, fun b hb => ?_, fun hneg => ⟨a, List.mem_singleton_self a, hret hneg⟩⟩
    rw [List.mem_singleton.mp hb]
    exact ha

lemma Works.trans (h : Works s r s') (h' : Works s' ret s'') : Works s ret s'' where
  pausedId := h'.pausedId.trans h.pausedId
  acts := by
    rcases h.acts with ⟨acts, htrace, hinternal, -⟩
    rcases h'.acts with ⟨acts', htrace', hinternal', hcause⟩
    refine ⟨acts ++ acts', by rw [htrace', htrace, List.append_assoc], fun a ha => ?_, fun hneg => ?_⟩
    · exact (List.mem_append.mp ha).elim (hinternal a) (hinternal' a)
    · rcases hcause hneg with ⟨a, ha, hwhy⟩
      exact ⟨a, List.mem_append_right acts ha, hwhy⟩

/-- What caused one error causes another. -/
lemma Works.of_cause (h : Works s r s') (hret : ret < 0 → r < 0) : Works s ret s' where
  pausedId := h.pausedId
  acts := by
    rcases h.acts with ⟨acts, htrace, hinternal, hcause⟩
    exact ⟨acts, htrace, hinternal, fun hneg => hcause (hret hneg)⟩

lemma handleWait_works (h : handleWait s i = some (ret, s')) : Works s ret s' ∧ ret ≤ 0 := by
  rcases handleWait_cases h with ⟨cell, -, -, rfl, rfl⟩ | ⟨-, rfl, rfl⟩
  · exact ⟨Works.of_act rfl rfl (raised_internal (by decide)) fun _ => Or.inr (Or.inr rfl), by decide⟩
  · exact ⟨Works.of_eq rfl rfl (le_refl _), le_refl _⟩

lemma handleReject_works (h : handleReject P s i = some (ret, s')) : Works s ret s' ∧ ret ≤ 0 := by
  rcases handleReject_cases h with ⟨-, rfl, rfl⟩ | ⟨trial, r, world, flow, point, -, -, -, hres⟩
  · exact ⟨Works.of_act rfl rfl (raised_internal (by decide)) fun _ => Or.inl (Or.inr rfl), by decide⟩
  · rcases hres with ⟨hr, rfl, rfl⟩ | ⟨-, -, rfl, rfl⟩ | ⟨-, -, rfl, rfl⟩
    · exact ⟨Works.of_act rfl rfl trivial fun _ => Or.inl hr, by decide⟩
    all_goals exact ⟨Works.of_act rfl rfl trivial fun hneg => absurd hneg (by decide), le_refl _⟩

lemma workflowTransition_works (h : workflowTransition P s i = some (ret, s')) : Works s ret s' := by
  rcases workflowTransition_cases h with ⟨-, rfl, rfl⟩ | ⟨-, rfl, rfl⟩ | ⟨-, rfl, rfl⟩ |
    ⟨-, r, hwait, hret⟩ | ⟨-, r, s₁, hreject, hres⟩
  · exact Works.of_eq rfl rfl (le_refl _)
  · exact Works.of_eq rfl rfl (le_refl _)
  · exact Works.of_act rfl rfl (raised_internal (by decide)) fun _ => Or.inl (Or.inl rfl)
  · rcases handleWait_works hwait with ⟨hworks, hle⟩
    exact hworks.of_cause fun hneg => by omega
  · rcases handleReject_works hreject with ⟨hworks, hle⟩
    rcases hres with ⟨hr, rfl, rfl⟩ | ⟨-, -, rfl, rfl⟩ | ⟨-, -, rfl, rfl⟩
    · exact hworks.of_cause fun _ => lt_of_le_of_ne hle hr
    · exact hworks.of_cause fun hneg => absurd hneg (by decide)
    · have hback : Works s r { s₁ with currLayer := 1 } := ⟨hworks.pausedId, hworks.acts⟩
      exact hback.of_cause fun hneg => absurd hneg (by decide)

lemma callLayer_works (h : callLayer P s i = some (ret, s')) : s'.pausedId = s.pausedId ∧
    ∃ c st, s'.trace = s.trace ++ [.layer c i ret st] := by
  rcases callLayer_cases h with ⟨layer, trial, -, -, ⟨-, rfl, rfl⟩ | ⟨hook, world, flow, perf, -, -, rfl⟩⟩
  · exact ⟨rfl, _, _, rfl⟩
  · exact ⟨rfl, _, _, rfl⟩

lemma finishWorkflow_works (h : finishWorkflow P s i = some (ret, s'))
    (hc : ¬ (s.currLayer ≠ 0 ∧ s.currLayer ≤ P.lstack.length)) : Works s ret s' ∧ ret ≤ 0 := by
  rcases finishWorkflow_cases h with ⟨-, trial, r, world, -, -, hres⟩ | ⟨-, cell, -, hres⟩ | ⟨hne, hle, -, -⟩
  · rcases hres with ⟨hr, rfl, rfl⟩ | ⟨-, rfl, rfl⟩
    · exact ⟨Works.of_act rfl rfl trivial fun _ => Or.inl hr, by decide⟩
    · exact ⟨Works.of_act rfl rfl trivial fun hneg => absurd hneg (by decide), le_refl _⟩
  · rcases hres with ⟨-, rfl, rfl⟩ | ⟨-, rfl, rfl⟩
    · exact ⟨Works.of_act rfl rfl (raised_internal (by decide)) fun _ => Or.inr (Or.inl rfl), by decide⟩
    · exact ⟨Works.of_act rfl rfl trivial fun hneg => absurd hneg (by decide), le_refl _⟩
  · exact absurd ⟨hne, not_lt.mp hle⟩ hc

theorem pluginWorkflow_works (fuel : ℕ) (h : pluginWorkflow P fuel s i = some (ret, s')) :
    Works s ret s' ∧ ret ≤ 0 := by
  induction fuel generalizing s with
  | zero => cases h
  | succ fuel ih =>
    rw [pluginWorkflow] at h
    by_cases hc : s.currLayer ≠ 0 ∧ s.currLayer ≤ P.lstack.length
    · rw [if_pos hc] at h
      rcases Option.bind_eq_some_iff.mp h with ⟨⟨r, s₁⟩, hcall, h⟩
      rcases callLayer_works hcall with ⟨hpaused, c, st, htrace⟩
      have hlayer : ∀ ret : ℤ, (ret < 0 → r ≠ 0) → Works s ret s₁ :=
        fun ret hret => Works.of_act hpaused htrace trivial fun hneg => Or.inl (hret hneg)
      dsimp only at h
      split_ifs at h with hr
      · cases h
        exact ⟨hlayer _ fun _ => hr, by decide⟩
      · have hcalled := hlayer 0 fun hneg => absurd hneg (by decide)
        rcases Option.bind_eq_some_iff.mp h with ⟨⟨r', s₂⟩, htrans, h⟩
        have hmoved := hcalled.trans (workflowTransition_works htrans)
        dsimp only at h
        split_ifs at h with hneg hpos
        · cases h
          exact ⟨hmoved.of_cause fun _ => hneg, by decide⟩
        · cases h
          exact ⟨hmoved.of_cause fun hlt => absurd hlt (by decide), le_refl _⟩
        · exact ⟨hmoved.trans (ih h).1, (ih h).2⟩
    · rw [if_neg hc] at h
      exact finishWorkflow_works h hc

lemma Works.quiet (h : Works s r s') : Works s 0 s' := h.of_cause fun hneg => absurd hneg (by decide)

lemma generateTrial_works [Top W] {fuel : ℕ} (h : generateTrial P fuel s = some (ret, s')) :
    Works s 0 s' := by
  obtain ⟨-, -, rfl⟩ | ⟨trial, r, world, flow, point, s₁, -, -, rfl, hres⟩ := generateTrial_cases h
  · exact Works.of_act rfl rfl (raised_internal (by decide)) fun hneg => absurd hneg (by decide)
  · obtain ⟨-, -, rfl⟩ | ⟨-, -, -, rfl⟩ | ⟨-, -, hworkflow⟩ := hres
    · exact Works.of_act rfl rfl trivial fun hneg => absurd hneg (by decide)
    · exact Works.of_act rfl rfl trivial fun hneg => absurd hneg (by decide)
    · refine Works.trans (r := 0) ?_ (pluginWorkflow_works fuel hworkflow).1.quiet
      exact Works.of_act rfl rfl trivial fun hneg => absurd hneg (by decide)

lemma handleCallback_works {fuel : ℕ} {cb : Callback σ V W}
    (h : handleCallback P fuel s cb = some (ret, s')) : Works s 0 s' := by
  obtain ⟨-, -, rfl⟩ | ⟨trials, idx, world, flow, perfs, cell, s₁, r, s₂, -, -, -, -, rfl, htrans, hres⟩ :=
    handleCallback_cases h
  · exact Works.of_act rfl rfl (raised_internal (by decide)) fun hneg => absurd hneg (by decide)
  · have hmoved : Works s 0 s₂ := by
      refine Works.trans (r := 0) ?_ (workflowTransition_works htrans).quiet
      exact Works.of_act rfl rfl trivial fun hneg => absurd hneg (by decide)
    obtain ⟨-, -, rfl⟩ | ⟨-, -, rfl⟩ | ⟨-, hworkflow⟩ := hres
    · exact hmoved
    · exact hmoved
    · -- only the wait list is different
      have hleft := (pluginWorkflow_works fuel hworkflow).1.quiet
      have hrest : Works s₂ 0 s' := ⟨hleft.pausedId, hleft.acts⟩
      exact hmoved.trans hrest

/-- An event without a request. -/
lemma sessEvent_works [Top W] {fuel : ℕ} {e : Event W} {alive : Bool} {reply : Option (Reply V)}
    (hevent : ∀ srcId req, e ≠ .mesg srcId req) (h : sessEvent P fuel s e = some (alive, s', reply)) :
    Works s 0 s' ∧ alive = true := by
  cases e with
  | top =>
    cases h
    exact ⟨Works.of_eq rfl rfl (le_refl _), rfl⟩
  | callback j =>
    rcases Option.bind_eq_some_iff.mp h with ⟨cb, -, h⟩
    rcases Option.bind_eq_some_iff.mp h with ⟨⟨r', s₁⟩, hcall, h⟩
    cases h
    exact ⟨handleCallback_works hcall, rfl⟩
  | mesg srcId req => exact absurd rfl (hevent srcId req)
  | generate =>
    unfold sessEvent at h
    split_ifs at h
    rcases Option.bind_eq_some_iff.mp h with ⟨⟨r', s₁⟩, hgen, h⟩
    cases h
    exact ⟨generateTrial_works hgen, rfl⟩

/-! ## Requests -/

lemma handleFetch_replies {reply : Reply V} (h : handleFetch P s = some (ret, s', reply)) :
    (ret = 0 ∧ s'.pausedId = s.pausedId ∧ s'.ids = s.ids ∧ ∃ i trial, s.pending[i]? = some trial ∧
      s'.trace = s.trace ++ [.deliver i trial.point.id] ∧ reply = .point .ok (hpointCopy trial.point)) ∨
    ret ≠ 0 ∨
    (ret = 0 ∧ s'.ids = s.ids ∧ ∃ pt, s'.pausedId = pt.id ∧ s'.trace = s.trace ++ [.busy pt.id] ∧
      reply = .point .busy pt) := by
  obtain ⟨idx, -, ⟨trial, -, htrial, rfl, rfl, rfl⟩ |
    ⟨r, world, pt, -, ⟨-, rfl, rfl⟩ | ⟨-, rfl, rfl, rfl⟩⟩⟩ := handleFetch_cases h
  · exact Or.inl ⟨rfl, rfl, rfl, idx.toNat, trial, htrial, rfl, rfl⟩
  · exact Or.inr (Or.inl (by decide))
  · exact Or.inr (Or.inr ⟨rfl, rfl, _, rfl, rfl, rfl⟩)

lemma handleReport_replies {fuel : ℕ} {candId : ℤ} {perf : HPerf W} {reply : Reply V}
    (h : handleReport P fuel s candId perf = some (ret, s', reply)) :
    (candId ∉ s.ids ∧ candId ≠ s.pausedId) ∨
    (candId ∉ s.ids ∧ candId = s.pausedId ∧ ret = 0 ∧ s'.pausedId = s.pausedId ∧ s'.ids = s.ids ∧
      s'.trace = s.trace ++ [.report candId none] ∧ reply = .ok) ∨
    (candId ∈ s.ids ∧ s'.pausedId = 0 ∧ reply = .ok ∧ ∃ i acts,
      s'.trace = s.trace ++ .report candId (some i) :: acts ∧ (∀ a ∈ acts, a.Internal) ∧
      (ret ≠ 0 → ∃ a ∈ acts, a.Fails ∨ a.Overflows)) := by
  obtain ⟨rfl, ⟨hnot, ⟨hpaused, rfl, rfl⟩ | ⟨hne, -, -⟩⟩ | ⟨trial, r, htrial, hworkflow, hret⟩⟩ :=
    handleReport_cases h
  · exact Or.inr (Or.inl ⟨hnot, hpaused, rfl, rfl, rfl, rfl, rfl⟩)
  · exact Or.inl ⟨hnot, hne⟩
  · rcases pluginWorkflow_works fuel hworkflow with ⟨⟨hpaused, acts, htrace, hinternal, hcause⟩, hle⟩
    have hmem : candId ∈ s.ids := by
      have hid := found_id rfl (show s.ids.findIdx (· = candId) < s.ids.length by
        rw [ids_length]
        exact (List.getElem?_eq_some_iff.mp htrial).1)
      exact List.mem_of_getElem? hid
    refine Or.inr (Or.inr ⟨hmem, hpaused, rfl, s.ids.findIdx (· = candId), acts, ?_, hinternal, ?_⟩)
    · rw [htrace]
      exact List.append_assoc _ _ _
    · intro hne
      have hr : r ≠ 0 := by
        intro hzero
        rw [if_neg (not_not.mpr hzero)] at hret
        exact hne hret
      exact hcause (lt_of_le_of_ne hle hr)

/-! ## Ids -/

variable {pre acts trace : List Act} {a : Act} {b : ℤ} {n : ℕ} {L L' : Ledger}

/-- The strategy gives every point an id that no other slot has and that was not the id of a best
point when one was sent, and callbacks answer ACCEPT, RETURN or RETRY. -/
def Answers (pre : List Act) : Act → Prop
  | .generate i ids ret st id => Gives i ids ret st id ∧ (ret = 0 ∧ st ≠ .wait → .busy id ∉ pre)
  | .rejected i ids ret st id => Gives i ids ret st id ∧ (ret = 0 ∧ st ≠ .wait → .busy id ∉ pre)
  | .callback _ _ _ st => st = .accept ∨ st = .ret ∨ st = .retry
  | _ => True

lemma Answers.contract (h : Answers pre a) (ha : a.Internal) : Contract pre a := by
  cases a with
  | generate => exact h.1
  | rejected => exact h.1
  | callback => exact h
  | report => exact ha.elim
  | _ => trivial

lemma Along.append {ok : List Act → Act → Prop} (h : Along ok trace)
    (hacts : ∀ pre a post, acts = pre ++ a :: post → ok (trace ++ pre) a) : Along ok (trace ++ acts) := by
  induction acts using List.reverseRecOn with
  | nil =>
    rw [List.append_nil]
    exact h
  | append_singleton acts a ih =>
    rw [← List.append_assoc]
    refine (ih fun pre b post heq => ?_).concat (hacts acts a [] rfl)
    exact hacts pre b (post ++ [a]) (by rw [heq, List.append_assoc, List.cons_append])

lemma Along.mem {ok : List Act → Act → Prop} (h : Along ok (trace ++ acts)) {pre post : List Act}
    (heq : acts = pre ++ a :: post) : ok (trace ++ pre) a :=
  h (trace ++ pre) a post (by rw [heq, List.append_assoc])

/-- Acts of the core alone keep the contract. -/
lemma contract_append (h : Along Contract trace) (hanswers : Along Answers (trace ++ acts))
    (hinternal : ∀ a ∈ acts, a.Internal) : Along Contract (trace ++ acts) := by
  refine h.append fun pre a post heq => (hanswers.mem heq).contract (hinternal a ?_)
  rw [heq]
  exact List.mem_append_right pre List.mem_cons_self

lemma owed_append (hinternal : ∀ a ∈ acts, a.Internal) : owed (trace ++ acts) = owed trace := by
  induction acts using List.reverseRecOn with
  | nil => rw [List.append_nil]
  | append_singleton acts a ih =>
    have ha := hinternal a (List.mem_append_right acts (List.mem_singleton_self a))
    rw [← List.append_assoc, owed_concat,
      ih fun b hb => hinternal b (List.mem_append_left [a] hb)]
    cases a with
    | deliver => exact ha.elim
    | report => exact ha.elim
    | _ => rfl

/-- The id of a best point that was sent is not given to a slot. -/
lemma Gives.not_mem {i : ℕ} {ids : List ℤ} {ret id : ℤ} {st : FlowStatus} (h : Gives i ids ret st id)
    (hfresh : ret = 0 ∧ st ≠ .wait → .busy id ∉ pre) (hb : .busy b ∈ pre) (hnot : b ∉ ids) :
    b ∉ ids.set i id := by
  by_cases hgo : ret = 0 ∧ st ≠ .wait
  · intro hmem
    rcases List.mem_or_eq_of_mem_set hmem with hmem | rfl
    · exact hnot hmem
    · exact hfresh hgo hb
  · rw [h.ids_eq hgo]
    exact hnot

lemma Ledger.Run.not_mem (hrun : L.Run n acts L') (hanswers : Along Answers (trace ++ acts))
    (hb : .busy b ∈ trace) (hne : b ≠ -1) (hnot : b ∉ L.ids) : b ∉ L'.ids := by
  induction hrun with
  | nil => exact hnot
  | @snoc acts as L' L'' hrun hstep ih =>
    rw [← List.append_assoc] at hanswers
    have hb' : ∀ acts : List Act, .busy b ∈ trace ++ acts := fun acts => List.mem_append_left acts hb
    have hprev := ih hanswers.left
    cases hstep with
    | generateFail | generateWait | generateGo | rejectedFail | rejectedWait | rejectedGo =>
      exact hanswers.last.1.not_mem hanswers.last.2 (hb' acts) hprev
    | analyzed =>
      intro hmem
      rcases List.mem_or_eq_of_mem_set hmem with hmem | heq
      · exact hprev hmem
      · exact hne heq
    | _ => exact hprev

/-! ## Who owes what -/

/-- A client with no newer best point takes the one that it is sent, or already has one of that id. -/
lemma HDesc.updateBest_id {h : HDesc V} {pt : HPoint V} (hnewer : h.best.id ≤ pt.id) :
    (h.updateBest pt).best.id = pt.id := by
  unfold updateBest
  by_cases hge : h.best.id ≥ pt.id
  · rw [if_pos hge]
    exact le_antisymm hnewer hge
  · rw [if_neg hge]
    exact hpointCopy_id pt

lemma HDesc.updateBest_state (h : HDesc V) (pt : HPoint V) : (h.updateBest pt).state = h.state := by
  unfold updateBest
  split_ifs <;> rfl

/-- The client has to report. -/
def HDesc.Testing (h : HDesc V) : Prop := h.state = .testing

/-- The point to report is a trial that was fetched, or it is the best point that the session sent
last and no slot has its id. -/
def Owes (s : Sess σ V W) (id : ℤ) : Prop :=
  id ∈ owed s.trace ∨ id ∉ s.ids ∧ id = s.pausedId ∧ id ≠ -1 ∧ .busy id ∈ s.trace

/-- The invariant: reports are expected, and different clients report different trials. -/
structure Settled (P : Plugins σ V W) [Top W] (s : Sess σ V W) (clients : ℕ → HDesc V) : Prop where
  reach : Reachable P true s
  contract : Along Contract s.trace
  owes : ∀ c, (clients c).Testing → Owes s (clients c).curr.id
  apart : ∀ c d, c ≠ d → (clients c).Testing → (clients d).Testing →
    (clients c).curr.id ∈ owed s.trace → (clients c).curr.id ≠ (clients d).curr.id
  calm : .raised .rougePoint ∉ s.trace

variable [Top W] {clients : ℕ → HDesc V} {c : ℕ} {id : ℤ}

/-- Under the contract no queue overflows. -/
lemma Reachable.not_overflows {alive : Bool} (h : Reachable P alive s) (hok : Along Contract s.trace)
    (ha : a ∈ s.trace) : ¬ a.Overflows := by
  rcases (h.owned hok).1 with ⟨q, lost, haccounted⟩
  cases a with
  | raised e => exact fun hfull => haccounted.safe e ha (Or.inr hfull)
  | _ => exact id

/-- Ids that clients owe are ids of slots. -/
lemma Settled.mem_ids (h : Settled P s clients) (hid : id ∈ owed s.trace) : id ∈ s.ids := by
  rcases ((h.reach.owned h.contract).2.1.mem_iff id).mp hid with ⟨i, -, hi⟩
  exact List.mem_of_getElem? hi

/-- A trial whose id a slot has is owed as a trial. -/
lemma Settled.owed_of_mem (h : Settled P s clients) (hc : (clients c).Testing)
    (hmem : (clients c).curr.id ∈ s.ids) : (clients c).curr.id ∈ owed s.trace :=
  (h.owes c hc).resolve_right fun hbest => hbest.1 hmem

/-- A client changes. -/
lemma Settled.update (h : Settled P s clients) {desc : HDesc V}
    (howes : desc.Testing → Owes s desc.curr.id ∧ ∀ d ≠ c, (clients d).Testing →
      desc.curr.id ∈ owed s.trace ∨ (clients d).curr.id ∈ owed s.trace →
      desc.curr.id ≠ (clients d).curr.id) : Settled P s (Function.update clients c desc) where
  reach := h.reach
  contract := h.contract
  owes := by
    intro d
    by_cases hd : d = c
    · subst hd
      rw [Function.update_self]
      exact fun ht => (howes ht).1
    · rw [Function.update_of_ne hd]
      exact h.owes d
  apart := by
    intro d e hde
    by_cases hd : d = c
    · subst hd
      rw [Function.update_self, Function.update_of_ne (Ne.symm hde)]
      exact fun hdt het hmem => (howes hdt).2 e (Ne.symm hde) het (Or.inl hmem)
    · by_cases he : e = c
      · subst he
        rw [Function.update_self, Function.update_of_ne hd]
        exact fun hdt het hmem => Ne.symm ((howes het).2 d hd hdt (Or.inr hmem))
      · rw [Function.update_of_ne hd, Function.update_of_ne he]
        exact h.apart d e hde
  calm := h.calm

/-- A client that is not testing, or goes on testing the same point. -/
lemma Settled.update_same (h : Settled P s clients) {desc : HDesc V}
    (hdesc : desc.Testing → (clients c).Testing ∧ desc.curr = (clients c).curr) :
    Settled P s (Function.update clients c desc) := by
  refine h.update fun ht => ?_
  rcases hdesc ht with ⟨hc, hcurr⟩
  rw [hcurr]
  refine ⟨h.owes c hc, fun d hd hdt hmem => ?_⟩
  rcases hmem with hmem | hmem
  · exact h.apart c d (Ne.symm hd) hc hdt hmem
  · exact Ne.symm (h.apart d c hd hdt hc hmem)

/-- The core goes on on its own. -/
lemma Settled.works (h : Settled P s clients) {fuel : ℕ} {e : Event W} {alive : Bool}
    {reply : Option (Reply V)} (hevent : ∀ srcId req, e ≠ .mesg srcId req)
    (hstep : sessEvent P fuel s e = some (alive, s', reply)) (hanswers : Along Answers s'.trace) :
    Settled P s' clients := by
  rcases sessEvent_works hevent hstep with ⟨hworks, rfl⟩
  rcases hworks.acts with ⟨acts, htrace, hinternal, -⟩
  rcases sessEvent_follows hstep with ⟨acts', htrace', hrun⟩
  obtain rfl : acts = acts' := List.append_cancel_left (htrace.symm.trans htrace')
  have howed : owed s'.trace = owed s.trace := by rw [htrace, owed_append hinternal]
  refine ⟨h.reach.step hstep, ?_, fun c hc => ?_, ?_, ?_⟩
  · rw [htrace] at hanswers ⊢
    exact contract_append h.contract hanswers hinternal
  · unfold Owes
    rw [howed, hworks.pausedId, htrace]
    rcases h.owes c hc with howes | ⟨hnot, hpaused, hne, hbusy⟩
    · exact Or.inl howes
    · rw [htrace] at hanswers
      exact Or.inr ⟨hrun.not_mem hanswers hbusy hne hnot, hpaused, hne, List.mem_append_left acts hbusy⟩
  · rw [howed]
    exact h.apart
  · rw [htrace, List.mem_append]
    rintro (hmem | hmem)
    · exact h.calm hmem
    · exact hinternal _ hmem rfl

lemma calm_append (h : .raised .rougePoint ∉ trace) {as : List Act}
    (has : ∀ a ∈ as, a ≠ .raised .rougePoint) : .raised .rougePoint ∉ trace ++ as := by
  rw [List.mem_append]
  rintro (hmem | hmem)
  · exact h hmem
  · exact has _ hmem rfl

/-- A client fetches a trial. -/
lemma Settled.deliver (h : Settled P s clients) (hreach : Reachable P true s')
    (htrace : s'.trace = s.trace ++ [.deliver i id]) (hids : s'.ids = s.ids)
    (hpaused : s'.pausedId = s.pausedId) (hid : id ∈ s.ids) {desc : HDesc V}
    (hdesc : desc.Testing → desc.curr.id = id) :
    Settled P s' (Function.update clients c desc) := by
  have howed : owed s'.trace = id :: owed s.trace := by rw [htrace, owed_concat]; rfl
  have hcontract : Along Contract s'.trace := by
    rw [htrace]
    exact h.contract.concat trivial
  have hfresh : id ∉ owed s.trace := by
    have hnodup := (hreach.owned hcontract).2.1.nodup
    rw [howed] at hnodup
    exact (List.nodup_cons.mp hnodup).1
  -- nobody else has this trial, or a best point with its id
  have hother : ∀ d, (clients d).Testing → (clients d).curr.id ≠ id := by
    rintro d hd rfl
    exact hfresh (h.owed_of_mem hd hid)
  have hmoved : Settled P s' clients := by
    refine ⟨hreach, hcontract, fun d hd => ?_, fun d e hde hd he hmem => ?_, ?_⟩
    · unfold Owes
      rw [howed, hids, hpaused, htrace]
      rcases h.owes d hd with howes | ⟨hnot, hlast, hne, hbusy⟩
      · exact Or.inl (List.mem_cons_of_mem id howes)
      · exact Or.inr ⟨hnot, hlast, hne, List.mem_append_left _ hbusy⟩
    · rw [howed] at hmem
      exact h.apart d e hde hd he ((List.mem_cons.mp hmem).resolve_left (hother d hd))
    · rw [htrace]
      refine calm_append h.calm fun a ha => ?_
      rw [List.mem_singleton.mp ha]
      nofun
  refine hmoved.update fun ht => ?_
  rw [hdesc ht]
  refine ⟨Or.inl (by rw [howed]; exact List.mem_cons_self), fun d _ hd _ => Ne.symm (hother d hd)⟩

/-- A client is sent the best point. -/
lemma Settled.busy (h : Settled P s clients) (hreach : Reachable P true s')
    (htrace : s'.trace = s.trace ++ [.busy b]) (hids : s'.ids = s.ids) (hpaused : s'.pausedId = b)
    (hother : ∀ d, (clients d).Testing → (clients d).curr.id ∈ s.ids ∨ (clients d).curr.id = b)
    {desc : HDesc V} (hdesc : desc.Testing → desc.curr.id = b ∧ b ≠ -1 ∧ b ∉ s.ids) :
    Settled P s' (Function.update clients c desc) := by
  have howed : owed s'.trace = owed s.trace := by rw [htrace, owed_concat]; rfl
  have hsent : .busy b ∈ s'.trace := by
    rw [htrace]
    exact List.mem_append_right _ (List.mem_singleton_self _)
  have hmoved : Settled P s' clients := by
    refine ⟨hreach, ?_, fun d hd => ?_, ?_, ?_⟩
    · rw [htrace]
      exact h.contract.concat trivial
    · unfold Owes
      rw [howed, hids, hpaused]
      rcases h.owes d hd with howes | ⟨hnot, -, hne, -⟩
      · exact Or.inl howes
      · have hsame := (hother d hd).resolve_left hnot
        rw [hsame] at hnot hne ⊢
        exact Or.inr ⟨hnot, rfl, hne, hsent⟩
    · rw [howed]
      exact h.apart
    · rw [htrace]
      refine calm_append h.calm fun a ha => ?_
      rw [List.mem_singleton.mp ha]
      nofun
  refine hmoved.update fun ht => ?_
  rcases hdesc ht with ⟨hcurr, hne, hnot⟩
  rw [hcurr]
  refine ⟨Or.inr ⟨by rw [hids]; exact hnot, hpaused.symm, hne, hsent⟩, fun d _ hd hmem => ?_⟩
  rw [howed] at hmem
  rintro rfl
  exact hnot (h.mem_ids (hmem.elim id id))

/-- The best point is reported. -/
lemma Settled.reportNone (h : Settled P s clients) (hreach : Reachable P true s')
    (htrace : s'.trace = s.trace ++ [.report id none]) (hids : s'.ids = s.ids)
    (hpaused : s'.pausedId = s.pausedId) (hid : id ∉ s.ids) : Settled P s' clients := by
  have howed : owed s'.trace = owed s.trace := by
    rw [htrace, owed_concat]
    exact List.erase_of_not_mem fun hmem => hid (h.mem_ids hmem)
  refine ⟨hreach, ?_, fun d hd => ?_, ?_, ?_⟩
  · rw [htrace]
    exact h.contract.concat trivial
  · unfold Owes
    rw [howed, hids, hpaused, htrace]
    rcases h.owes d hd with howes | ⟨hnot, hlast, hne, hbusy⟩
    · exact Or.inl howes
    · exact Or.inr ⟨hnot, hlast, hne, List.mem_append_left _ hbusy⟩
  · rw [howed]
    exact h.apart
  · rw [htrace]
    refine calm_append h.calm fun a ha => ?_
    rw [List.mem_singleton.mp ha]
    nofun

/-- The acts while a trial is reported keep the contract. -/
lemma Settled.report_contract (h : Settled P s clients)
    (htrace : s'.trace = s.trace ++ .report id (some i) :: acts) (hinternal : ∀ a ∈ acts, a.Internal)
    (hanswers : Along Answers s'.trace) (hid : id ∈ owed s.trace) : Along Contract s'.trace := by
  rw [htrace, List.append_cons] at hanswers ⊢
  exact contract_append (h.contract.concat hid) hanswers hinternal

/-- A trial is reported, and all that clients still have to report are trials. -/
lemma Settled.report (h : Settled P s clients) (hreach : Reachable P true s')
    (htrace : s'.trace = s.trace ++ .report id (some i) :: acts) (hinternal : ∀ a ∈ acts, a.Internal)
    (hanswers : Along Answers s'.trace) (hid : id ∈ owed s.trace)
    (hother : ∀ d, (clients d).Testing →
      (clients d).curr.id ∈ owed s.trace ∧ (clients d).curr.id ≠ id) : Settled P s' clients := by
  have howed : owed s'.trace = (owed s.trace).erase id := by
    rw [htrace, List.append_cons, owed_append hinternal, owed_concat]
    rfl
  refine ⟨hreach, h.report_contract htrace hinternal hanswers hid, fun d hd => ?_,
    fun d e hde hd he hmem => ?_, ?_⟩
  · left
    rw [howed]
    exact (List.mem_erase_of_ne (hother d hd).2).mpr (hother d hd).1
  · exact h.apart d e hde hd he (hother d hd).1
  · rw [htrace]
    refine calm_append h.calm fun a ha => ?_
    rcases List.mem_cons.mp ha with rfl | ha
    · nofun
    · rintro rfl
      exact hinternal _ ha rfl

/-! ## Runs -/

namespace Tuning

/-- The client `c` has to report. -/
def Testing (t : Tuning σ V W) (c : ℕ) : Prop := (t.clients c).Testing

/-- Clients join, and then alternate `harmony_fetch` and, where it returned 1, `harmony_report`. Nobody
else sends requests. -/
def Alternates (t : Tuning σ V W) : Happening V W → Prop
  | .inl (_, .join _ _) => True
  | .inl (c, .fetch) => ¬ t.Testing c
  | .inl (c, .report _) => t.Testing c
  | .inl (_, .best) => False
  | .inl (_, .leave) => False
  | .inr (.mesg _ _) => False
  | .inr _ => True

/-- The step to `t'` is careful. Where the session sends the best point, with the id `b`, the client
has no newer one, no slot has that id, and nobody has to report another best point. While a client
has to report a best point, nobody reports a trial, and no plug-in fails when a trial is reported. -/
def Careful (t t' : Tuning σ V W) : Happening V W → Prop
  | .inl (c, .fetch) => ∀ b, t'.sess.trace = t.sess.trace ++ [.busy b] →
      (t.clients c).best.id ≤ b ∧ (b ≠ -1 → b ∉ t.sess.ids) ∧
        ∀ d, t.Testing d → (t.clients d).curr.id ∈ t.sess.ids ∨ (t.clients d).curr.id = b
  | .inl (c, .report _) => (t.clients c).curr.id ∈ t.sess.ids →
      (∀ d ≠ c, t.Testing d → (t.clients d).curr.id ∈ t.sess.ids) ∧
        ∀ acts, t'.sess.trace = t.sess.trace ++ acts → ∀ a ∈ acts, ¬ a.Fails
  | _ => True

/-- One call or event. -/
def happen (P : Plugins σ V W) (fuel : ℕ) (t : Tuning σ V W) : Happening V W → Option (Tuning σ V W)
  | .inl (c, r) => (t.call P fuel c r).map Prod.snd
  | .inr e => t.sessionEvent P fuel e

/-- The states that are reached by alternating as long as the session goes on, where all steps are
`ok`. -/
inductive Alternating (P : Plugins σ V W) (ok : Tuning σ V W → Happening V W → Tuning σ V W → Prop) :
    Tuning σ V W → Prop
  | init {t : Tuning σ V W} : t.Initial → Alternating P ok t
  | step {t t' : Tuning σ V W} {fuel : ℕ} {h : Happening V W} :
      Alternating P ok t → t.alive = true → t.Alternates h → t.happen P fuel h = some t' →
      ok t h t' → Alternating P ok t'

instance (t : Tuning σ V W) (c : ℕ) : Decidable (t.Testing c) :=
  inferInstanceAs (Decidable ((t.clients c).state = .testing))

instance (t : Tuning σ V W) (h : Happening V W) : Decidable (t.Alternates h) :=
  match h with
  | .inl (_, .join _ _) => isTrue trivial
  | .inl (c, .fetch) => inferInstanceAs (Decidable (¬ t.Testing c))
  | .inl (c, .report _) => inferInstanceAs (Decidable (t.Testing c))
  | .inl (_, .best) => isFalse fun h => h
  | .inl (_, .leave) => isFalse fun h => h
  | .inr (.mesg _ _) => isFalse fun h => h
  | .inr .top => isTrue trivial
  | .inr (.callback _) => isTrue trivial
  | .inr .generate => isTrue trivial

/-- Several calls and events of clients that alternate. -/
def play (P : Plugins σ V W) (fuel : ℕ) : Tuning σ V W → List (Happening V W) → Option (Tuning σ V W)
  | t, [] => some t
  | t, h :: hs =>
    if t.alive ∧ t.Alternates h then (t.happen P fuel h).bind fun t => play P fuel t hs else none

lemma Alternating.play {t t' : Tuning σ V W} {fuel : ℕ} {hs : List (Happening V W)}
    (h : Alternating P (fun _ _ _ => True) t) (hplay : t.play P fuel hs = some t') :
    Alternating P (fun _ _ _ => True) t' := by
  induction hs generalizing t with
  | nil =>
    cases hplay
    exact h
  | cons a hs ih =>
    rw [Tuning.play] at hplay
    split_ifs at hplay with hgo
    rcases Option.bind_eq_some_iff.mp hplay with ⟨t₁, hhappen, hrest⟩
    exact ih (h.step hgo.1 hgo.2 hhappen trivial) hrest

/-- A careful step on which the plug-ins answer as they should. -/
def Orderly (t : Tuning σ V W) (h : Happening V W) (t' : Tuning σ V W) : Prop :=
  Along Answers t'.sess.trace ∧ t.Careful t' h

variable {t t' : Tuning σ V W} {fuel : ℕ}

omit [Top W] in
/-- The end of a fetch: the client's point is the new one, whether it is testing it or not. -/
lemma installCurr_cases (t : Tuning σ V W) (c : ℕ) (h : HDesc V) :
    ∃ desc, (t.installCurr c h).2 = t.setClient c desc ∧ desc.curr = h.curr ∧
      (desc.state = h.state ∨ desc.state = .testing) := by
  rcases HDesc.setValues_frame h h.curr with ⟨-, hcurr, hstate⟩
  unfold installCurr
  rcases hset : h.setValues h.curr with ⟨ret, desc⟩
  rw [hset] at hcurr hstate
  dsimp only
  split_ifs
  · exact ⟨desc, rfl, hcurr, Or.inl hstate⟩
  · exact ⟨_, rfl, hcurr, Or.inr rfl⟩

/-- The message of a client, and the session after it. -/
lemma handleMesg_reach {srcId : Option Bytes} {req : Request W} {alive : Bool} {reply : Reply V}
    (h : Reachable P true s) (hmesg : handleMesg P fuel s srcId req = some (alive, s', reply)) :
    Reachable P alive s' := by
  have hevent : sessEvent P fuel s (.mesg srcId req) = some (alive, s', some reply) :=
    Option.bind_eq_some_iff.mpr ⟨_, hmesg, rfl⟩
  exact h.step hevent

/-- A request for a point ends the session, or it is answered with a trial or with the best point. -/
lemma sendRequest_fetch {answer : Option (Reply V)} (halive : t.alive = true)
    (hreach : Reachable P true t.sess) (h : t.sendRequest P fuel c .fetch = some (answer, t')) :
    t'.alive = false ∨ Reachable P true t'.sess ∧ t'.clients = t.clients ∧ t'.sess.ids = t.sess.ids ∧
      ((t'.sess.pausedId = t.sess.pausedId ∧ ∃ i trial, t.sess.pending[i]? = some trial ∧
          t'.sess.trace = t.sess.trace ++ [.deliver i trial.point.id] ∧
          answer = some (.point .ok (hpointCopy trial.point).arrived)) ∨
        ∃ pt : HPoint V, t'.sess.pausedId = pt.id ∧ t'.sess.trace = t.sess.trace ++ [.busy pt.id] ∧
          answer = some (.point .busy pt.arrived)) := by
  rcases sendRequest_cases h with ⟨hdead, -⟩ | ⟨alive, sess, reply, -, hmesg, hreply⟩
  · rw [halive] at hdead
    cases hdead
  · rcases handleMesg_cases hmesg with ⟨res, ret, s₁, reply', -, hreq, hcase⟩
    have hreq' : handleFetch P (t.sess.withCfg res.2) = some (ret, s₁, reply') := hreq
    rcases hcase with ⟨-, rfl, -, -⟩ | ⟨rfl, rfl, ⟨cfg, rfl⟩, rfl⟩
    · left
      rcases hreply with ⟨msg, -, -, rfl⟩ | ⟨-, -, rfl⟩
      · rfl
      · rfl
    · right
      have hreach' := handleMesg_reach hreach hmesg
      rcases handleFetch_replies hreq' with ⟨-, hpaused, hids, i, trial, htrial, htrace, rfl⟩ | hne |
        ⟨-, hids, pt, hpaused, htrace, rfl⟩
      · rcases hreply with ⟨msg, hfail, -⟩ | ⟨-, rfl, rfl⟩
        · cases hfail
        · exact ⟨hreach', rfl, hids, Or.inl ⟨hpaused, i, trial, htrial, htrace, rfl⟩⟩
      · exact absurd rfl hne
      · rcases hreply with ⟨msg, hfail, -⟩ | ⟨-, rfl, rfl⟩
        · cases hfail
        · exact ⟨hreach', rfl, hids, Or.inr ⟨pt, hpaused, htrace, rfl⟩⟩

omit [Top W] in
lemma fetched_sess (t : Tuning σ V W) (c : ℕ) (answer : Option (Reply V)) :
    (t.fetched c answer).2.sess = t.sess ∧ (t.fetched c answer).2.alive = t.alive := by
  have hinstall : ∀ (t : Tuning σ V W) (h : HDesc V),
      (t.installCurr c h).2.sess = t.sess ∧ (t.installCurr c h).2.alive = t.alive := by
    intro t h
    rcases installCurr_cases t c h with ⟨desc, heq, -, -⟩
    rw [heq]
    exact ⟨rfl, rfl⟩
  cases answer with
  | none => exact ⟨rfl, rfl⟩
  | some reply =>
    cases reply with
    | point status pt =>
      cases status with
      | busy =>
        unfold fetched
        dsimp only
        split_ifs
        · exact ⟨rfl, rfl⟩
        · exact hinstall _ _
      | ok => exact hinstall _ _
      | _ => exact ⟨rfl, rfl⟩
    | _ => exact ⟨rfl, rfl⟩

/-- A fetch of a client that does not have to report. -/
lemma harmonyFetch_settled (h : Settled P t.sess t.clients) (halive : t.alive = true)
    (hc : ¬ t.Testing c) {r : ℤ} (hcall : t.harmonyFetch P fuel c = some (r, t'))
    (hcareful : t.Careful t' (.inl (c, .fetch))) : t'.alive = true → Settled P t'.sess t'.clients := by
  intro hlive
  unfold harmonyFetch at hcall
  dsimp only at hcall
  split_ifs at hcall
  · cases hcall
    exact h.update_same fun ht => ⟨ht, rfl⟩
  · rcases Option.map_eq_some_iff.mp hcall with ⟨⟨answer, t₁⟩, hsend, heq⟩
    obtain rfl : (t₁.fetched c answer).2 = t' := congrArg Prod.snd heq
    rcases fetched_sess t₁ c answer with ⟨hsess, hstill⟩
    rcases sendRequest_fetch halive h.reach hsend with hdead | ⟨hreach, hclients, hids, hcase⟩
    · rw [hstill, hdead] at hlive
      cases hlive
    · rcases hcase with ⟨hpaused, i, trial, htrial, htrace, rfl⟩ | ⟨pt, hpaused, htrace, rfl⟩
      · -- a trial
        rcases installCurr_cases t₁ c
          { t₁.clients c with curr := hpointCopy (hpointCopy trial.point).arrived } with
          ⟨desc, hdesc, hcurr, hstate⟩
        have hid : trial.point.id ∈ t.sess.ids := List.mem_of_getElem? (ids_getElem? htrial)
        have hmoved := h.deliver (c := c) hreach htrace hids hpaused hid fun (ht : desc.Testing) => by
          rw [hcurr]
          dsimp only
          rw [hpointCopy_id, HPoint.arrived_id, hpointCopy_id]
        rw [← hclients] at hmoved
        show Settled P (t₁.installCurr c _).2.sess (t₁.installCurr c _).2.clients
        rw [hdesc]
        exact hmoved
      · -- the best point
        have hbusy : (t₁.fetched c (some (.point .busy pt.arrived))).2.sess.trace =
            t.sess.trace ++ [.busy pt.id] := by rw [hsess, htrace]
        rcases hcareful pt.id hbusy with ⟨hnewer, hslot, hother⟩
        have hbest : ((t.clients c).updateBest pt.arrived).best.id = pt.id :=
          (HDesc.updateBest_id (hnewer.trans_eq pt.arrived_id.symm)).trans pt.arrived_id
        show Settled P (t₁.fetched c _).2.sess (t₁.fetched c _).2.clients
        unfold fetched
        dsimp only
        rw [hclients]
        split_ifs with hnone
        · -- there is none
          have hmoved := h.busy (c := c) hreach htrace hids hpaused hother
            fun (ht : ((t.clients c).updateBest pt.arrived).Testing) =>
              absurd ((HDesc.updateBest_state _ _).symm.trans ht) hc
          rw [← hclients] at hmoved ⊢
          exact hmoved
        · rcases installCurr_cases (t₁.send c pt.arrived) c
            { (t.clients c).updateBest pt.arrived with
              curr := hpointCopy ((t.clients c).updateBest pt.arrived).best } with
            ⟨desc, hdesc, hcurr, -⟩
          have hmoved := h.busy (c := c) hreach htrace hids hpaused hother
            fun (ht : desc.Testing) => by
              rw [hbest] at hnone
              refine ⟨?_, hnone, hslot hnone⟩
              rw [hcurr]
              dsimp only
              rw [hpointCopy_id, hbest]
          rw [← hclients] at hmoved
          rw [hdesc]
          exact hmoved

/-- A report of a client that has to report is answered with OK. -/
lemma sendRequest_report (h : Settled P t.sess t.clients) (halive : t.alive = true)
    (hc : t.Testing c) {perf : HPerf W} {answer : Option (Reply V)}
    (hsend : t.sendRequest P fuel c (.report (t.clients c).curr.id perf) = some (answer, t'))
    (hanswers : Along Answers t'.sess.trace) (hcareful : t.Careful t' (.inl (c, .report perf))) :
    answer = some .ok ∧ t'.alive = true ∧ t'.clients = t.clients ∧
      Settled P t'.sess (Function.update t.clients c { t.clients c with state := .ready }) := by
  -- the client itself does not have to report any more
  have hready : Settled P t.sess
      (Function.update t.clients c { t.clients c with state := .ready }) :=
    h.update_same fun ht => nomatch ht
  rcases sendRequest_cases hsend with ⟨hdead, -⟩ | ⟨alive, sess, reply, -, hmesg, hreply⟩
  · rw [halive] at hdead
    cases hdead
  · have hstate : t'.sess = sess ∧ t'.alive = alive := by
      rcases hreply with ⟨msg, -, -, rfl⟩ | ⟨-, -, rfl⟩
      · exact ⟨rfl, rfl⟩
      · exact ⟨rfl, rfl⟩
    have hreach := handleMesg_reach h.reach hmesg
    rcases handleMesg_cases hmesg with ⟨res, ret, s₁, reply', -, hreq, hcase⟩
    have hreq' : handleReport P fuel (t.sess.withCfg res.2) (t.clients c).curr.id perf =
        some (ret, s₁, reply') := hreq
    have hsame : sess.trace = s₁.trace ∧ sess.pausedId = s₁.pausedId ∧ sess.ids = s₁.ids := by
      rcases hcase with ⟨-, -, rfl, -⟩ | ⟨-, -, ⟨cfg, rfl⟩, -⟩
      · exact ⟨rfl, rfl, rfl⟩
      · exact ⟨rfl, rfl, rfl⟩
    rw [hstate.1] at hanswers
    -- the handler succeeds, and then the rest is about the session
    suffices hdone : ret = 0 ∧ reply' = .ok ∧ (alive = true → Settled P sess
        (Function.update t.clients c { t.clients c with state := .ready })) by
      rcases hdone with ⟨hret, rfl, hsettled⟩
      rcases hcase with ⟨hne, -⟩ | ⟨-, rfl, -, rfl⟩
      · exact absurd hret hne
      · rcases hreply with ⟨msg, hfail, -⟩ | ⟨-, rfl, rfl⟩
        · cases hfail
        · exact ⟨rfl, rfl, rfl, hsettled rfl⟩
    rcases handleReport_replies hreq' with ⟨hnot, hne⟩ |
      ⟨hnot, -, hret, hpaused, hids, htrace, hok⟩ |
      ⟨hmem, -, hok, i, acts, htrace, hinternal, hcause⟩
    · -- a rouge point
      rcases h.owes c hc with howed | ⟨-, hlast, -⟩
      · exact absurd (h.mem_ids howed) hnot
      · exact absurd hlast hne
    · -- the best point
      refine ⟨hret, hok, fun hlive => ?_⟩
      subst hlive
      exact hready.reportNone hreach (hsame.1.trans htrace) (hsame.2.2.trans hids)
        (hsame.2.1.trans hpaused) hnot
    · -- a trial
      have htrace' : sess.trace = t.sess.trace ++ .report (t.clients c).curr.id (some i) :: acts :=
        hsame.1.trans htrace
      have howed := h.owed_of_mem hc hmem
      have hcontract := h.report_contract htrace' hinternal hanswers howed
      rcases hcareful hmem with ⟨hothers, hfails⟩
      have hret : ret = 0 := by
        by_contra hne
        rcases hcause hne with ⟨a, ha, hfail | hfull⟩
        · exact hfails _ (by rw [hstate.1, htrace']) a (List.mem_cons_of_mem _ ha) hfail
        · have hin : a ∈ sess.trace := by
            rw [htrace']
            exact List.mem_append_right _ (List.mem_cons_of_mem _ ha)
          exact hreach.not_overflows hcontract hin hfull
      refine ⟨hret, hok, fun hlive => ?_⟩
      subst hlive
      refine hready.report hreach htrace' hinternal hanswers howed fun d hd => ?_
      by_cases hdc : d = c
      · subst hdc
        rw [Function.update_self] at hd
        cases hd
      · rw [Function.update_of_ne hdc] at hd ⊢
        have howed' := h.owed_of_mem hd (hothers d hdc hd)
        exact ⟨howed', h.apart d c hdc hd hc howed'⟩

/-- A report that the session answers with OK. -/
lemma harmonyReport_ok (h : Settled P t.sess t.clients) (halive : t.alive = true)
    (hc : t.Testing c) {perf : HPerf W} {r : ℤ}
    (hcall : t.harmonyReport P fuel c perf = some (r, t')) (hanswers : Along Answers t'.sess.trace)
    (hcareful : t.Careful t' (.inl (c, .report perf))) :
    r = 0 ∧ t'.alive = true ∧ Settled P t'.sess t'.clients := by
  have hstate : (t.clients c).state = .testing := hc
  unfold harmonyReport at hcall
  dsimp only at hcall
  rw [hstate, if_neg (by decide), if_neg (by decide)] at hcall
  rcases Option.map_eq_some_iff.mp hcall with ⟨⟨answer, t₁⟩, hsend, heq⟩
  have hreported : ∀ answer, (t₁.reported c answer).2.sess = t₁.sess := by
    intro answer
    cases answer with
    | none => rfl
    | some reply => cases reply <;> rfl
  obtain rfl : (t₁.reported c answer).2 = t' := congrArg Prod.snd heq
  unfold Careful at hcareful
  rw [hreported] at hanswers hcareful
  rcases sendRequest_report h halive hc hsend hanswers hcareful with ⟨rfl, hlive, hclients, hsettled⟩
  refine ⟨(congrArg Prod.fst heq).symm, hlive, ?_⟩
  rw [← hclients] at hsettled
  exact hsettled

/-- In a careful run every client that has to report is expected to. -/
theorem Alternating.settled (h : Alternating P Orderly t) (halive : t.alive = true) :
    Settled P t.sess t.clients := by
  induction h with
  | init hinit =>
    rename_i t
    have htrace : t.sess.trace = [] := hinit.sess.trace
    have hidle : ∀ c, ¬ (t.clients c).Testing := by
      intro c
      rw [hinit.clients c]
      nofun
    refine ⟨Reachable.init hinit.sess, ?_, fun c hc => absurd hc (hidle c),
      fun c d _ hc => absurd hc (hidle c), ?_⟩
    · rw [htrace]
      exact Along.nil
    · rw [htrace]
      exact List.not_mem_nil
  | @step t t' fuel h _ hbefore halternates hhappen horderly ih =>
    rcases horderly with ⟨hanswers, hcareful⟩
    have hsettled := ih hbefore
    rcases h with ⟨c, r⟩ | e
    · rcases Option.map_eq_some_iff.mp hhappen with ⟨⟨ret, t₁⟩, hcall, rfl⟩
      cases r with
      | join id vars =>
        obtain rfl : (t.harmonyJoin c id vars).2 = t₁ := congrArg Prod.snd (Option.some.inj hcall)
        unfold harmonyJoin
        dsimp only
        split_ifs
        · exact hsettled.update_same fun ht => ⟨ht, rfl⟩
        · exact hsettled.update_same fun ht => ⟨ht, rfl⟩
        · exact hsettled.update_same fun ht => nomatch ht
      | fetch => exact harmonyFetch_settled hsettled hbefore halternates hcall hcareful halive
      | report perf =>
        exact (harmonyReport_ok hsettled hbefore halternates hcall hanswers hcareful).2.2
      | best => exact halternates.elim
      | leave => exact halternates.elim
    · have hhappen : t.sessionEvent P fuel e = some t' := hhappen
      unfold sessionEvent at hhappen
      rw [if_pos hbefore] at hhappen
      rcases Option.map_eq_some_iff.mp hhappen with ⟨⟨alive, s', reply⟩, hevent, rfl⟩
      have hquiet : ∀ srcId req, e ≠ .mesg srcId req := by
        rintro srcId req rfl
        exact halternates
      exact hsettled.works hquiet hevent hanswers

end Tuning

/-! ## One id for all clients -/

end ActiveHarmony

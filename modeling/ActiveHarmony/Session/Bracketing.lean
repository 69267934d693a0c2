import ActiveHarmony.Session.Queue

/-!
# Layers as brackets

A trial goes into the layers one by one and comes out of them in the opposite order, however often
it is sent back. Layer `k` is open for a slot while the last call of `k` for its trial is that of
`generate`. `Bracketed` says which layers are open when the next one is called; the calls of one
layer alternate, since `generate` finds its layer closed and `analyze` finds it open.

The argument rests on `level`: the value of the signed `curr_layer` tells how many layers are open.
-/

namespace ActiveHarmony

/-- What an act does to the open layers of slot `i`. -/
def openStep (i : ℕ) (layer : ℕ → Bool) : Act → ℕ → Bool
  | .generate j _ _ _ _ => if j = i then fun _ => false else layer
  | .layer c j _ _ => if j = i then Function.update layer c.natAbs (decide (0 < c)) else layer
  | _ => layer

/-- Whether layer `k` is open for the trial in slot `i`. -/
def isOpen (trace : List Act) (i : ℕ) : ℕ → Bool := trace.foldl (openStep i) fun _ => false

/-- Which layers have to be open when a layer is called, when the trial enters the ready queue, and
when the strategy gets it. -/
def Bracketed (n : ℕ) (pre : List Act) : Act → Prop
  | .layer c i _ _ => ∀ k, 1 ≤ k → k ≤ n →
    (isOpen pre i k = true ↔ if 0 < c then (k : ℤ) < c else (k : ℤ) ≤ -c)
  | .enqueue i => ∀ k, 1 ≤ k → k ≤ n → isOpen pre i k = true
  | .analyzed i _ => ∀ k, 1 ≤ k → k ≤ n → isOpen pre i k = false
  | _ => True

/-- No layer rejects a trial. -/
def Unrejected (_ : List Act) : Act → Prop
  | .layer _ _ _ st => st ≠ .reject
  | _ => True

/-! ## Levels -/

/-- The number of open layers when layer `c` comes next. -/
def level (c : ℤ) : ℕ := if 0 < c then (c - 1).toNat else (-c).toNat

/-- Exactly the layers up to `m` are open for slot `i`. -/
def OpenTo (n : ℕ) (trace : List Act) (i m : ℕ) : Prop :=
  ∀ k, 1 ≤ k → k ≤ n → (isOpen trace i k = true ↔ k ≤ m)

/-- Turning back at layer `c` meets the layers that are open after `c`. -/
lemma level_neg (c : ℤ) : level (-c) = level (c + 1) := by
  unfold level
  split_ifs <;> omega

lemma level_bottom (n : ℕ) : level (-(n : ℤ)) = n := by
  unfold level
  split_ifs <;> omega

lemma level_top (n : ℕ) : level ((n : ℤ) + 1) = n := by
  unfold level
  split_ifs <;> omega

variable {n i : ℕ} {pre trace : List Act} {a : Act} {L L' : Ledger} {q : List ℤ}
  {lost : List ℕ} {c : ℤ} {m : ℕ}

lemma isOpen_concat : isOpen (pre ++ [a]) i = openStep i (isOpen pre i) a := by
  unfold isOpen
  rw [List.foldl_append]
  rfl

/-- Other acts leave the open layers of `i` alone. -/
lemma OpenTo.keep (h : OpenTo n pre i m) (ha : openStep i (isOpen pre i) a = isOpen pre i) :
    OpenTo n (pre ++ [a]) i m := by
  intro k hk hkn
  rw [isOpen_concat, ha]
  exact h k hk hkn

/-- A call of layer `c` opens it or closes it. -/
lemma OpenTo.layer (h : OpenTo n pre i (level c)) (hc : IsLayer n c) {ret : ℤ} {st : FlowStatus} :
    OpenTo n (pre ++ [.layer c i ret st]) i (level (c + 1)) := by
  intro k hk hkn
  have hold := h k hk hkn
  rw [isOpen_concat]
  simp only [openStep, if_true]
  have hc0 := hc.1
  by_cases heq : k = c.natAbs
  · rw [heq, Function.update_self, decide_eq_true_iff]
    unfold level
    split_ifs <;> omega
  · rw [Function.update_of_ne heq, hold]
    unfold level
    split_ifs <;> omega

/-- Layer `c` is called at its level. -/
lemma OpenTo.bracketed (h : OpenTo n pre i (level c)) {ret : ℤ} {st : FlowStatus} :
    Bracketed n pre (.layer c i ret st) := by
  intro k hk hkn
  rw [h k hk hkn]
  unfold level
  split_ifs <;> omega

/-! ## The invariant -/

/-- The control of `plugin_workflow` and the open layers of its slot agree. -/
def Ledger.CtlLevel (n : ℕ) (trace : List Act) (L : Ledger) : Prop :=
  match L.ctl with
  | .idle => True
  | .loop i c => -(n : ℤ) ≤ c ∧ c ≤ n + 1 ∧ OpenTo n trace i (level c)
  | .trans i c _ _ => OpenTo n trace i (level (c + 1))

/-- Trials that are ready or fetched have all layers open, and a trial in a wait list those that
its layer left open. -/
structure Levelled (n : ℕ) (trace : List Act) (L : Ledger) : Prop where
  ring : ∀ i : ℕ, (i : ℤ) ∈ L.ring → OpenTo n trace i n
  clients : ∀ i ∈ clientSlots trace, OpenTo n trace i n
  wait : ∀ c, IsLayer n c → ∀ i : ℕ, (i : ℤ) ∈ (L.wait c).cells → OpenTo n trace i (level (c + 1))
  ctl : L.CtlLevel n trace
  brackets : Along (Bracketed n) trace

/-- An act about no slot, or about a slot that nobody holds, leaves the levels of the slots that
are held as they are. -/
lemma Levelled.frame (h : Levelled n pre L) (hring : L'.ring = L.ring) (hwait : L'.wait = L.wait)
    (hclients : clientStep (clientSlots pre) a = clientSlots pre)
    (hkeep : ∀ j : ℕ, (j : ℤ) ∈ L.ring ∨ j ∈ clientSlots pre ∨
      (∃ c, IsLayer n c ∧ (j : ℤ) ∈ (L.wait c).cells) →
      openStep j (isOpen pre j) a = isOpen pre j)
    (hctl : L'.CtlLevel n (pre ++ [a])) (hbracket : Bracketed n pre a) :
    Levelled n (pre ++ [a]) L' := by
  refine ⟨fun j hj => ?_, fun j hj => ?_, fun c hc j hj => ?_, hctl, h.brackets.concat hbracket⟩
  · rw [hring] at hj
    exact (h.ring j hj).keep (hkeep j (Or.inl hj))
  · rw [clientSlots_concat, hclients] at hj
    exact (h.clients j hj).keep (hkeep j (Or.inr (Or.inl hj)))
  · rw [hwait] at hj
    exact (h.wait c hc j hj).keep (hkeep j (Or.inr (Or.inr ⟨c, hc, hj⟩)))

lemma Accounted.answered_layer (h : Accounted n trace L q lost) {st : FlowStatus}
    {pos : Option ℕ} (hctl : L.ctl = .trans i c st pos) : IsLayer n c := by
  have hans := h.answered
  unfold Ledger.Answered at hans
  rw [hctl] at hans
  cases pos with
  | none => exact hans.1
  | some p => exact hans.1

/-- Going on after an answer: the level follows from the new layer. -/
lemma Levelled.resume (h : Levelled n pre L) (hacc : Accounted n pre L q lost)
    {st : FlowStatus} {pos : Option ℕ} (hctl : L.ctl = .trans i c st pos) {c' : ℤ}
    (hlevel : level c' = level (c + 1)) (hlow : -(n : ℤ) ≤ c') (hhigh : c' ≤ n + 1) :
    Levelled n pre (L.resume pos i c c') := by
  have hopen := h.ctl
  unfold Ledger.CtlLevel at hopen
  rw [hctl] at hopen
  refine ⟨h.ring, h.clients, fun k hk j hj => h.wait k hk j ?_, ⟨hlow, hhigh, hlevel ▸ hopen⟩,
    h.brackets⟩
  cases pos with
  | none => exact hj
  | some p =>
    have hans := hacc.answered
    unfold Ledger.Answered at hans
    rw [hctl] at hans
    by_cases hkc : k = c
    · -- what is left in the wait list was there before
      subst hkc
      simp only [Ledger.resume, Function.update_self] at hj
      have hremove := (hacc.custody.wait k).count_remove hans.2.2.1 hans.2.2.2 j
      have hpos := List.count_pos_iff.mpr hj
      exact List.count_pos_iff.mp (by omega)
    · simp only [Ledger.resume, Function.update_of_ne hkc] at hj
      exact hj

/-- Stopping somewhere. -/
lemma Levelled.stop (h : Levelled n pre L) : Levelled n pre { L with ctl := .idle } :=
  ⟨h.ring, h.clients, h.wait, trivial, h.brackets⟩

lemma Levelled.set_ids (h : Levelled n pre L) (ids : List ℤ) (len : ℤ) (poll : Bool) :
    Levelled n pre { L with ids := ids, len := len, poll := poll } :=
  ⟨h.ring, h.clients, h.wait, h.ctl, h.brackets⟩

/-- An act that says nothing about layers. -/
lemma Levelled.quiet (h : Levelled n pre L)
    (hclients : clientStep (clientSlots pre) a = clientSlots pre)
    (hopen : ∀ j, openStep j (isOpen pre j) a = isOpen pre j) (hbracket : Bracketed n pre a) :
    Levelled n (pre ++ [a]) L := by
  refine h.frame rfl rfl hclients (fun j _ => hopen j) ?_ hbracket
  have hctl := h.ctl
  unfold Ledger.CtlLevel at hctl ⊢
  cases hL : L.ctl with
  | idle => trivial
  | loop i c =>
    rw [hL] at hctl
    exact ⟨hctl.1, hctl.2.1, hctl.2.2.keep (hopen i)⟩
  | trans i c st pos =>
    rw [hL] at hctl
    exact hctl.keep (hopen i)

/-- One step keeps the levels. -/
theorem Ledger.Step.levelled {as : List Act} (hstep : L.Step n as L')
    (hacc : Accounted n pre L q lost) (h : Levelled n pre L) (hsound : Along Sound (pre ++ as))
    (hcontract : Along Contract (pre ++ as)) (hrej : Along Unrejected (pre ++ as)) :
    Levelled n (pre ++ as) L' := by
  have hopen := h.ctl
  unfold Ledger.CtlLevel at hopen
  -- a trial is never rejected: its last answer would be REJECT
  have hnoreject : ∀ i c pos, L.ctl ≠ .trans i c .reject pos := by
    intro i c pos hctl
    have hans := hacc.answered
    unfold Ledger.Answered at hans
    rw [hctl] at hans
    cases pos with
    | none => exact hrej.left.getLast? hans.2 rfl
    | some p =>
      have hst := hcontract.left.getLast? hans.2.1
      exact absurd hst (by simp [Contract])
  -- an act about a slot that nobody holds leaves the layers of the other slots alone
  have hother : ∀ i : ℕ, held n L.ring L.wait (clientSlots pre) i = 0 → ∀ j : ℕ,
      (j : ℤ) ∈ L.ring ∨ j ∈ clientSlots pre ∨ (∃ c, IsLayer n c ∧ (j : ℤ) ∈ (L.wait c).cells) →
      i ≠ j := by
    intro i hheld j hj hij
    subst hij
    rcases nowhere_of_held hheld with ⟨hring, hclient, hwait⟩
    rcases hj with hj | hj | ⟨c, hc, hj⟩
    · exact hring hj
    · exact hclient hj
    · exact hwait c hc hj
  have hfree : ∀ i : ℕ, L.ids[i]? = some (-1) → held n L.ring L.wait (clientSlots pre) i = 0 := by
    intro i hid
    have honce := hacc.custody.once i
    rw [used_of_getElem? hid, if_pos rfl] at honce
    omega
  have hmoving : ∀ i : ℕ, L.ctl.moving i = 1 → held n L.ring L.wait (clientSlots pre) i = 0 :=
    fun i hmove => (hacc.custody.used_of_moving hmove).2
  cases hstep with
  | @generateFail i ret id st hidle hid hret =>
    refine h.frame rfl rfl rfl (fun j hj => if_neg (hother i (hfree i hid) j hj)) ?_ trivial
    unfold Ledger.CtlLevel
    rw [hidle]
    trivial
  | @generateWait i id hidle hid =>
    refine h.frame rfl rfl rfl (fun j hj => if_neg (hother i (hfree i hid) j hj)) ?_ trivial
    unfold Ledger.CtlLevel
    rw [hidle]
    trivial
  | @generateGo i id st hidle hid hst =>
    refine h.frame rfl rfl rfl (fun j hj => if_neg (hother i (hfree i hid) j hj)) ?_ trivial
    refine ⟨by omega, by omega, fun k hk hkn => ?_⟩
    -- the new trial has been in no layer
    rw [isOpen_concat]
    simp only [openStep, if_true, level]
    simp
    omega
  | @layerFail i c ret st hctl hc hret =>
    rw [hctl] at hopen
    have hheld := hmoving i (by rw [hctl]; exact if_pos rfl)
    exact h.frame rfl rfl rfl (fun j hj => if_neg (hother i hheld j hj)) trivial
      hopen.2.2.bracketed
  | @layer i c st hctl hc =>
    rw [hctl] at hopen
    have hheld := hmoving i (by rw [hctl]; exact if_pos rfl)
    exact h.frame rfl rfl rfl (fun j hj => if_neg (hother i hheld j hj)) (hopen.2.2.layer hc)
      hopen.2.2.bracketed
  | @callback c p cell st hidle hc hp hcell =>
    rcases (hacc.custody.wait c).slot p hp with ⟨i, hi⟩
    obtain rfl : cell = i := Option.some.inj (hcell.symm.trans hi)
    refine h.frame rfl rfl rfl (fun j _ => rfl) ?_ trivial
    exact (h.wait c hc i (List.mem_of_getElem? hi)).keep rfl
  | @accept i c pos hctl =>
    have hc := hacc.answered_layer hctl
    rw [List.append_nil]
    exact h.resume hacc hctl rfl (by have := hc.2; omega) (by have := hc.2; omega)
  | @turn i c st pos hctl hst =>
    have hc := hacc.answered_layer hctl
    rw [List.append_nil]
    exact h.resume hacc hctl (level_neg c) (by have := hc.2; omega) (by have := hc.2; omega)
  | @wait i c pos hctl hroom =>
    have hc := hacc.answered_layer hctl
    rw [hctl] at hopen
    rw [List.append_nil]
    refine ⟨h.ring, h.clients, fun k hk j hj => ?_, trivial, h.brackets⟩
    by_cases hkc : k = c
    · subst hkc
      simp only [Function.update_self] at hj
      have hcount := WaitList.count_append hroom i j
      rw [WaitList.count_grown] at hcount
      have hpos := List.count_pos_iff.mpr hj
      by_cases hij : i = j
      · exact hij ▸ hopen
      · rw [if_neg hij] at hcount
        exact h.wait k hk j (List.count_pos_iff.mp (by omega))
    · simp only [Function.update_of_ne hkc] at hj
      exact h.wait k hk j hj
  | @waitAppend i c cell pos hctl hcell hne =>
    rw [(hacc.custody.wait c).room] at hcell
    exact absurd (Option.some.inj hcell).symm hne
  | @enqueue i c hctl hc hmark =>
    rw [hctl] at hopen
    obtain rfl : c = n + 1 := by omega
    have hlevel := hopen.2.2
    rw [level_top] at hlevel
    refine ⟨fun j hj => ?_, fun j hj => ?_, fun k hk j hj => (h.wait k hk j hj).keep rfl, trivial,
      h.brackets.concat fun k hk hkn => (hlevel k hk hkn).mpr hkn⟩
    · rcases List.mem_or_eq_of_mem_set hj with hj | hj
      · exact (h.ring j hj).keep rfl
      · obtain rfl : j = i := Int.ofNat.inj hj
        exact hlevel.keep rfl
    · rw [clientSlots_concat] at hj
      exact (h.clients j hj).keep rfl
  | @deliver idx id hidle hidx hpos hid =>
    refine ⟨fun j hj => ?_, fun j hj => ?_, fun k hk j hj => (h.wait k hk j hj).keep rfl, ?_,
      h.brackets.concat trivial⟩
    · rcases List.mem_or_eq_of_mem_set hj with hj | hj
      · exact (h.ring j hj).keep rfl
      · exact absurd hj.symm (mark_ne_slot j)
    · rw [clientSlots_concat] at hj
      rcases List.mem_cons.mp hj with rfl | hj
      · refine (h.ring _ ?_).keep rfl
        rw [Int.toNat_of_nonneg hpos]
        exact List.mem_of_getElem? hidx
      · exact (h.clients j hj).keep rfl
    · unfold Ledger.CtlLevel
      rw [hidle]
      trivial
  | @report id i hidle hi hlt =>
    have hclient : i ∈ clientSlots pre := hsound.last
    refine ⟨fun j hj => (h.ring j hj).keep rfl, fun j hj => ?_,
      fun k hk j hj => (h.wait k hk j hj).keep rfl, ⟨by omega, by omega, ?_⟩,
      h.brackets.concat trivial⟩
    · rw [clientSlots_concat] at hj
      exact (h.clients j (List.mem_of_mem_erase hj)).keep rfl
    · rw [level_bottom]
      exact (h.clients i hclient).keep rfl
  | rejectInAnalysis hctl | rejectedFail hctl | rejectedWait hctl | rejectedGo hctl =>
    exact absurd hctl (hnoreject _ _ _)
  | @analyzedFail i ret hctl hret =>
    rw [hctl] at hopen
    refine h.stop.quiet rfl (fun _ => rfl) fun k hk hkn => ?_
    rw [Bool.eq_false_iff, ne_eq, hopen.2.2 k hk hkn]
    show ¬ k ≤ 0
    omega
  | @analyzed i hctl hi =>
    rw [hctl] at hopen
    refine (h.set_ids _ _ _).stop.quiet rfl (fun _ => rfl) fun k hk hkn => ?_
    rw [Bool.eq_false_iff, ne_eq, hopen.2.2 k hk hkn]
    show ¬ k ≤ 0
    omega
  | unknown hctl | readyOverflow hctl => exact h.stop.quiet rfl (fun _ => rfl) trivial
  | pointOverflow | emptyWaitlist | busy | reportNone | rougePoint | init =>
    exact h.quiet rfl (fun _ => rfl) trivial

lemma levelled_initial (cap : ℕ) : Levelled n [] (Ledger.initial cap) where
  ring := by
    intro i hi
    exact absurd (List.eq_of_mem_replicate hi).symm (mark_ne_slot i)
  clients := fun _ hi => absurd hi List.not_mem_nil
  wait := fun _ _ _ hi => absurd hi List.not_mem_nil
  ctl := trivial
  brackets := Along.nil

variable {σ V W : Type} {P : Plugins σ V W} {s : Sess σ V W} {alive : Bool}

/-- In a session whose strategy gives ids of their own, whose clients report what they fetched and
whose layers do not reject, the layers of every trial are brackets. -/
theorem reachable_bracketed [Top W] (h : Reachable P alive s) (hcontract : Along Contract s.trace)
    (hrej : Along Unrejected s.trace) : Along (Bracketed P.lstack.length) s.trace := by
  rcases reachable_run h with ⟨cap, hcap, hrun⟩
  have hok : Along (fun pre a => Contract pre a ∧ Unrejected pre a) s.trace :=
    fun pre a post heq => ⟨hcontract pre a post heq, hrej pre a post heq⟩
  refine (Ledger.Run.invariant
    (I := fun trace L => (∃ q lost, Accounted P.lstack.length trace L q lost) ∧
      Owned trace L.ids ∧ Along Sound trace ∧ Levelled P.lstack.length trace L)
    ?_ ?_ hrun hok).2.2.2.brackets
  · exact ⟨⟨[], [], accounted_initial hcap⟩, owned_initial cap, Along.nil, levelled_initial cap⟩
  · intro pre as L L' hI hstep hok
    rcases hI with ⟨⟨q, lost, haccounted⟩, howned, hsound, hlevelled⟩
    have hcontract' := hok.mono fun _ _ ha => ha.1
    have hsound' := hstep.sound haccounted howned hsound hcontract'
    rcases hstep.accounted haccounted hsound' with ⟨q', lost', haccounted', -⟩
    exact ⟨⟨q', lost', haccounted'⟩, hstep.owned haccounted howned hcontract', hsound',
      hstep.levelled haccounted hlevelled hsound' hcontract' (hok.mono fun _ _ ha => ha.2)⟩

/-- A trial goes into the one layer of `delaying` and comes out of it again. -/
theorem delayed_trial_bracketed :
    ∃ s, Reachable delaying true s ∧ s.trace = delayedTrace ∧ Along (Bracketed 1) s.trace := by
  rcases delayed_run with ⟨s, hreach, htrace⟩
  have hrej : Along Unrejected delayedTrace := by
    refine Along.concat (Along.concat (Along.concat (Along.concat (Along.concat (Along.concat
      (Along.concat (Along.concat Along.nil ?_) ?_) ?_) ?_) ?_) ?_) ?_) ?_
    all_goals simp [Unrejected]
  exact ⟨s, hreach, htrace,
    reachable_bracketed (P := delaying) hreach (htrace ▸ delayed_contract) (htrace ▸ hrej)⟩

/-! ## Two trials of one id -/

/-- The answers allowed to layers and callbacks, and reports only for ids that were fetched. -/
def Orderly (pre : List Act) : Act → Prop
  | .generate _ _ ret st _ => ret = 0 ∧ (st = .accept ∨ st = .wait)
  | .layer _ _ ret st => ret = 0 ∧ (st = .accept ∨ st = .ret ∨ st = .retry ∨ st = .wait)
  | .callback _ _ _ st => st = .accept ∨ st = .ret ∨ st = .retry
  | .analyzed _ ret => ret = 0
  | .report id _ => id ∈ owed pre
  | .raised _ => False
  | _ => True

/-- A strategy that gives all points the id 5, and two layers, of which the first one keeps the
first point waiting. -/
def doubling : Plugins ℕ ℤ Unit where
  strategyGenerate := fun w flow _ => (0, w, { flow with status := .accept }, { id := 5, val := [] })
  strategyRejected := fun w flow pt => (0, w, flow, pt)
  strategyAnalyze := fun w _ => (0, w)
  strategyBest := fun w pt => (0, w, pt)
  strategyInit := none
  lstack := [
    { generate := some fun w flow trial =>
        (0, { w with plug := w.plug + 1 },
          { flow with status := if w.plug = 0 then .wait else .accept }, trial.perf)
      analyze := none, init := none, fini := none },
    { generate := none, analyze := none, init := none, fini := none }]
  cb := []
  cb_index := by simp

/-- The report of the second trial reaches the first one, which waits in layer 1, and layer 2
analyzes a trial it has never seen. -/
theorem doubled_id_not_bracketed :
    ¬ ∀ (s : Sess ℕ ℤ Unit) (alive : Bool), Reachable doubling alive s →
      Along Orderly s.trace → Along (Bracketed 2) s.trace := by
  intro h
  have hrun : (sessRun doubling 5 (Sess.start { plug := 0, cfg := hcfgAlloc, errmsg := none } 2)
      [.generate, .generate, .mesg none .fetch, .mesg none (.report 5 { p := [] })]).map Sess.trace
        = some [.generate 0 [-1, -1] 0 .accept 5, .layer 1 0 0 .wait,
          .generate 1 [5, -1] 0 .accept 5, .layer 1 1 0 .accept, .layer 2 1 0 .accept, .enqueue 1,
          .deliver 1 5, .report 5 (some 0), .layer (-2) 0 0 .accept, .layer (-1) 0 0 .accept,
          .analyzed 0 0] := by decide +kernel
  rcases Option.map_eq_some_iff.mp hrun with ⟨s, hrun, htrace⟩
  have hreach : Reachable doubling true s :=
    (Reachable.init (Sess.start_initial _ (by decide))).run hrun
  have horderly : Along Orderly s.trace := by
    rw [htrace]
    refine Along.concat (Along.concat (Along.concat (Along.concat (Along.concat (Along.concat
      (Along.concat (Along.concat (Along.concat (Along.concat (Along.concat Along.nil ?_) ?_) ?_)
        ?_) ?_) ?_) ?_) ?_) ?_) ?_) ?_
    all_goals simp [Orderly, owed, owedStep]
  have hbracketed := h s true hreach horderly
  rw [htrace] at hbracketed
  have hlayer := hbracketed [.generate 0 [-1, -1] 0 .accept 5, .layer 1 0 0 .wait,
    .generate 1 [5, -1] 0 .accept 5, .layer 1 1 0 .accept, .layer 2 1 0 .accept, .enqueue 1,
    .deliver 1 5, .report 5 (some 0)] _ _ rfl
  exact absurd ((hlayer 2 (by decide) (by decide)).mpr (by decide)) (by decide)

end ActiveHarmony

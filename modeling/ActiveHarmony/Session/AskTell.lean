import ActiveHarmony.Session.Queue
import ActiveHarmony.Session.Workflow
import Mathlib.Data.Multiset.AddSub
import Mathlib.Data.Multiset.Filter

/-!
# A session without layers

Without layers a session is a loop around its strategy: it asks for points, and tells the strategy what the
clients report about them. `session_asks_and_tells` says that every session does just this, for any number of
clients and any order of their requests. What holds for all orders of asking and telling holds of the session.
-/

namespace ActiveHarmony

variable {σ V W : Type}

/-! ## Asking and telling -/

/-- The states of a strategy that is asked for points and told about them, together with what it answered and was
not yet told about, and all trials that were told. The configuration may be another one in each call, and only trials
of `Tells` are told. The strategy may decline to give a point: it then leaves the id -1 in the slot. -/
inductive AskTell (P : Plugins σ V W) (Tells : HTrial V W → Prop) (plug₀ : σ) :
    σ → Multiset (HPoint V) → List (HTrial V W) → Prop where
  | start : AskTell P Tells plug₀ plug₀ 0 []
  | ask {w w' : World σ} {flow flow' : Flow V} {point point' : HPoint V} {ret : ℤ} {out told} :
      AskTell P Tells plug₀ w.plug out told → point.id = -1 →
      P.strategyGenerate w flow point = (ret, w', flow', point') →
      AskTell P Tells plug₀ w'.plug (point' ::ₘ out) told
  | tell {w w' : World σ} {trial : HTrial V W} {out told} :
      AskTell P Tells plug₀ w.plug (trial.point ::ₘ out) told → trial.point.id ≠ -1 → Tells trial →
      P.strategyAnalyze w trial = (0, w') →
      AskTell P Tells plug₀ w'.plug out (told ++ [trial])
  | best {w w' : World σ} {point point' : HPoint V} {ret : ℤ} {out told} :
      AskTell P Tells plug₀ w.plug out told → P.strategyBest w point = (ret, w', point') →
      AskTell P Tells plug₀ w'.plug out told

/-! ## Sessions -/

/-- A report is about a point, and what it says is one of `Tells`. The session is not restarted. -/
def Honest (Tells : HTrial V W → Prop) (s : Sess σ V W) : Event W → Prop
  | .mesg _ (.report candId perf) =>
    candId ≠ -1 ∧ ∀ trial ∈ s.pending, trial.point.id = candId → Tells { trial with perf := perf }
  | .mesg _ .restart => False
  | _ => True

/-- The states that a session reaches from `start` by events that meet the condition. -/
inductive Within [Top W] (P : Plugins σ V W) (C : Sess σ V W → Event W → Prop) (start : Sess σ V W) :
    Sess σ V W → Prop where
  | init : Within P C start start
  | step {s s' : Sess σ V W} {fuel : ℕ} {e : Event W} {reply : Option (Reply V)} :
      Within P C start s → C s e → sessEvent P fuel s e = some (true, s', reply) → Within P C start s'

/-- The session after an event, if it goes on. -/
def Sess.after [Top W] (s : Sess σ V W) (P : Plugins σ V W) (fuel : ℕ) (e : Event W) : Sess σ V W :=
  (sessEvent P fuel s e).elim s fun res => res.2.1

lemma Within.next [Top W] {P : Plugins σ V W} {C : Sess σ V W → Event W → Prop} {start s : Sess σ V W}
    (h : Within P C start s) (fuel : ℕ) (e : Event W) (he : C s e)
    (halive : (sessEvent P fuel s e).map Prod.fst = some true) : Within P C start (s.after P fuel e) := by
  obtain ⟨⟨alive, s', reply⟩, hevent, rfl⟩ := Option.map_eq_some_iff.mp halive
  unfold Sess.after
  rw [hevent]
  exact h.step he hevent

/-- The points of the slots that are in use. -/
def Sess.points (s : Sess σ V W) : Multiset (HPoint V) :=
  ((s.pending.map HTrial.point : List (HPoint V)) : Multiset (HPoint V)).filter fun point => point.id ≠ -1

/-- The ids that clients have reported, in order. -/
def reportedIds (trace : List Act) : List ℤ :=
  trace.filterMap fun act =>
    match act with
    | .report id (some _) => some id
    | _ => none

/-- The session and its strategy are where the asking and telling is. -/
structure Sess.Tracks (s : Sess σ V W) (P : Plugins σ V W) (Tells : HTrial V W → Prop) (plug₀ : σ)
    (out : Multiset (HPoint V)) (told : List (HTrial V W)) : Prop where
  play : AskTell P Tells plug₀ s.world.plug out told
  points_le : s.points ≤ out
  reported : reportedIds s.trace = told.map fun trial => trial.point.id

/-! ### The slots -/

section

variable {s s' : Sess σ V W} {i : ℕ} {old new : HTrial V W}

/-- A new trial in a slot changes the points there only. -/
lemma points_set (h : s.pending[i]? = some old) (hs' : s'.pending = s.pending.set i new) :
    ∃ rest : Multiset (HPoint V), s.points = (old.point ::ₘ rest).filter (fun point => point.id ≠ -1) ∧
      s'.points = (new.point ::ₘ rest).filter (fun point => point.id ≠ -1) := by
  obtain ⟨hi, rfl⟩ := List.getElem?_eq_some_iff.mp h
  have hperm := List.set_perm_cons_eraseIdx hi new
  have hperm' := List.set_perm_cons_eraseIdx hi s.pending[i]
  rw [List.set_getElem_self] at hperm'
  refine ⟨((s.pending.eraseIdx i).map HTrial.point : List (HPoint V)), ?_, ?_⟩
  · have hpoints := Multiset.coe_eq_coe.mpr (hperm'.map HTrial.point)
    unfold Sess.points
    rw [hpoints]
    rfl
  · have hpoints := Multiset.coe_eq_coe.mpr (hperm.map HTrial.point)
    unfold Sess.points
    rw [hs', hpoints]
    rfl

lemma points_fill (h : s.pending[i]? = some old) (hold : old.point.id = -1)
    (hs' : s'.pending = s.pending.set i new) : s'.points ≤ new.point ::ₘ s.points := by
  obtain ⟨rest, hs, hs'⟩ := points_set h hs'
  rw [hs, hs', Multiset.filter_cons_of_neg (a := old.point) rest (not_not.mpr hold)]
  by_cases hnew : new.point.id ≠ -1
  · rw [Multiset.filter_cons_of_pos rest hnew]
  · rw [Multiset.filter_cons_of_neg rest hnew]
    exact Multiset.le_cons_self _ _

lemma points_free (h : s.pending[i]? = some old) (hold : old.point.id ≠ -1) (hnew : new.point.id = -1)
    (hs' : s'.pending = s.pending.set i new) : s.points = old.point ::ₘ s'.points := by
  obtain ⟨rest, hs, hs'⟩ := points_set h hs'
  rw [hs, hs', Multiset.filter_cons_of_pos rest hold,
    Multiset.filter_cons_of_neg rest (not_not.mpr hnew)]

lemma id_of_found {id : ℤ} {trial : HTrial V W} (h : s.pending[s.ids.findIdx (· = id)]? = some trial) :
    trial.point.id = id := by
  have hid : s.ids[s.ids.findIdx (· = id)]? = some trial.point.id := by
    unfold Sess.ids at h ⊢
    rw [List.getElem?_map, h]
    rfl
  have hlt := (List.getElem?_eq_some_iff.mp hid).1
  rw [found_id rfl hlt] at hid
  exact (Option.some.inj hid).symm

end

/-! ### Requests -/

section

variable [Top W] {P : Plugins σ V W} {Tells : HTrial V W → Prop} {plug₀ : σ} {s s' : Sess σ V W}
  {out : Multiset (HPoint V)} {told : List (HTrial V W)} {fuel i : ℕ} {ret : ℤ}

omit [Top W] in
lemma Sess.Tracks.congr (h : s.Tracks P Tells plug₀ out told) (hplug : s'.world.plug = s.world.plug)
    (hpending : s'.pending = s.pending) (htrace : reportedIds s'.trace = reportedIds s.trace) :
    s'.Tracks P Tells plug₀ out told where
  play := by
    rw [hplug]
    exact h.play
  points_le := by
    unfold Sess.points
    rw [hpending]
    exact h.points_le
  reported := by
    rw [htrace]
    exact h.reported

omit [Top W] in
lemma reportedIds_append (trace trace' : List Act) :
    reportedIds (trace ++ trace') = reportedIds trace ++ reportedIds trace' :=
  List.filterMap_append

omit [Top W] in
/-- A point that has been generated goes into the ready queue. -/
lemma pluginWorkflow_enqueues (hlstack : P.lstack = []) (hlayer : s.currLayer = 1)
    (h : pluginWorkflow P fuel s i = some (ret, s')) :
    s'.world.plug = s.world.plug ∧ s'.pending = s.pending ∧ reportedIds s'.trace = reportedIds s.trace := by
  cases fuel with
  | zero => cases h
  | succ fuel =>
    have hpast : ¬ (s.currLayer ≠ 0 ∧ s.currLayer ≤ P.lstack.length) := by
      rw [hlayer, hlstack]
      simp
    rw [pluginWorkflow, if_neg hpast] at h
    obtain ⟨hzero, -⟩ | ⟨-, cell, -, hres⟩ | ⟨-, -, -, rfl⟩ := finishWorkflow_cases h
    · omega
    · obtain ⟨-, -, rfl⟩ | ⟨-, -, rfl⟩ := hres
      all_goals exact ⟨rfl, rfl, by simp [Sess.raise, Sess.log, reportedIds]⟩
    · exact ⟨rfl, rfl, by simp [Sess.raise, Sess.log, reportedIds]⟩

lemma Sess.Tracks.generate (h : s.Tracks P Tells plug₀ out told) (hlstack : P.lstack = [])
    (hgen : generateTrial P fuel s = some (ret, s')) :
    ∃ out', s'.Tracks P Tells plug₀ out' told := by
  obtain ⟨-, -, rfl⟩ | ⟨trial, r, world, flow, point, s₁, htrial, hask, rfl, hres⟩ := generateTrial_cases hgen
  · exact ⟨out, h.congr rfl rfl (by simp [Sess.raise, Sess.log, reportedIds])⟩
  · refine ⟨point ::ₘ out, ?_⟩
    generalize hs₁ : Sess.log _ _ = s₁ at hres
    have hpending : s₁.pending = s.pending.set (s.ids.findIdx (· = -1))
        { point := point, perf := hperfReset trial.perf } := by
      rw [← hs₁]
      rfl
    have hfilled : s₁.Tracks P Tells plug₀ (point ::ₘ out) told := by
      have hpoints := points_fill htrial (id_of_found htrial) hpending
      refine ⟨?_, hpoints.trans (Multiset.cons_le_cons point h.points_le), ?_⟩
      · rw [← hs₁]
        exact h.play.ask (id_of_found htrial) hask
      · rw [← hs₁]
        simp only [Sess.log, reportedIds_append, h.reported]
        exact List.append_nil _
    obtain ⟨-, -, rfl⟩ | ⟨-, -, -, rfl⟩ | ⟨-, -, hworkflow⟩ := hres
    · exact hfilled
    · exact hfilled.congr rfl rfl rfl
    · obtain ⟨hplug, hpending, htrace⟩ := pluginWorkflow_enqueues hlstack rfl hworkflow
      exact hfilled.congr hplug hpending htrace

omit [Top W] in
lemma Sess.Tracks.fetch (h : s.Tracks P Tells plug₀ out told) {reply : Reply V}
    (hfetch : handleFetch P s = some (ret, s', reply)) : s'.Tracks P Tells plug₀ out told := by
  obtain ⟨idx, -, ⟨next, -, -, -, rfl, -⟩ | ⟨r, world, pt, hbest, hres⟩⟩ := handleFetch_cases hfetch
  · exact h.congr rfl rfl (by simp [Sess.log, reportedIds])
  · have hplay := h.play.best hbest
    obtain ⟨-, -, rfl⟩ | ⟨-, -, rfl, -⟩ := hres
    · exact ⟨hplay, h.points_le, h.reported⟩
    · refine ⟨hplay, h.points_le, ?_⟩
      simp only [Sess.log, reportedIds_append, h.reported]
      exact List.append_nil _

omit [Top W] in
/-- Without layers a report goes to the strategy at once, and its slot is free again. -/
lemma pluginWorkflow_tells (hlstack : P.lstack = []) {trial : HTrial V W} (htrial : s.pending[i]? = some trial)
    {candId : ℤ} {perf : HPerf W} (h : pluginWorkflow P fuel (({ s with
      pausedId := 0
      pending := s.pending.set i { trial with perf := perf }
      currLayer := -P.lstack.length } : Sess σ V W).log (.report candId (some i))) i = some (0, s')) :
    P.strategyAnalyze s.world { trial with perf := perf } = (0, s'.world) ∧
      s'.pending = s.pending.set i { point := hpointInitializer V, perf := perf } ∧
      reportedIds s'.trace = reportedIds s.trace ++ [candId] := by
  cases fuel with
  | zero => cases h
  | succ fuel =>
    rw [pluginWorkflow, if_neg (by simp [hlstack, Sess.log])] at h
    obtain ⟨-, trial', r, world, htrial', htell, hres⟩ | ⟨hgt, -⟩ | ⟨hne, -⟩ := finishWorkflow_cases h
    · obtain ⟨-, hret, -⟩ | ⟨rfl, -, rfl⟩ := hres
      · exact absurd hret (by decide)
      · simp only [Sess.log, List.getElem?_set_self (List.getElem?_eq_some_iff.mp htrial).1] at htrial'
        obtain rfl := Option.some.inj htrial'
        refine ⟨htell, List.set_set _, ?_⟩
        simp [Sess.log, reportedIds]
    · simp [Sess.log, hlstack] at hgt
    · simp [Sess.log, hlstack] at hne

omit [Top W] in
lemma Sess.Tracks.report (h : s.Tracks P Tells plug₀ out told) (hlstack : P.lstack = []) {candId : ℤ}
    {perf : HPerf W} {reply : Reply V} (hid : candId ≠ -1)
    (htells : ∀ trial ∈ s.pending, trial.point.id = candId → Tells { trial with perf := perf })
    (hreport : handleReport P fuel s candId perf = some (0, s', reply)) :
    ∃ out' told', s'.Tracks P Tells plug₀ out' told' := by
  obtain ⟨-, ⟨-, ⟨-, -, rfl⟩ | ⟨-, -, rfl⟩⟩ | ⟨trial, r, htrial, hworkflow, hret⟩⟩ := handleReport_cases hreport
  · exact ⟨out, told, h.congr rfl rfl (by simp [Sess.log, reportedIds])⟩
  · exact ⟨out, told, h.congr rfl rfl (by simp [Sess.raise, Sess.log, reportedIds])⟩
  · have hfound := id_of_found htrial
    obtain rfl : r = 0 := by
      by_contra hr
      rw [if_pos hr] at hret
      exact absurd hret (by decide)
    obtain ⟨htell, hpending, htrace⟩ := pluginWorkflow_tells hlstack htrial hworkflow
    have hne : trial.point.id ≠ -1 := by rwa [hfound]
    have hpoints : s.points = trial.point ::ₘ s'.points := points_free htrial hne rfl hpending
    obtain ⟨rest, rfl⟩ := Multiset.le_iff_exists_add.mp h.points_le
    rw [hpoints, Multiset.cons_add] at h
    have htold := htells trial (List.mem_of_getElem? htrial) hfound
    have hout : AskTell P Tells plug₀ s.world.plug
      (HTrial.point { trial with perf := perf } ::ₘ (s'.points + rest)) told := h.play
    refine ⟨s'.points + rest, told ++ [{ trial with perf := perf }], hout.tell hne htold htell, ?_, ?_⟩
    · exact Multiset.le_add_right _ _
    · rw [htrace, h.reported, List.map_append, List.map_singleton, hfound]

/-- One event of the main loop. -/
lemma Sess.Tracks.event (h : s.Tracks P Tells plug₀ out told) (hlstack : P.lstack = []) {e : Event W}
    (hhonest : Honest Tells s e) {reply : Option (Reply V)}
    (hevent : sessEvent P fuel s e = some (true, s', reply)) :
    ∃ out' told', s'.Tracks P Tells plug₀ out' told' := by
  cases e with
  | top =>
    cases hevent
    exact ⟨out, told, h.congr rfl rfl rfl⟩
  | callback j =>
    -- a callback is registered for a layer
    obtain ⟨cb, hcb, -⟩ := Option.bind_eq_some_iff.mp hevent
    obtain ⟨hne, hle⟩ := P.cb_index cb (List.mem_of_getElem? hcb)
    rw [hlstack] at hle
    exact absurd (Int.natAbs_eq_zero.mp (Nat.le_zero.mp hle)) hne
  | generate =>
    unfold sessEvent at hevent
    split_ifs at hevent
    obtain ⟨⟨r, s₁⟩, hgen, hevent⟩ := Option.bind_eq_some_iff.mp hevent
    cases hevent
    obtain ⟨out', h'⟩ := h.generate hlstack hgen
    exact ⟨out', told, h'⟩
  | mesg srcId req =>
    obtain ⟨⟨live, s₁, r⟩, hmesg, hevent⟩ := Option.bind_eq_some_iff.mp hevent
    cases hevent
    obtain ⟨⟨r', cfg⟩, -, hmesg⟩ := Option.bind_eq_some_iff.mp hmesg
    obtain ⟨⟨r'', s₂, reply'⟩, hreq, hmesg⟩ := Option.bind_eq_some_iff.mp hmesg
    have hstart : ({ s with world := { s.world with cfg := cfg } } : Sess σ V W).Tracks P Tells plug₀ out told :=
      h.congr rfl rfl rfl
    have hhandled : r'' = 0 → ∃ out' told', s₂.Tracks P Tells plug₀ out' told' := by
      rintro rfl
      cases req with
      | best =>
        simp only [handleRequest, handleBest] at hreq
        split_ifs at hreq
        all_goals cases hreq
        exact ⟨out, told, hstart.play.best rfl, h.points_le, h.reported⟩
      | fetch => exact ⟨out, told, hstart.fetch hreq⟩
      | report candId perf => exact hstart.report hlstack hhonest.1 hhonest.2 hreq
      | restart => exact hhonest.elim
    dsimp only at hmesg
    split_ifs at hmesg with hret
    · cases hmesg
    · obtain ⟨⟨r₃, cfg'⟩, -, hmesg⟩ := Option.bind_eq_some_iff.mp hmesg
      cases hmesg
      obtain ⟨out', told', h'⟩ := hhandled (not_not.mp hret)
      exact ⟨out', told', h'.congr rfl rfl rfl⟩

omit [Top W] in
lemma Sess.Initial.tracks (h : s.Initial) : s.Tracks P Tells s.world.plug 0 [] where
  play := .start
  points_le := by
    have hnone : s.points = 0 := by
      apply Multiset.filter_eq_nil.mpr
      intro point hpoint
      obtain ⟨trial, htrial, rfl⟩ := List.mem_map.mp (Multiset.mem_coe.mp hpoint)
      exact not_not.mpr (h.pending trial htrial)
    exact hnone.le
  reported := by
    rw [h.trace]
    rfl

lemma Within.tracks {start : Sess σ V W} (hlstack : P.lstack = []) (hstart : start.Initial)
    (h : Within P (Honest Tells) start s) : ∃ out told, s.Tracks P Tells start.world.plug out told := by
  induction h with
  | init => exact ⟨0, [], hstart.tracks⟩
  | step _ hhonest hevent ih =>
    obtain ⟨out, told, ih⟩ := ih
    exact ih.event hlstack hhonest hevent

end

/-! ### One point -/

end ActiveHarmony

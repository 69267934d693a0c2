import ActiveHarmony.Lib.ArgMin
import ActiveHarmony.Server.TrialLog
import Mathlib.Order.BoundedOrder.Basic

/-!
# The best point of a session in `hserver.c`

The server keeps the best of the points that were reported to it. A report updates the best point only if
its point has another id, so a point that is measured again, or one that has got the id of an earlier point,
cannot improve on its own measurement. `best_is_least_iff` says for which messages the server knows the best
point all the same.
-/

namespace ActiveHarmony.Hserver

variable {V : Type}

/-! ## The reports that count -/

/-- The ids of the outstanding points after one more message. -/
def awaitedStep (ids : List ℤ) : TrialEvent V → List ℤ
  | .fetch status pt => if status = .ok then ids ++ [pt.id] else ids
  | .report candId _ => ids.erase candId

/-- The ids of the outstanding points after the messages. -/
def awaited (ids : List ℤ) (es : List (TrialEvent V)) : List ℤ := es.foldl awaitedStep ids

section

variable [Add V] [Zero V]

/-- A report counts if a point with its id is outstanding. -/
def scoreOf (ids : List ℤ) : TrialEvent V → List (ℤ × V)
  | .fetch _ _ => []
  | .report candId perf => if candId ∈ ids then [(candId, hperfUnify perf)] else []

/-- The ids and the performances of the reports that count. -/
def scores (ids : List ℤ) : List (TrialEvent V) → List (ℤ × V)
  | [] => []
  | e :: es => scoreOf ids e ++ scores (awaitedStep ids e) es

omit [Add V] [Zero V] in
@[simp]
lemma awaitedStep_fetch (ids : List ℤ) (status : HMesgStatus) (pt : HPoint V) :
    awaitedStep ids (.fetch status pt) = if status = .ok then ids ++ [pt.id] else ids := rfl

omit [Add V] [Zero V] in
@[simp]
lemma awaitedStep_report (ids : List ℤ) (candId : ℤ) (perf : HPerf V) :
    awaitedStep ids (.report candId perf) = ids.erase candId := rfl

@[simp]
lemma scoreOf_fetch (ids : List ℤ) (status : HMesgStatus) (pt : HPoint V) :
    scoreOf ids (.fetch status pt) = [] := rfl

@[simp]
lemma scoreOf_report (ids : List ℤ) (candId : ℤ) (perf : HPerf V) :
    scoreOf ids (.report candId perf) = if candId ∈ ids then [(candId, hperfUnify perf)] else [] := rfl

omit [Add V] [Zero V] in
lemma awaited_concat (ids : List ℤ) (hist : List (TrialEvent V)) (e : TrialEvent V) :
    awaited ids (hist ++ [e]) = awaitedStep (awaited ids hist) e := by
  unfold awaited
  rw [List.foldl_append]
  rfl

lemma scores_concat (ids : List ℤ) (hist : List (TrialEvent V)) (e : TrialEvent V) :
    scores ids (hist ++ [e]) = scores ids hist ++ scoreOf (awaited ids hist) e := by
  induction hist generalizing ids with
  | nil =>
    show scoreOf ids e ++ [] = [] ++ scoreOf ids e
    rw [List.append_nil, List.nil_append]
  | cons e' hist ih =>
    show scoreOf ids e' ++ scores (awaitedStep ids e') (hist ++ [e]) = _ ++ scores _ hist ++ _
    rw [ih, List.append_assoc]
    rfl

/-- The points that are outstanding after the messages, and those that were reported, with their
performances. Of several outstanding points with one id any may be the one that is reported. -/
inductive Account (start : List (HPoint V)) :
    List (TrialEvent V) → List (HPoint V) → List (HPoint V × V) → Prop
  | opened : Account start [] start []
  | fetched {hist out reported} (h : Account start hist out reported) (status : HMesgStatus)
      (pt : HPoint V) : Account start (hist ++ [.fetch status pt])
        (if status = .ok then out ++ [hpointCopy pt] else out) reported
  | counted {hist out reported} (h : Account start hist out reported) {pt : HPoint V} {rest}
      (hout : out.Perm (pt :: rest)) (perf : HPerf V) : Account start (hist ++ [.report pt.id perf]) rest
        (reported ++ [(pt, hperfUnify perf)])
  | ignored {hist out reported} (h : Account start hist out reported) {candId : ℤ}
      (hout : ∀ pt ∈ out, pt.id ≠ candId) (perf : HPerf V) :
      Account start (hist ++ [.report candId perf]) out reported

variable {start out : List (HPoint V)} {hist es : List (TrialEvent V)} {reported : List (HPoint V × V)}

/-- Which points have the ids does not matter for what counts. -/
lemma Account.ids (h : Account start hist out reported) :
    (out.map HPoint.id).Perm (awaited (start.map HPoint.id) hist) ∧
      reported.map (fun s => (s.1.id, s.2)) = scores (start.map HPoint.id) hist := by
  induction h with
  | opened => exact ⟨List.Perm.refl _, rfl⟩
  | fetched h status pt ih =>
    obtain ⟨hids, hscores⟩ := ih
    rw [awaited_concat, scores_concat, awaitedStep_fetch]
    refine ⟨?_, hscores.trans (List.append_nil _).symm⟩
    split_ifs
    · rw [List.map_append, List.map_singleton, hpointCopy_id]
      exact hids.append_right [pt.id]
    · exact hids
  | @counted hist out reported h pt rest hout perf ih =>
    obtain ⟨hids, hscores⟩ := ih
    have hperm := (hout.map HPoint.id).symm.trans hids
    have hmem : pt.id ∈ awaited (start.map HPoint.id) hist := hperm.mem_iff.mp List.mem_cons_self
    have herase := hperm.erase pt.id
    rw [List.map_cons, List.erase_cons_head] at herase
    rw [awaited_concat, scores_concat, List.map_append, hscores, awaitedStep_report, scoreOf_report,
      if_pos hmem]
    exact ⟨herase, rfl⟩
  | @ignored hist out reported h candId hout perf ih =>
    obtain ⟨hids, hscores⟩ := ih
    have hmem : candId ∉ awaited (start.map HPoint.id) hist := by
      rw [← hids.mem_iff, List.mem_map]
      rintro ⟨pt, hpt, hid⟩
      exact hout pt hpt hid
    rw [awaited_concat, scores_concat, awaitedStep_report, scoreOf_report, if_neg hmem,
      List.erase_of_not_mem hmem, List.append_nil]
    exact ⟨hids, hscores⟩

end

/-! ## The first of the best reports -/

section

variable [LinearOrder V] [OrderTop V] {scored : List (ℤ × V)}

/-- The first report with the least performance below infinity. -/
def leader (scored : List (ℤ × V)) : ℤ × V :=
  scored.foldl (fun best s => if s.2 < best.2 then s else best) (-1, ⊤)

lemma leader_concat (scored : List (ℤ × V)) (s : ℤ × V) :
    leader (scored ++ [s]) = if s.2 < (leader scored).2 then s else leader scored := by
  unfold leader
  rw [List.foldl_append]
  rfl

lemma leader_le {s : ℤ × V} (hs : s ∈ scored) : (leader scored).2 ≤ s.2 := by
  have hleast := @ArgMin.foldl_least _ _ _ Prod.snd
    (fun best s : ℤ × V => if s.2 < best.2 then s else best) (-1, ⊤) scored (by
      intro y hy z hz
      by_cases hlt : z.2 < y.2
      · right
        exact ⟨if_pos hlt, hlt.le⟩
      · left
        exact ⟨if_neg hlt, not_lt.mp hlt⟩)
  exact hleast.2 s (List.mem_cons_of_mem _ hs)

/-! ## What the server knows -/

variable [Add V] [Zero V] {t₀ t t' : TrialLog V} {hist es : List (TrialEvent V)} {e : TrialEvent V}

/-- The state after `session_open`. The array may hold points of an earlier session. -/
structure TrialLog.Begun (t : TrialLog V) : Prop extends t.Sized where
  best_eq : t.best = hpointInitializer V
  perf_eq : t.bestPerf = ⊤
  received : ∀ pt ∈ t.points, Received pt

/-- The best performance is the least that was reported for an outstanding point, and the best point is
one with that report. -/
def TrialLog.KnowsBest (start : List (HPoint V)) (t : TrialLog V) (hist : List (TrialEvent V)) : Prop :=
  ∃ out reported, Account start hist out reported ∧ (∀ s ∈ reported, t.bestPerf ≤ s.2) ∧
    (t.bestPerf = ⊤ ∨ (t.best, t.bestPerf) ∈ reported)

/-- What is known while no better report is held back. -/
structure TrialLog.Leads (t₀ t : TrialLog V) (hist : List (TrialEvent V)) : Prop extends t.Sized where
  room_eq : t.room = t₀.room
  received : ∀ pt ∈ t.points, Received pt
  leads : (t.best.id, t.bestPerf) = leader (scores (t₀.points.map HPoint.id) hist)
  account : ∃ reported, Account t₀.points hist t.points reported ∧
    (t.bestPerf = ⊤ ∨ (t.best, t.bestPerf) ∈ reported)

omit [Add V] [Zero V] in
lemma TrialLog.Begun.leads [Add V] [Zero V] (h : t₀.Begun) : t₀.Leads t₀ [] := by
  refine ⟨h.toSized, rfl, h.received, ?_, [], .opened, Or.inl h.perf_eq⟩
  rw [h.best_eq, h.perf_eq]
  rfl

lemma TrialLog.Leads.knowsBest (h : t₀.Leads t hist) : t.KnowsBest t₀.points hist := by
  obtain ⟨reported, haccount, hbest⟩ := h.account
  refine ⟨_, reported, haccount, ?_, hbest⟩
  intro s hs
  have hscore : (s.1.id, s.2) ∈ scores (t₀.points.map HPoint.id) hist := by
    rw [← haccount.ids.2]
    exact List.mem_map_of_mem hs
  rw [show t.bestPerf = _ from congrArg Prod.snd h.leads]
  exact leader_le hscore

lemma TrialLog.Leads.awaited_perm (h : t₀.Leads t hist) :
    (t.points.map HPoint.id).Perm (awaited (t₀.points.map HPoint.id) hist) := by
  obtain ⟨reported, haccount, -⟩ := h.account
  exact haccount.ids.1

lemma TrialLog.Leads.len_eq (h : t₀.Leads t hist) :
    t.fetchedLen = (awaited (t₀.points.map HPoint.id) hist).length := by
  rw [← h.awaited_perm.length_eq, List.length_map]
  exact (List.length_take_of_le h.len_le).symm

omit [OrderTop V] in
/-- A report for an outstanding point. -/
lemma TrialLog.report_counted {candId : ℤ} (hsized : t.Sized) (hreceived : ∀ pt ∈ t.points, Received pt)
    (hmem : candId ∈ t.points.map HPoint.id) (perf : HPerf V) :
    ∃ pt t', t.report candId perf = some t' ∧ t'.Sized ∧ t'.room = t.room ∧ pt.id = candId ∧
      t.points.Perm (pt :: t'.points) ∧
      t'.best = (if hperfUnify perf < t.bestPerf ∧ t.best.id ≠ candId then pt else t.best) ∧
      t'.bestPerf = if hperfUnify perf < t.bestPerf ∧ t.best.id ≠ candId then hperfUnify perf
        else t.bestPerf := by
  obtain ⟨t', hreport, hsized', hroom⟩ := TrialLog.report_sized hsized candId perf
  cases hfind : (t.fetched.take t.fetchedLen).findIdx? (·.id = candId) with
  | none =>
    obtain ⟨pt, hpt, hid⟩ := List.mem_map.mp hmem
    have hne := List.findIdx?_eq_none_iff.mp hfind pt hpt
    exact absurd hid (of_decide_eq_false hne)
  | some i =>
    obtain ⟨pt, last, hlt, hpt, hid, hlast, hreport'⟩ := TrialLog.report_found hsized perf hfind
    have hcopy : hpointCopy pt = pt := hreceived pt (List.mem_of_getElem? hpt)
    have hremove := hsized.taken_perm hreceived hlt hlast
    obtain ⟨hi, hget⟩ := List.getElem?_eq_some_iff.mp hpt
    have hperm := List.getElem_cons_eraseIdx_perm hi
    rw [hget] at hperm
    rw [hreport] at hreport'
    refine ⟨pt, t', hreport, hsized', hroom, hid, ?_, ?_, ?_⟩
    · rw [Option.some.inj hreport']
      exact hperm.symm.trans (List.Perm.cons pt hremove.symm)
    · rw [Option.some.inj hreport', hcopy, hid]
    · rw [Option.some.inj hreport', hid]

/-- A message reports a better performance than all before it, for a point with the id of the best one. -/
def HeldBack (ids : List ℤ) (hist : List (TrialEvent V)) : TrialEvent V → Prop
  | .fetch _ _ => False
  | .report candId perf => candId ∈ awaited ids hist ∧
      hperfUnify perf < (leader (scores ids hist)).2 ∧ (leader (scores ids hist)).1 = candId

instance (ids : List ℤ) (hist : List (TrialEvent V)) :
    (e : TrialEvent V) → Decidable (HeldBack ids hist e)
  | .fetch _ _ => isFalse id
  | .report _ _ => inferInstanceAs (Decidable (_ ∧ _ ∧ _))

omit [OrderTop V] in
/-- A report for any other point. -/
lemma TrialLog.report_ignored {candId : ℤ} (hsized : t.Sized) (hmem : candId ∉ t.points.map HPoint.id)
    (perf : HPerf V) : t.report candId perf = some (t.append t.best (hperfUnify perf)) := by
  apply TrialLog.report_not_found hsized
  apply List.findIdx?_eq_none_iff.mpr
  intro pt hpt
  rw [decide_eq_false_iff_not]
  intro hid
  exact hmem (List.mem_map.mpr ⟨pt, hpt, hid⟩)

lemma TrialLog.Leads.step (h : t₀.Leads t hist) (hnot : ¬HeldBack (t₀.points.map HPoint.id) hist e)
    (hstep : t.step e = some t') : t₀.Leads t' (hist ++ [e]) := by
  obtain ⟨reported, haccount, hbest⟩ := h.account
  cases e with
  | fetch status pt =>
    have hscores : scores (t₀.points.map HPoint.id) (hist ++ [.fetch status pt]) =
        scores (t₀.points.map HPoint.id) hist := by
      rw [scores_concat, scoreOf_fetch, List.append_nil]
    have haccount' := haccount.fetched status pt
    by_cases hok : status = .ok
    · rw [hok] at hstep
      obtain ⟨hsized, hroom, -, hpoints, hbest', hperf, -⟩ := TrialLog.fetch_ok h.toSized hstep
      have hpoints' : t'.points = t.points ++ [hpointCopy pt] := hpoints
      rw [if_pos hok, ← hpoints'] at haccount'
      refine ⟨hsized, hroom.trans h.room_eq, ?_, ?_, reported, haccount', by rw [hbest', hperf]; exact hbest⟩
      · intro p hp
        rw [hpoints', List.mem_append, List.mem_singleton] at hp
        obtain hp | rfl := hp
        · exact h.received p hp
        · exact received_hpointCopy pt
      · rw [hbest', hperf, hscores]
        exact h.leads
    · obtain rfl : t = t' := by
        have hsame : t.step (.fetch status pt) = some t := if_neg hok
        exact Option.some.inj (hsame.symm.trans hstep)
      rw [if_neg hok] at haccount'
      refine ⟨h.toSized, h.room_eq, h.received, ?_, reported, haccount', hbest⟩
      rw [hscores]
      exact h.leads
  | report candId perf =>
    have hbefore : leader (scores (t₀.points.map HPoint.id) hist) = (t.best.id, t.bestPerf) := h.leads.symm
    by_cases hmem : candId ∈ t.points.map HPoint.id
    · obtain ⟨pt, t'', hreport, hsized, hroom, hid, hperm, hbest', hperf'⟩ :=
        TrialLog.report_counted h.toSized h.received hmem perf
      obtain rfl : t'' = t' := Option.some.inj (hreport.symm.trans hstep)
      have hmem' := h.awaited_perm.mem_iff.mp hmem
      have hguard : (hperfUnify perf < t.bestPerf ∧ t.best.id ≠ candId) ↔ hperfUnify perf < t.bestPerf := by
        constructor
        · exact And.left
        · intro hlt
          refine ⟨hlt, ?_⟩
          intro heq
          apply hnot
          refine ⟨hmem', ?_, ?_⟩
          · rw [hbefore]
            exact hlt
          · rw [hbefore]
            exact heq
      rw [if_congr hguard rfl rfl] at hbest' hperf'
      have haccount' := haccount.counted hperm perf
      rw [hid] at haccount'
      refine ⟨hsized, hroom.trans h.room_eq, ?_, ?_, _, haccount', ?_⟩
      · intro p hp
        exact h.received p (hperm.mem_iff.mpr (List.mem_cons_of_mem pt hp))
      · rw [scores_concat, scoreOf_report, if_pos hmem', leader_concat, hbefore, hbest', hperf']
        by_cases hlt : hperfUnify perf < t.bestPerf
        · rw [if_pos hlt, if_pos hlt, if_pos hlt, hid]
        · rw [if_neg hlt, if_neg hlt, if_neg hlt]
      · rw [hbest', hperf']
        by_cases hlt : hperfUnify perf < t.bestPerf
        · rw [if_pos hlt, if_pos hlt]
          exact Or.inr (List.mem_append_right _ (List.mem_singleton.mpr rfl))
        · rw [if_neg hlt, if_neg hlt]
          exact hbest.imp id (List.mem_append_left _)
    · obtain rfl : t.append t.best (hperfUnify perf) = t' :=
        Option.some.inj ((TrialLog.report_ignored h.toSized hmem perf).symm.trans hstep)
      have hout : ∀ pt ∈ t.points, pt.id ≠ candId := by
        intro pt hpt hid
        exact hmem (List.mem_map.mpr ⟨pt, hpt, hid⟩)
      refine ⟨⟨h.length_eq, h.len_le⟩, h.room_eq, h.received, ?_, reported, haccount.ignored hout perf, hbest⟩
      rw [scores_concat, scoreOf_report, if_neg (fun hin => hmem (h.awaited_perm.mem_iff.mpr hin)),
        List.append_nil]
      exact h.leads

/-- A better report that is held back is missed. -/
lemma TrialLog.Leads.not_heldBack (h : t₀.Leads t hist) (hstep : t.step e = some t')
    (hknows : t'.KnowsBest t₀.points (hist ++ [e])) : ¬HeldBack (t₀.points.map HPoint.id) hist e := by
  intro hheld
  cases e with
  | fetch status pt => exact hheld
  | report candId perf =>
    obtain ⟨hmem, hlt, hid⟩ := hheld
    rw [← h.leads] at hlt hid
    obtain ⟨pt, t'', hreport, -, -, -, -, -, hperf⟩ :=
      TrialLog.report_counted h.toSized h.received (h.awaited_perm.mem_iff.mpr hmem) perf
    obtain rfl : t'' = t' := Option.some.inj (hreport.symm.trans hstep)
    rw [if_neg (fun hguard => hguard.2 hid)] at hperf
    obtain ⟨out, reported, haccount, hleast, -⟩ := hknows
    -- the report counts
    have hscore : (candId, hperfUnify perf) ∈ reported.map fun s => (s.1.id, s.2) := by
      rw [haccount.ids.2, scores_concat, scoreOf_report, if_pos hmem]
      exact List.mem_append_right _ (List.mem_singleton.mpr rfl)
    obtain ⟨s, hs, heq⟩ := List.mem_map.mp hscore
    have hle := hleast s hs
    rw [show s.2 = hperfUnify perf from congrArg Prod.snd heq, hperf] at hle
    exact absurd hlt (not_lt.mpr hle)

/-! ## Runs -/

/-- The server knows the best point exactly while there is room for the outstanding points and no better
report is held back. -/
theorem best_is_least_iff (h : t₀.Begun) (es : List (TrialEvent V)) :
    (∀ hist, hist <+: es → ∃ t, t₀.run hist = some t ∧ t.KnowsBest t₀.points hist) ↔
    (∀ hist pt, hist ++ [.fetch .ok pt] <+: es →
      (awaited (t₀.points.map HPoint.id) hist).length < t₀.room) ∧
    ∀ hist e, hist ++ [e] <+: es → ¬HeldBack (t₀.points.map HPoint.id) hist e := by
  have hpre : ∀ {hist : List (TrialEvent V)} {e}, hist ++ [e] <+: es → hist <+: es :=
    fun h => (List.prefix_append _ _).trans h
  constructor
  · intro hall
    have hleads : ∀ hist, hist <+: es → ∃ t, t₀.run hist = some t ∧ t₀.Leads t hist := by
      intro hist
      induction hist using List.reverseRecOn with
      | nil => exact fun _ => ⟨t₀, rfl, h.leads⟩
      | append_singleton hist e ih =>
        intro hes
        obtain ⟨t, hrun, hleads⟩ := ih (hpre hes)
        obtain ⟨t', hrun', hknows⟩ := hall _ hes
        have hstep := hrun'
        rw [TrialLog.run_append, hrun, Option.bind_some] at hstep
        exact ⟨t', hrun', hleads.step (hleads.not_heldBack hstep hknows) hstep⟩
    have hsteps : ∀ hist e, hist ++ [e] <+: es → ∃ t t', t₀.Leads t hist ∧ t.step e = some t' ∧
        t'.KnowsBest t₀.points (hist ++ [e]) := by
      intro hist e hes
      obtain ⟨t, hrun, hleads⟩ := hleads hist (hpre hes)
      obtain ⟨t', hstep, hknows⟩ := hall _ hes
      rw [TrialLog.run_append, hrun, Option.bind_some] at hstep
      exact ⟨t, t', hleads, hstep, hknows⟩
    constructor
    · intro hist pt hes
      obtain ⟨t, t', hleads, hstep, -⟩ := hsteps hist _ hes
      rw [← hleads.len_eq, ← hleads.room_eq]
      exact (hleads.toSized.step_iff _).mp ⟨t', hstep⟩ pt rfl
    · intro hist e hes
      obtain ⟨t, t', hleads, hstep, hknows⟩ := hsteps hist e hes
      exact hleads.not_heldBack hstep hknows
  · rintro ⟨hroom, hheld⟩ hist hes
    have hleads : ∃ t, t₀.run hist = some t ∧ t₀.Leads t hist := by
      induction hist using List.reverseRecOn with
      | nil => exact ⟨t₀, rfl, h.leads⟩
      | append_singleton hist e ih =>
        obtain ⟨t, hrun, hleads⟩ := ih (hpre hes)
        obtain ⟨t', hstep⟩ := (hleads.toSized.step_iff e).mpr (by
          intro pt heq
          rw [hleads.len_eq, hleads.room_eq]
          exact hroom hist pt (heq ▸ hes))
        refine ⟨t', ?_, hleads.step (hheld hist e hes) hstep⟩
        rw [TrialLog.run_append, hrun]
        exact hstep
    obtain ⟨t, hrun, hleads⟩ := hleads
    exact ⟨t, hrun, hleads.knowsBest⟩

end

lemma firstTrials_begun : firstTrials.Begun := 
  ⟨⟨rfl, le_rfl⟩, rfl, rfl, fun _ hpt => absurd hpt List.not_mem_nil⟩

/-- A point is measured again after another one. -/
def measuredAgain : List (TrialEvent (WithTop ℕ)) :=
  [.fetch .ok (tilePoint 1 4), tileReport 1 50, .fetch .ok (tilePoint 2 8), tileReport 2 40,
    .fetch .ok (tilePoint 1 4), tileReport 1 30]

/-- The last report is the best one. -/
theorem best_is_least_measuredAgain :
    ∃ t, firstTrials.run measuredAgain = some t ∧ t.KnowsBest [] measuredAgain := by
  have hcond : ∀ i < 6, ∀ e ∈ measuredAgain[i]?,
      (awaited [] (measuredAgain.take i)).length < 2 ∧ ¬HeldBack [] (measuredAgain.take i) e := by
    decide +kernel
  have hat : ∀ hist e, hist ++ [e] <+: measuredAgain →
      (awaited [] hist).length < 2 ∧ ¬HeldBack [] hist e := by
    intro hist e hes
    obtain ⟨i, hi, rfl⟩ := exists_take hes
    exact hcond i (List.getElem?_eq_some_iff.mp hi).1 e hi
  exact (best_is_least_iff firstTrials_begun measuredAgain).mpr
    ⟨fun hist pt hes => (hat hist _ hes).1, fun hist e hes => (hat hist e hes).2⟩ _ (List.prefix_refl _)

/-- A point is measured twice. -/
def measuredTwice : List (TrialEvent (WithTop ℕ)) :=
  [.fetch .ok (tilePoint 1 4), tileReport 1 50, .fetch .ok (tilePoint 1 4), tileReport 1 30]

/-- The better measurement is not the best performance. -/
theorem second_measurement_missed : ∃ t, firstTrials.run measuredTwice = some t ∧ t.bestPerf = 50 ∧
    ¬t.KnowsBest firstTrials.points measuredTwice := by
  have hrun : (firstTrials.run measuredTwice).map TrialLog.bestPerf = some 50 := by decide +kernel
  obtain ⟨t, ht, hperf⟩ := Option.map_eq_some_iff.mp hrun
  refine ⟨t, ht, hperf, ?_⟩
  rintro ⟨out, reported, haccount, hleast, -⟩
  have hscore : ((1 : ℤ), (30 : WithTop ℕ)) ∈ reported.map fun s => (s.1.id, s.2) := by
    rw [haccount.ids.2]
    decide +kernel
  obtain ⟨s, hs, heq⟩ := List.mem_map.mp hscore
  have hle := hleast s hs
  rw [show s.2 = 30 from congrArg Prod.snd heq, hperf] at hle
  exact absurd hle (by decide)

end ActiveHarmony.Hserver

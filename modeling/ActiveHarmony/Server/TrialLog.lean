import ActiveHarmony.Lib.PrefixArray
import ActiveHarmony.Server.Core

/-!
# The trials of a session in `hserver.c`

The server keeps the points that were delivered to clients in `fetched` until they are reported, and
one record of each report in `log`. The memory of `fetched` is grown by the size of a pointer for each
element, and an element is a whole point: `tracked_iff` says how many points may be outstanding.
-/

namespace ActiveHarmony.Hserver

/-- `sizeof(hpoint_t)`. -/
def sizeofHpoint : ℕ := 24

/-- `sizeof(hpoint_t *)`. -/
def sizeofHpointPtr : ℕ := 8

/-- The points that lie within the memory of an array with this capacity. -/
def wholePoints (cap : ℕ) : ℕ := cap * sizeofHpointPtr / sizeofHpoint

/-- The fields of `session_state_t` that keep trials. `fetched` are the elements of the array that lie
within its memory. -/
structure TrialLog (V : Type) where
  best : HPoint V
  bestPerf : V
  log : List (HPoint V × V)
  fetched : List (HPoint V)
  fetchedLen : ℕ
  fetchedCap : ℕ
deriving DecidableEq, Repr

/-- What the session sends in answer to a FETCH request, and what clients report. -/
inductive TrialEvent (V : Type) where
  | fetch (status : HMesgStatus) (pt : HPoint V)
  | report (candId : ℤ) (perf : HPerf V)

variable {V : Type}

/-- `array_grow` for `fetched`. -/
def TrialLog.growFetched (t : TrialLog V) : TrialLog V :=
  let cap := grownCap t.fetchedCap
  let zeroed := List.replicate (wholePoints cap - t.fetched.length) { id := 0, val := [] }
  { t with fetched := t.fetched ++ zeroed, fetchedCap := cap }

/-- The FETCH case of `handle_session_socket`; `none` if it writes behind the memory of the array. -/
def TrialLog.fetch (t : TrialLog V) (status : HMesgStatus) (pt : HPoint V) : Option (TrialLog V) :=
  if status = .ok then
    -- Log this point before we forward it to the client.
    let t := if t.fetchedLen = t.fetchedCap then t.growFetched else t
    if t.fetchedLen < t.fetched.length then
      some { t with fetched := t.fetched.set t.fetchedLen (hpointCopy pt)
                    fetchedLen := t.fetchedLen + 1 }
    else none
  else some t

/-- `append_http_log`, without the time. -/
def TrialLog.append (t : TrialLog V) (pt : HPoint V) (perf : V) : TrialLog V :=
  { t with log := t.log ++ [(hpointCopy pt, perf)] }

/-- A point is removed from the fetched list: the last one takes its place. `none` if it is read behind
the memory of the array. -/
def TrialLog.remove (t : TrialLog V) (i : ℕ) : Option (TrialLog V) :=
  let t := { t with fetchedLen := t.fetchedLen - 1 }
  if i < t.fetchedLen then
    t.fetched[t.fetchedLen]?.map fun last => { t with fetched := t.fetched.set i (hpointCopy last) }
  else some t

section

variable [LT V] [DecidableLT V]

/-- Update our best point data, if necessary. -/
def TrialLog.updateBest (t : TrialLog V) (pt : HPoint V) (perf : V) : TrialLog V :=
  if perf < t.bestPerf ∧ t.best.id ≠ pt.id then { t with bestPerf := perf, best := hpointCopy pt } else t

variable [Add V] [Zero V]

/-- The REPORT case of `handle_client_socket`; `none` if it reads behind the memory of the array. -/
def TrialLog.report (t : TrialLog V) (candId : ℤ) (perf : HPerf V) : Option (TrialLog V) :=
  let perf := hperfUnify perf
  match (t.fetched.take t.fetchedLen).findIdx? (·.id = candId) with
  | some i =>
    -- Copy point from fetched list to HTTP log.
    t.fetched[i]?.bind fun pt => ((t.append pt perf).updateBest pt perf).remove i
  | none => if t.fetched.length < t.fetchedLen then none else some (t.append t.best perf)

/-- One message. -/
def TrialLog.step (t : TrialLog V) : TrialEvent V → Option (TrialLog V)
  | .fetch status pt => t.fetch status pt
  | .report candId perf => t.report candId perf

/-- Several messages. -/
def TrialLog.run (t : TrialLog V) (es : List (TrialEvent V)) : Option (TrialLog V) :=
  es.foldlM TrialLog.step t

end

/-! ## The session list of the server -/

/-- The trials of a session in the session list. -/
def SessionState.withTrials (sess : SessionState V) (t : TrialLog V) : SessionState V :=
  { sess with best := t.best, bestPerf := t.bestPerf, log := t.log
              fetched := t.fetched.take t.fetchedLen }

/-- The array holds one more point, after it is grown if it is full. -/
def TrialLog.room (t : TrialLog V) : ℕ := wholePoints (if t.fetchedCap = 0 then 8 else t.fetchedCap)

/-- What lies in the memory of the array. -/
structure TrialLog.Sized (t : TrialLog V) : Prop where
  length_eq : t.fetched.length = wholePoints t.fetchedCap
  len_le : t.fetchedLen ≤ t.fetched.length

lemma wholePoints_lt {cap : ℕ} (h : cap ≠ 0) : wholePoints cap < cap := by
  unfold wholePoints sizeofHpointPtr sizeofHpoint
  omega

/-- The array is grown only when it has no memory yet. -/
lemma TrialLog.Sized.cap_eq_zero {t : TrialLog V} (h : t.Sized) (hfull : t.fetchedLen = t.fetchedCap) :
    t.fetchedCap = 0 := by
  by_contra hcap
  have hlt := wholePoints_lt hcap
  have hle := h.len_le
  rw [h.length_eq] at hle
  omega

/-- The array when a point is to be added. -/
lemma TrialLog.Sized.grow {t : TrialLog V} (h : t.Sized) :
    ∃ cells cap, (if t.fetchedLen = t.fetchedCap then t.growFetched else t) =
        { t with fetched := cells, fetchedCap := cap } ∧
      cap ≠ 0 ∧ cells.length = wholePoints cap ∧ t.room = wholePoints cap ∧
      cells.take t.fetchedLen = t.fetched.take t.fetchedLen := by
  by_cases hfull : t.fetchedLen = t.fetchedCap
  · have hcap := h.cap_eq_zero hfull
    have hnil : t.fetched = [] := by
      apply List.eq_nil_of_length_eq_zero
      rw [h.length_eq, hcap]
      rfl
    rw [if_pos hfull]
    refine ⟨List.replicate (wholePoints 8) { id := 0, val := [] }, 8, ?_, by decide, ?_, ?_, ?_⟩
    · unfold TrialLog.growFetched
      rw [hcap, hnil]
      rfl
    · exact List.length_replicate
    · unfold TrialLog.room
      rw [if_pos hcap]
    · rw [hfull, hcap, List.take_zero, List.take_zero]
  · have hcap : t.fetchedCap ≠ 0 := by
      intro hzero
      have hle := h.len_le
      rw [h.length_eq, hzero] at hle
      exact hfull ((Nat.le_zero.mp hle).trans hzero.symm)
    rw [if_neg hfull]
    refine ⟨t.fetched, t.fetchedCap, rfl, hcap, h.length_eq, ?_, rfl⟩
    unfold TrialLog.room
    rw [if_neg hcap]

/-- A point is added to the array where there is room for it. -/
lemma TrialLog.fetch_ok_iff {t : TrialLog V} (h : t.Sized) (pt : HPoint V) :
    (∃ t', t.fetch .ok pt = some t') ↔ t.fetchedLen < t.room := by
  obtain ⟨cells, cap, hgrow, -, hlength, hroom, -⟩ := h.grow
  unfold TrialLog.fetch
  rw [if_pos rfl]
  simp only [hgrow, hlength, hroom]
  by_cases hlt : t.fetchedLen < wholePoints cap
  · rw [if_pos hlt]
    exact ⟨fun _ => hlt, fun _ => ⟨_, rfl⟩⟩
  · rw [if_neg hlt]
    exact ⟨nofun, fun h => absurd h hlt⟩

/-- What the array holds then. -/
lemma TrialLog.fetch_ok {t t' : TrialLog V} (hsized : t.Sized) {pt : HPoint V}
    (h : t.fetch .ok pt = some t') :
    t'.Sized ∧ t'.room = t.room ∧ t'.fetchedLen = t.fetchedLen + 1 ∧
      t'.fetched.take t'.fetchedLen = t.fetched.take t.fetchedLen ++ [hpointCopy pt] ∧
      t'.best = t.best ∧ t'.bestPerf = t.bestPerf ∧ t'.log = t.log := by
  obtain ⟨cells, cap, hgrow, hcap, hlength, hroom, htake⟩ := hsized.grow
  unfold TrialLog.fetch at h
  rw [if_pos rfl] at h
  simp only [hgrow] at h
  by_cases hlt : t.fetchedLen < cells.length
  · rw [if_pos hlt] at h
    rw [← Option.some.inj h]
    refine ⟨⟨?_, ?_⟩, ?_, rfl, ?_, rfl, rfl, rfl⟩
    · rw [List.length_set]
      exact hlength
    · rw [List.length_set]
      exact hlt
    · unfold TrialLog.room at hroom ⊢
      rw [if_neg hcap, hroom]
    · rw [PrefixArray.take_push hlt, htake]
  · rw [if_neg hlt] at h
    exact absurd h nofun

/-- The session list changes as the array does. -/
lemma TrialLog.fetch_withTrials {t t' : TrialLog V} (hsized : t.Sized) {pt : HPoint V}
    (h : t.fetch .ok pt = some t') (sess : SessionState V) :
    sess.withTrials t' = { sess.withTrials t with
      fetched := (sess.withTrials t).fetched ++ [hpointCopy pt] } := by
  obtain ⟨-, -, -, htake, hbest, hperf, hlog⟩ := TrialLog.fetch_ok hsized h
  unfold SessionState.withTrials
  rw [htake, hbest, hperf, hlog]

/-! ## Outstanding points -/

/-- The event is a report for the point. -/
def TrialEvent.reports (id : ℤ) : TrialEvent V → Bool
  | .fetch _ _ => false
  | .report candId _ => candId = id

/-- The points that were delivered with status OK and have not been reported since. -/
def outstanding : List (TrialEvent V) → List (HPoint V)
  | [] => []
  | .fetch status pt :: es =>
    if status = .ok ∧ es.any (·.reports pt.id) = false then pt :: outstanding es else outstanding es
  | .report _ _ :: es => outstanding es

lemma outstanding_append_fetch (es : List (TrialEvent V)) (status : HMesgStatus) (pt : HPoint V) :
    outstanding (es ++ [.fetch status pt]) =
      if status = .ok then outstanding es ++ [pt] else outstanding es := by
  induction es with
  | nil =>
    simp only [List.nil_append, outstanding, List.any_nil, and_true]
  | cons e es ih =>
    cases e with
    | report candId perf => exact ih
    | fetch status' pt' =>
      have hany : [TrialEvent.fetch status pt].any (·.reports pt'.id) = false := rfl
      simp only [List.cons_append, outstanding, List.any_append, hany, Bool.or_false, ih]
      split_ifs <;> rfl

lemma outstanding_append_report (es : List (TrialEvent V)) (candId : ℤ) (perf : HPerf V) :
    outstanding (es ++ [.report candId perf]) = (outstanding es).filter fun pt => pt.id ≠ candId := by
  induction es with
  | nil => rfl
  | cons e es ih =>
    cases e with
    | report candId' perf' => exact ih
    | fetch status pt =>
      have hany : [TrialEvent.report candId perf].any (·.reports pt.id) = decide (candId = pt.id) :=
        Bool.or_false _
      simp only [List.cons_append, outstanding, List.any_append, hany, ih]
      by_cases hout : status = .ok ∧ es.any (·.reports pt.id) = false
      · rw [if_pos hout, List.filter_cons]
        by_cases hid : candId = pt.id
        · rw [if_neg, if_neg] <;> simp [hid]
        · rw [if_pos, if_pos]
          · exact decide_eq_true (Ne.symm hid)
          · rw [hout.2, decide_eq_false hid]
            exact ⟨hout.1, rfl⟩
      · rw [if_neg hout, if_neg]
        intro h
        exact hout ⟨h.1, (Bool.or_eq_false_iff.mp h.2).1⟩

section

variable [Add V] [Zero V]

/-- The records of one message. -/
def recordOf (pts : List (HPoint V)) (best : HPoint V) : TrialEvent V → List (HPoint V × V)
  | .fetch _ _ => []
  | .report candId perf => [((pts.find? (·.id = candId)).getD best, hperfUnify perf)]

variable [LT V] [DecidableLT V]

/-- A point as it is received: without an id it has no values. -/
def Received (pt : HPoint V) : Prop := hpointCopy pt = pt

omit [Add V] [Zero V] [LT V] [DecidableLT V] in
lemma received_hpointCopy (pt : HPoint V) : Received (hpointCopy pt) := by
  unfold Received hpointCopy
  by_cases hid : pt.id = -1
  · rw [if_pos hid]
    exact if_pos rfl
  · rw [if_neg hid, if_neg hid]

/-- The points that the array holds. -/
def TrialLog.points (t : TrialLog V) : List (HPoint V) := t.fetched.take t.fetchedLen

/-- The array holds points as they are received, each id once. -/
structure TrialLog.Tidy (t : TrialLog V) : Prop extends t.Sized where
  best : Received t.best
  received : ∀ pt ∈ t.points, Received pt
  nodup : (t.points.map HPoint.id).Nodup

omit [Add V] [Zero V] in
lemma TrialLog.updateBest_eq (t : TrialLog V) (pt : HPoint V) (perf : V) :
    t.updateBest pt perf = { t with
      best := if perf < t.bestPerf ∧ t.best.id ≠ pt.id then hpointCopy pt else t.best
      bestPerf := if perf < t.bestPerf ∧ t.best.id ≠ pt.id then perf else t.bestPerf } := by
  unfold TrialLog.updateBest
  split_ifs <;> rfl

omit [Add V] [Zero V] [LT V] [DecidableLT V] in
lemma TrialLog.remove_eq {t : TrialLog V} {last : HPoint V}
    (hlast : t.fetched[t.fetchedLen - 1]? = some last) (i : ℕ) :
    t.remove i = some { t with
      fetched := if i < t.fetchedLen - 1 then t.fetched.set i (hpointCopy last) else t.fetched
      fetchedLen := t.fetchedLen - 1 } := by
  unfold TrialLog.remove
  simp only [hlast, Option.map_some]
  split_ifs <;> rfl

/-- A report for a point of the array. -/
lemma TrialLog.report_found {t : TrialLog V} (h : t.Sized) {candId : ℤ} (perf : HPerf V) {i : ℕ}
    (hfind : (t.fetched.take t.fetchedLen).findIdx? (·.id = candId) = some i) :
    ∃ pt last, i < t.fetchedLen ∧ t.points[i]? = some pt ∧ pt.id = candId ∧
      t.fetched[t.fetchedLen - 1]? = some last ∧ t.report candId perf = some
        { best := if hperfUnify perf < t.bestPerf ∧ t.best.id ≠ pt.id then hpointCopy pt else t.best
          bestPerf := if hperfUnify perf < t.bestPerf ∧ t.best.id ≠ pt.id then hperfUnify perf
            else t.bestPerf
          log := t.log ++ [(hpointCopy pt, hperfUnify perf)]
          fetched := if i < t.fetchedLen - 1 then t.fetched.set i (hpointCopy last) else t.fetched
          fetchedLen := t.fetchedLen - 1
          fetchedCap := t.fetchedCap } := by
  obtain ⟨hi, hid, -⟩ := List.findIdx?_eq_some_iff_getElem.mp hfind
  have hle := h.len_le
  have hlt : i < t.fetchedLen := by
    rw [List.length_take] at hi
    omega
  have hpt : t.points[i]? = some t.fetched[i] := by
    unfold TrialLog.points
    rw [List.getElem?_take_of_lt hlt, List.getElem?_eq_getElem]
  have hlast : t.fetched[t.fetchedLen - 1]? = some t.fetched[t.fetchedLen - 1] :=
    List.getElem?_eq_getElem (by omega)
  refine ⟨_, _, hlt, hpt, ?_, hlast, ?_⟩
  · rw [List.getElem_take] at hid
    exact of_decide_eq_true hid
  · unfold TrialLog.report
    simp only [hfind, List.getElem?_eq_getElem (show i < t.fetched.length by omega), Option.bind_some,
      TrialLog.updateBest_eq]
    apply TrialLog.remove_eq
    exact hlast

/-- A report for any other point. -/
lemma TrialLog.report_not_found {t : TrialLog V} (h : t.Sized) {candId : ℤ} (perf : HPerf V)
    (hfind : (t.fetched.take t.fetchedLen).findIdx? (·.id = candId) = none) :
    t.report candId perf = some (t.append t.best (hperfUnify perf)) := by
  unfold TrialLog.report
  simp only [hfind]
  exact if_neg (not_lt.mpr h.len_le)

/-- A report stays within the memory of the array. -/
lemma TrialLog.report_sized {t : TrialLog V} (h : t.Sized) (candId : ℤ) (perf : HPerf V) :
    ∃ t', t.report candId perf = some t' ∧ t'.Sized ∧ t'.room = t.room := by
  cases hfind : (t.fetched.take t.fetchedLen).findIdx? (·.id = candId) with
  | none =>
    exact ⟨_, TrialLog.report_not_found h perf hfind, ⟨h.length_eq, h.len_le⟩, rfl⟩
  | some i =>
    obtain ⟨pt, last, hlt, -, -, -, hreport⟩ := TrialLog.report_found h perf hfind
    have hle := h.len_le
    have hlength : (if i < t.fetchedLen - 1 then t.fetched.set i (hpointCopy last)
        else t.fetched).length = t.fetched.length := by
      rw [apply_ite List.length, List.length_set, ite_self]
    refine ⟨_, hreport, ⟨hlength.trans h.length_eq, ?_⟩, rfl⟩
    show t.fetchedLen - 1 ≤ _
    rw [hlength]
    omega

omit [Add V] [Zero V] [LT V] [DecidableLT V] in
/-- The array after its last point took the place of another one. -/
lemma TrialLog.Sized.taken_perm {t : TrialLog V} (h : t.Sized) (hreceived : ∀ pt ∈ t.points, Received pt)
    {i : ℕ} (hlt : i < t.fetchedLen) {last : HPoint V} (hlast : t.fetched[t.fetchedLen - 1]? = some last) :
    ((if i < t.fetchedLen - 1 then t.fetched.set i (hpointCopy last) else t.fetched).take
      (t.fetchedLen - 1)).Perm (t.points.eraseIdx i) := by
  have hget : t.points[t.fetchedLen - 1]? = some last := by
    unfold TrialLog.points
    rw [List.getElem?_take_of_lt (by omega), hlast]
  rw [show hpointCopy last = last from hreceived last (List.mem_of_getElem? hget)]
  exact PrefixArray.take_remove hlt h.len_le hlast

/-- A report appends its record, and takes the point with its id from the array. -/
lemma TrialLog.report_spec {t : TrialLog V} (h : t.Tidy) (candId : ℤ) (perf : HPerf V) :
    ∃ t', t.report candId perf = some t' ∧ t'.Sized ∧ t'.room = t.room ∧
      t'.points.Perm (t.points.filter fun pt => pt.id ≠ candId) ∧ Received t'.best ∧
      t'.log = t.log ++ recordOf t.points t.best (.report candId perf) := by
  obtain ⟨t', hreport', hsized, hroom⟩ := TrialLog.report_sized h.toSized candId perf
  refine ⟨t', hreport', hsized, hroom, ?_⟩
  cases hfind : (t.fetched.take t.fetchedLen).findIdx? (·.id = candId) with
  | none =>
    have hnone : ∀ pt ∈ t.points, pt.id ≠ candId := by
      intro pt hpt
      exact of_decide_eq_false (List.findIdx?_eq_none_iff.mp hfind pt hpt)
    have hlog : t.points.find? (·.id = candId) = none :=
      List.find?_eq_none.mpr fun pt hpt => by simpa using hnone pt hpt
    have hfilter : (t.points.filter fun pt => pt.id ≠ candId) = t.points :=
      List.filter_eq_self.mpr fun pt hpt => decide_eq_true (hnone pt hpt)
    rw [TrialLog.report_not_found h.toSized perf hfind] at hreport'
    rw [← Option.some.inj hreport']
    refine ⟨?_, h.best, ?_⟩
    · rw [hfilter]
      exact List.Perm.refl _
    · show t.log ++ [(hpointCopy t.best, _)] = t.log ++ [((t.points.find? (·.id = candId)).getD t.best, _)]
      rw [hlog, show hpointCopy t.best = t.best from h.best]
      rfl
  | some i =>
    obtain ⟨pt, last, hlt, hpt, hid, hlast, hreport⟩ := TrialLog.report_found h.toSized perf hfind
    have hmem : pt ∈ t.points := List.mem_of_getElem? hpt
    have hperm := h.toSized.taken_perm h.received hlt hlast
    have hfilter := PrefixArray.eraseIdx_eq_filter h.nodup hpt
    have hfound := PrefixArray.find?_eq_some h.nodup hmem
    rw [hid] at hfilter hfound
    rw [hreport] at hreport'
    rw [← Option.some.inj hreport']
    refine ⟨?_, ?_, ?_⟩
    · rw [← hfilter]
      exact hperm
    · show Received (if _ then hpointCopy pt else t.best)
      split_ifs
      · exact received_hpointCopy pt
      · exact h.best
    · show t.log ++ [(hpointCopy pt, _)] = t.log ++ [((t.points.find? (·.id = candId)).getD t.best, _)]
      rw [hfound, show hpointCopy pt = pt from h.received pt hmem]
      rfl

/-- The session list changes as the array does. -/
lemma TrialLog.report_withTrials {t t' : TrialLog V} (hsized : t.Sized) {candId : ℤ} {perf : HPerf V}
    (h : t.report candId perf = some t') (sess : SessionState V) :
    (sess.withTrials t).report candId (hperfUnify perf) = sess.withTrials t' := by
  unfold SessionState.report
  rw [show (sess.withTrials t).fetched = t.fetched.take t.fetchedLen from rfl]
  cases hfind : (t.fetched.take t.fetchedLen).findIdx? (·.id = candId) with
  | none =>
    rw [TrialLog.report_not_found hsized perf hfind] at h
    rw [← Option.some.inj h]
    rfl
  | some i =>
    obtain ⟨pt, last, hlt, hpt, -, hlast, hreport⟩ := TrialLog.report_found hsized perf hfind
    rw [hreport] at h
    have hlength : (t.fetched.take t.fetchedLen).length = t.fetchedLen :=
      List.length_take_of_le hsized.len_le
    have hpt' : (t.fetched.take t.fetchedLen).getD i (hpointInitializer V) = pt := by
      rw [List.getD_eq_getElem?_getD, show (t.fetched.take t.fetchedLen)[i]? = some pt from hpt]
      rfl
    have hlast' : (t.fetched.take t.fetchedLen).getD (t.fetchedLen - 1) (hpointInitializer V) = last := by
      rw [List.getD_eq_getElem?_getD, List.getElem?_take_of_lt (by omega), hlast]
      rfl
    have hshort : ((t.fetched.take t.fetchedLen).set i (hpointCopy last)).take (t.fetchedLen - 1) =
        (if i < t.fetchedLen - 1 then t.fetched.set i (hpointCopy last) else t.fetched).take
          (t.fetchedLen - 1) := by
      rw [List.take_set, List.take_take, min_eq_left (by omega)]
      split_ifs with hend
      · rw [List.take_set]
      · rw [List.set_eq_of_length_le]
        rw [List.length_take]
        omega
    rw [← Option.some.inj h]
    simp only [SessionState.withTrials, ← hshort, hpt']
    by_cases hbest : hperfUnify perf < t.bestPerf ∧ t.best.id ≠ pt.id
    · simp only [if_pos hbest, hlength, hlast']
    · simp only [if_neg hbest, hlength, hlast']

/-! ## Runs -/

/-- The ids of the points that are outstanding at one time differ, and points are as they are received. -/
def Delivers (es : List (TrialEvent V)) : Prop :=
  ∀ hist pt, hist ++ [.fetch .ok pt] <+: es → Received pt ∧ ∀ p ∈ outstanding hist, p.id ≠ pt.id

/-- The state after `session_open`. -/
structure TrialLog.Opened (t : TrialLog V) : Prop extends t.Sized where
  best_eq : t.best = hpointInitializer V
  len_eq : t.fetchedLen = 0

/-- What is known after the messages `hist`. -/
structure TrialLog.Tracks (t₀ t : TrialLog V) (hist : List (TrialEvent V)) : Prop extends t.Tidy where
  room_eq : t.room = t₀.room
  perm : t.points.Perm (outstanding hist)

variable {t₀ t t' : TrialLog V} {hist es : List (TrialEvent V)} {e : TrialEvent V}

omit [Add V] [Zero V] [LT V] [DecidableLT V] in
lemma TrialLog.Tracks.len_eq (h : t₀.Tracks t hist) : t.fetchedLen = (outstanding hist).length := by
  rw [← h.perm.length_eq]
  exact (List.length_take_of_le h.len_le).symm

omit [Add V] [Zero V] [LT V] [DecidableLT V] in
lemma TrialLog.Opened.tracks (h : t₀.Opened) : t₀.Tracks t₀ [] := by
  have hnil : t₀.points = [] := by
    unfold TrialLog.points
    rw [h.len_eq, List.take_zero]
  refine ⟨⟨h.toSized, ?_, ?_, ?_⟩, rfl, ?_⟩
  · rw [h.best_eq]
    exact if_pos rfl
  · rw [hnil]
    exact fun _ hpt => absurd hpt List.not_mem_nil
  · rw [hnil]
    exact List.nodup_nil
  · rw [hnil]
    exact List.Perm.refl []

/-- A message is handled unless it is a point for which there is no room. -/
lemma TrialLog.Sized.step_iff (h : t.Sized) (e : TrialEvent V) :
    (∃ t', t.step e = some t') ↔ ∀ pt, e = .fetch .ok pt → t.fetchedLen < t.room := by
  cases e with
  | fetch status pt =>
    by_cases hok : status = .ok
    · rw [hok]
      apply (TrialLog.fetch_ok_iff h pt).trans
      exact ⟨fun hroom _ _ => hroom, fun hroom => hroom pt rfl⟩
    · constructor
      · intro _ pt' heq
        exact absurd (TrialEvent.fetch.inj heq).1 hok
      · intro _
        exact ⟨t, if_neg hok⟩
  | report candId perf =>
    constructor
    · intro _ pt heq
      exact absurd heq nofun
    · intro _
      obtain ⟨t', hstep, -⟩ := TrialLog.report_sized h candId perf
      exact ⟨t', hstep⟩

lemma TrialLog.Tracks.step_iff (h : t₀.Tracks t hist) (e : TrialEvent V) :
    (∃ t', t.step e = some t') ↔ ∀ pt, e = .fetch .ok pt → (outstanding hist).length < t₀.room := by
  rw [← h.len_eq, ← h.room_eq]
  exact h.toSized.step_iff e

/-- What is known after one more message. -/
lemma TrialLog.Tracks.step (h : t₀.Tracks t hist)
    (hpt : ∀ pt, e = .fetch .ok pt → Received pt ∧ ∀ p ∈ outstanding hist, p.id ≠ pt.id)
    (hstep : t.step e = some t') :
    t₀.Tracks t' (hist ++ [e]) ∧ t'.log = t.log ++ recordOf (outstanding hist) t.best e := by
  cases e with
  | fetch status pt =>
    by_cases hok : status = .ok
    · obtain ⟨hreceived, hnew⟩ := hpt pt (by rw [hok])
      rw [hok] at hstep ⊢
      obtain ⟨hsized, hroom, -, hpoints, hbest, -, hlog⟩ := TrialLog.fetch_ok h.toSized hstep
      rw [show hpointCopy pt = pt from hreceived] at hpoints
      have hpoints' : t'.points = t.points ++ [pt] := hpoints
      refine ⟨⟨⟨hsized, ?_, ?_, ?_⟩, hroom.trans h.room_eq, ?_⟩, hlog.trans (List.append_nil _).symm⟩
      · rw [hbest]
        exact h.best
      · intro p hp
        rw [hpoints', List.mem_append, List.mem_singleton] at hp
        obtain hp | rfl := hp
        · exact h.received p hp
        · exact hreceived
      · rw [hpoints', List.map_append]
        apply List.Nodup.append h.nodup (List.nodup_singleton _)
        intro id hid hid'
        obtain ⟨p, hp, rfl⟩ := List.mem_map.mp hid
        exact hnew p (h.perm.mem_iff.mp hp) (List.mem_singleton.mp hid')
      · rw [hpoints', outstanding_append_fetch, if_pos rfl]
        exact h.perm.append_right [pt]
    · obtain rfl : t = t' := by
        have hsame : t.step (.fetch status pt) = some t := if_neg hok
        exact Option.some.inj (hsame.symm.trans hstep)
      refine ⟨⟨h.toTidy, h.room_eq, ?_⟩, (List.append_nil _).symm⟩
      rw [outstanding_append_fetch, if_neg hok]
      exact h.perm
  | report candId perf =>
    obtain ⟨t'', hstep', hsized, hroom, hperm, hbest, hlog⟩ := TrialLog.report_spec h.toTidy candId perf
    obtain rfl : t'' = t' := Option.some.inj (hstep'.symm.trans hstep)
    refine ⟨⟨⟨hsized, hbest, ?_, ?_⟩, hroom.trans h.room_eq, ?_⟩, ?_⟩
    · intro p hp
      exact h.received p (List.mem_of_mem_filter (hperm.mem_iff.mp hp))
    · rw [(hperm.map HPoint.id).nodup_iff]
      exact h.nodup.sublist (List.filter_sublist.map HPoint.id)
    · rw [outstanding_append_report]
      exact hperm.trans (h.perm.filter _)
    · rw [hlog]
      show _ ++ [((t.points.find? (·.id = candId)).getD t.best, _)] = _
      rw [PrefixArray.find?_perm h.nodup h.perm candId]
      rfl

omit [Add V] [Zero V] [LT V] [DecidableLT V] in
lemma Delivers.at (hes : Delivers es) (hpre : hist ++ [e] <+: es) :
    ∀ pt, e = .fetch .ok pt → Received pt ∧ ∀ p ∈ outstanding hist, p.id ≠ pt.id := by
  intro pt heq
  rw [heq] at hpre
  exact hes hist pt hpre

lemma TrialLog.run_append (t : TrialLog V) (hist : List (TrialEvent V)) (e : TrialEvent V) :
    t.run (hist ++ [e]) = (t.run hist).bind fun t' : TrialLog V => t'.step e := by
  unfold TrialLog.run
  rw [List.foldlM_append]
  congr 1
  funext t'
  exact bind_pure _

/-- Where the messages so far were handled, the array holds what is outstanding. -/
lemma TrialLog.Opened.tracks_run (h : t₀.Opened) (hes : Delivers es) (hpre : hist <+: es)
    (hrun : t₀.run hist = some t) : t₀.Tracks t hist := by
  induction hist using List.reverseRecOn generalizing t with
  | nil =>
    obtain rfl : t₀ = t := Option.some.inj hrun
    exact h.tracks
  | append_singleton hist e ih =>
    rw [TrialLog.run_append] at hrun
    obtain ⟨t', hrun', hstep⟩ := Option.bind_eq_some_iff.mp hrun
    have htracks := ih ((List.prefix_append hist [e]).trans hpre) hrun'
    exact (htracks.step (hes.at hpre) hstep).1

/-- The points that are outstanding are those of the array, and each report is recorded, exactly while
there is room in the array. -/
theorem tracked_iff (h : t₀.Opened) (hes : Delivers es) :
    (∀ hist e, hist ++ [e] <+: es → ∃ t t', t₀.run hist = some t ∧ t.step e = some t' ∧
      t'.fetchedLen = (outstanding (hist ++ [e])).length ∧
      (t'.fetched.take t'.fetchedLen).Perm (outstanding (hist ++ [e])) ∧
      t'.log = t.log ++ recordOf (outstanding hist) t.best e) ↔
    ∀ hist pt, hist ++ [.fetch .ok pt] <+: es → (outstanding hist).length < t₀.room := by
  constructor
  · intro hall hist pt hpre
    obtain ⟨t, t', hrun, hstep, -⟩ := hall hist _ hpre
    have htracks := h.tracks_run hes ((List.prefix_append hist _).trans hpre) hrun
    exact (htracks.step_iff _).mp ⟨t', hstep⟩ pt rfl
  · intro hroom
    have hnext : ∀ {hist e t}, hist ++ [e] <+: es → t₀.run hist = some t → ∃ t', t.step e = some t' := by
      intro hist e t hpre hrun
      have htracks := h.tracks_run hes ((List.prefix_append hist _).trans hpre) hrun
      apply (htracks.step_iff e).mpr
      intro pt heq
      rw [heq] at hpre
      exact hroom hist pt hpre
    have hruns : ∀ hist, hist <+: es → ∃ t, t₀.run hist = some t := by
      intro hist
      induction hist using List.reverseRecOn with
      | nil => exact fun _ => ⟨t₀, rfl⟩
      | append_singleton hist e ih =>
        intro hpre
        obtain ⟨t, hrun⟩ := ih ((List.prefix_append hist [e]).trans hpre)
        obtain ⟨t', hstep⟩ := hnext hpre hrun
        refine ⟨t', ?_⟩
        rw [TrialLog.run_append, hrun]
        exact hstep
    intro hist e hpre
    have hbefore := (List.prefix_append hist [e]).trans hpre
    obtain ⟨t, hrun⟩ := hruns hist hbefore
    obtain ⟨t', hstep⟩ := hnext hpre hrun
    obtain ⟨htracks, hlog⟩ := (h.tracks_run hes hbefore hrun).step (hes.at hpre) hstep
    exact ⟨t, t', hrun, hstep, htracks.len_eq, htracks.perm, hlog⟩

end

/-! ## Two sessions -/

/-- A session in a slot that was never used. -/
def firstTrials : TrialLog (WithTop ℕ) where
  best := hpointInitializer (WithTop ℕ)
  bestPerf := ⊤
  log := []
  fetched := []
  fetchedLen := 0
  fetchedCap := 0

lemma firstTrials_opened : firstTrials.Opened := ⟨⟨rfl, le_rfl⟩, rfl, rfl⟩

/-- A point with one value. -/
def tilePoint (id tile : ℤ) : HPoint (WithTop ℕ) := { id := id, val := [.int tile] }

/-- A report of the performance of a point. -/
def tileReport (id : ℤ) (perf : ℕ) : TrialEvent (WithTop ℕ) := .report id { p := [(perf : WithTop ℕ)] }

/-- A message of a list stands behind the messages before it. -/
lemma exists_take {hist es : List (TrialEvent V)} {e : TrialEvent V} (h : hist ++ [e] <+: es) :
    ∃ i, es[i]? = some e ∧ hist = es.take i := by
  obtain ⟨rest, rfl⟩ := h
  refine ⟨hist.length, ?_, ?_⟩
  · rw [List.append_assoc, List.getElem?_append_right le_rfl, Nat.sub_self]
    rfl
  · rw [List.append_assoc, List.take_left']
    rfl

/-- Two points are measured, the second one first, and a third one after them. -/
def outOfOrder : List (TrialEvent (WithTop ℕ)) :=
  [.fetch .ok (tilePoint 1 4), .fetch .ok (tilePoint 2 8), tileReport 2 50, tileReport 1 30,
    .fetch .busy (tilePoint 1 4), .fetch .ok (tilePoint 3 6)]

/-- The report for the first point is recorded with it. -/
theorem outOfOrder_tracked : ∃ t t', firstTrials.run (outOfOrder.take 3) = some t ∧
    t.step (tileReport 1 30) = some t' ∧
    t'.fetchedLen = (outstanding (outOfOrder.take 3 ++ [tileReport 1 30])).length ∧
    (t'.fetched.take t'.fetchedLen).Perm (outstanding (outOfOrder.take 3 ++ [tileReport 1 30])) ∧
    t'.log = t.log ++ recordOf (outstanding (outOfOrder.take 3)) t.best (tileReport 1 30) := by
  have hdelivers : Delivers outOfOrder := by
    intro hist pt hpre
    obtain ⟨i, hi, rfl⟩ := exists_take hpre
    match i, hi with
    | 0, rfl | 1, rfl | 5, rfl => exact ⟨rfl, by decide⟩
  refine (tracked_iff firstTrials_opened hdelivers).mpr ?_ _ _ ⟨outOfOrder.drop 4, rfl⟩
  intro hist pt hpre
  obtain ⟨i, hi, rfl⟩ := exists_take hpre
  match i, hi with
  | 0, _ | 1, _ | 5, _ => decide

/-- Three points are delivered before one is reported. -/
def threeAtOnce : List (TrialEvent (WithTop ℕ)) :=
  [.fetch .ok (tilePoint 1 4), .fetch .ok (tilePoint 2 8), .fetch .ok (tilePoint 3 6)]

/-- The third point is written behind the memory of the array. -/
theorem third_point_outside : ¬ ∀ (t₀ : TrialLog (WithTop ℕ)) (es : List (TrialEvent (WithTop ℕ))),
    t₀.Opened → Delivers es → ∀ hist e, hist ++ [e] <+: es →
    ∃ t t', t₀.run hist = some t ∧ t.step e = some t' ∧
      t'.fetchedLen = (outstanding (hist ++ [e])).length ∧
      (t'.fetched.take t'.fetchedLen).Perm (outstanding (hist ++ [e])) ∧
      t'.log = t.log ++ recordOf (outstanding hist) t.best e := by
  intro hall
  have hdelivers : Delivers threeAtOnce := by
    intro hist pt hpre
    obtain ⟨i, hi, rfl⟩ := exists_take hpre
    match i, hi with
    | 0, rfl | 1, rfl | 2, rfl => exact ⟨rfl, by decide⟩
  obtain ⟨t, t', hrun, hstep, -⟩ := hall firstTrials threeAtOnce firstTrials_opened hdelivers
    (threeAtOnce.take 2) (.fetch .ok (tilePoint 3 6)) ⟨[], rfl⟩
  have hbefore : (firstTrials.run (threeAtOnce.take 2)).bind
      (fun t => t.step (.fetch .ok (tilePoint 3 6))) = none := by decide +kernel
  rw [hrun, Option.bind_some, hstep] at hbefore
  exact absurd hbefore nofun

end ActiveHarmony.Hserver

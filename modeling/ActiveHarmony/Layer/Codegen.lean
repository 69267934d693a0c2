import ActiveHarmony.Lib.ListModify
import ActiveHarmony.Session.Core
import Mathlib.Data.List.Nodup
import Mathlib.Data.List.Perm.Basic

/-!
# The layer `codegen.c`

The layer asks a code server for the code of each new point, and the trial waits for the answer. The
log of requests is searched by the values of a point, the wait list by its id: `careful_waiters` says
which trials may be handed to the layer so that nobody waits for an answer that has already come.

The session calls `codegen_generate` and `codegen_callback`, and the code server answers its requests
in any order, each one once. `handle_wait` and `handle_callback` of the session are the parts of `step`
that change the wait list. Loading the layer again is left out.
-/

namespace ActiveHarmony.Codegen

/-- `codegen_status`, without the values that are never stored. -/
inductive Status where
  | requested | complete
deriving DecidableEq, Repr

/-- `codegen_log_t`. -/
structure Entry (V : Type) where
  status : Status
  point : HPoint V
deriving DecidableEq, Repr

/-- The variables of the layer, and its generate wait list. `requests` are the points that the code
server has not answered, and `replies` its answers that the layer has not read. -/
structure Layer (V : Type) where
  cglog : List (Entry V)
  errmsg : Option Bytes
  waiting : List (HPoint V)
  requests : List (HPoint V)
  replies : List (HPoint V)
deriving DecidableEq, Repr

/-- What happens to the layer. -/
inductive Event (V : Type) where
  /-- A trial reaches the layer; `send` is the error of `mesg_send`, if it fails. -/
  | generate (pt : HPoint V) (send : Option Bytes)
  /-- The code server answers request `i`. -/
  | answer (i : ℕ)
  | callback
deriving DecidableEq, Repr

variable {V : Type} [DecidableEq V]

/-- Whether two values have the same bytes. A string of the log is a copy, so its address is that of no
other string. -/
def sameBytes : HVal V → HVal V → Bool
  | .int i, .int j => i = j
  | .real x, .real y => x = y
  | .unknown, .unknown => true
  | _, _ => false

/-- `memcmp` over as many values as the first array has. -/
def memcmp : List (HVal V) → List (HVal V) → Bool
  | [], _ => true
  | _ :: _, [] => false
  | v :: vs, w :: ws => sameBytes v w && memcmp vs ws

/-- `cglog_find`. -/
def cglogFind (cglog : List (Entry V)) (pt : HPoint V) : Option ℕ :=
  cglog.findIdx? fun entry => memcmp pt.val entry.point.val

omit [DecidableEq V] in
/-- `cglog_insert`. -/
def cglogInsert (cglog : List (Entry V)) (pt : HPoint V) : List (Entry V) :=
  cglog ++ [{ status := .requested, point := hpointCopy pt }]

/-- `codegen_generate`: its return value and the status of the workflow. -/
def codegenGenerate (s : Layer V) (send : Option Bytes) (pt : HPoint V) : ℤ × FlowStatus × Layer V :=
  match (cglogFind s.cglog pt).bind (s.cglog[·]?) with
  | some entry =>
    match entry.status with
    | .complete => (0, .accept, s)
    | .requested => (0, .wait, s)
  | none =>
    let s := { s with cglog := cglogInsert s.cglog pt }
    match send with
    | some error => (-1, .accept, { s with errmsg := some error })
    | none => (0, .wait, { s with requests := s.requests ++ [hpointCopy pt] })

/-- `codegen_callback` for an answer of the code server: an index into the wait list, or -1. -/
def codegenCallback (s : Layer V) (mesg : HPoint V) : ℤ × Layer V :=
  match cglogFind s.cglog mesg with
  | none => (-1, { s with errmsg := some (cstr "Could not find point from code server in log") })
  | some i =>
    let s := { s with cglog := s.cglog.modify i fun entry => { entry with status := .complete } }
    -- Search waitlist for index of returned point.
    match s.waiting.findIdx? (·.id = mesg.id) with
    | some j => (Int.ofNat j, s)
    | none => (-1, { s with errmsg := some (cstr "Could not find point from code server in waitlist") })

omit [DecidableEq V] in
/-- Take an element off a list: the last one takes its place. -/
def removeAt (l : List (HPoint V)) (i : ℕ) : List (HPoint V) :=
  match l.getLast? with
  | none => l
  | some last => (l.set i last).dropLast

/-- One event, for points with `n` values; `none` if it cannot happen. -/
def step (n : ℕ) (s : Layer V) : Event V → Option (Layer V)
  | .generate pt send =>
    -- trials in the workflow have ids
    if pt.id < 0 ∨ pt.val.length ≠ n then none
    else
      let (ret, status, s) := codegenGenerate s send pt
      if ret = 0 ∧ status = .wait then some { s with waiting := s.waiting ++ [pt] } else some s
  | .answer i =>
    s.requests[i]?.map fun pt =>
      { s with requests := s.requests.eraseIdx i, replies := s.replies ++ [pt] }
  | .callback =>
    match s.replies with
    | [] => none
    | mesg :: replies =>
      if s.waiting.length < 1 then some { s with errmsg := some CoreError.emptyWaitlist.text }
      else
        let (idx, s) := codegenCallback { s with replies := replies } mesg
        -- what happens to the cell in front of the wait list is left out
        if idx < 0 then some s else some { s with waiting := removeAt s.waiting idx.toNat }

omit [DecidableEq V] in
/-- The layer after `codegen_init`. -/
def Layer.start : Layer V :=
  { cglog := [], errmsg := none, waiting := [], requests := [], replies := [] }

/-- Several events. -/
def run (n : ℕ) (s : Layer V) (es : List (Event V)) : Option (Layer V) := es.foldlM (step n) s

/-! ## Waiting trials -/

section

omit [DecidableEq V]

/-- There is a request for the trial, and its answer has not been read. -/
def Outstanding (s : Layer V) (pt : HPoint V) : Prop :=
  (∃ entry ∈ s.cglog, entry.point.val = pt.val ∧ entry.status = .requested) ∧
    ∃ mesg ∈ s.requests ++ s.replies, mesg.val = pt.val

/-- No value is a string. -/
def Plain (vals : List (HVal V)) : Prop := ∀ str, HVal.str str ∉ vals

/-- The trials that may be handed to the layer: their values are not strings, no waiting trial has
the same id, and no request is under way for the same values. -/
def Careful (s : Layer V) : Event V → Prop
  | .generate pt _ =>
    Plain pt.val ∧ (∀ other ∈ s.waiting, other.id ≠ pt.id) ∧
      ∀ entry ∈ s.cglog, entry.status = .requested → entry.point.val ≠ pt.val
  | _ => True

/-- Every waiting trial has a request of its own, and a log entry that says so. -/
structure Inv (n : ℕ) (s : Layer V) : Prop where
  width : ∀ entry ∈ s.cglog, entry.point.val.length = n
  plain : ∀ entry ∈ s.cglog, Plain entry.point.val
  keys : (s.cglog.map fun entry => entry.point.val).Nodup
  ids : (s.waiting.map HPoint.id).Nodup
  vals : (s.waiting.map HPoint.val).Nodup
  owed : s.waiting.Perm (s.requests ++ s.replies)
  logged : ∀ pt ∈ s.waiting, ∃ entry ∈ s.cglog, entry.point.val = pt.val ∧ entry.status = .requested

lemma Inv.outstanding {n : ℕ} {s : Layer V} (h : Inv n s) {pt : HPoint V} (hpt : pt ∈ s.waiting) :
    Outstanding s pt :=
  ⟨h.logged pt hpt, pt, h.owed.mem_iff.mp hpt, rfl⟩

end

variable {n : ℕ} {s s' : Layer V}

/-- Without strings, the values are compared as they are. -/
lemma memcmp_iff {vs ws : List (HVal V)} (hlen : vs.length = ws.length) (hplain : Plain ws) :
    memcmp vs ws = true ↔ vs = ws := by
  induction vs generalizing ws with
  | nil =>
    rw [List.eq_nil_of_length_eq_zero hlen.symm]
    exact ⟨fun _ => rfl, fun _ => rfl⟩
  | cons v vs ih =>
    cases ws with
    | nil => cases hlen
    | cons w ws =>
      have hrest := ih (Nat.succ.inj hlen) fun str hstr => hplain str (List.mem_cons_of_mem w hstr)
      have hhead : sameBytes v w = true ↔ v = w := by
        have hnot : ∀ str, w ≠ .str str := fun str hstr => hplain str (hstr ▸ List.mem_cons_self)
        cases v <;> cases w <;> simp [sameBytes] at hnot ⊢
      rw [memcmp, Bool.and_eq_true, hhead, hrest, List.cons.injEq]

/-- An entry that is found has the values of the point. -/
lemma Inv.found (h : Inv n s) {pt : HPoint V} (hlen : pt.val.length = n) {i : ℕ}
    (hfind : cglogFind s.cglog pt = some i) :
    ∃ entry, s.cglog[i]? = some entry ∧ entry.point.val = pt.val := by
  rcases List.findIdx?_eq_some_iff_getElem.mp hfind with ⟨hi, hcmp, -⟩
  have hmem := List.getElem_mem hi
  have heq := (memcmp_iff (hlen.trans (h.width _ hmem).symm) (h.plain _ hmem)).mp hcmp
  exact ⟨s.cglog[i], List.getElem?_eq_getElem hi, heq.symm⟩

/-- Values that are not found are new. -/
lemma Inv.missing (h : Inv n s) {pt : HPoint V} (hlen : pt.val.length = n)
    (hfind : cglogFind s.cglog pt = none) : ∀ entry ∈ s.cglog, entry.point.val ≠ pt.val := by
  intro entry hentry heq
  have hcmp := List.findIdx?_eq_none_iff.mp hfind entry hentry
  rw [(memcmp_iff (hlen.trans (h.width _ hentry).symm) (h.plain _ hentry)).mpr heq.symm] at hcmp
  cases hcmp

omit [DecidableEq V] in
lemma removeAt_perm {l : List (HPoint V)} {i : ℕ} (hi : i < l.length) :
    (removeAt l i).Perm (l.eraseIdx i) := by
  rcases List.eq_nil_or_concat l with rfl | ⟨init, last, rfl⟩
  · cases hi
  · rw [List.length_concat] at hi
    unfold removeAt
    rw [List.concat_eq_append, List.getLast?_append, List.getLast?_singleton]
    show ((init ++ [last]).set i last).dropLast.Perm _
    by_cases hlast : i < init.length
    · rw [List.set_append_left _ _ hlast, List.dropLast_concat, List.eraseIdx_append_of_lt_length hlast]
      exact (List.set_perm_cons_eraseIdx hlast last).trans (List.perm_append_singleton _ _).symm
    · obtain rfl : i = init.length := by omega
      rw [List.set_append_right _ _ (le_refl _), Nat.sub_self, List.set_cons_zero, List.dropLast_concat,
        List.eraseIdx_append_of_length_le (le_refl _), Nat.sub_self, List.eraseIdx_cons_zero,
        List.append_nil]

omit [DecidableEq V] in
/-- A new entry for new values. -/
lemma Inv.insert (h : Inv n s) {pt : HPoint V} (hid : 0 ≤ pt.id) (hlen : pt.val.length = n)
    (hplain : Plain pt.val) (hnew : ∀ entry ∈ s.cglog, entry.point.val ≠ pt.val) :
    Inv n { s with cglog := cglogInsert s.cglog pt } := by
  have hcopy : hpointCopy pt = pt := if_neg (by omega)
  have hmem : ∀ entry ∈ cglogInsert s.cglog pt, entry ∈ s.cglog ∨ entry.point = pt := by
    intro entry hentry
    rcases List.mem_append.mp hentry with hold | hlast
    · exact Or.inl hold
    · rw [List.mem_singleton.mp hlast]
      exact Or.inr hcopy
  refine ⟨fun entry hentry => ?_, fun entry hentry => ?_, ?_, h.ids, h.vals, h.owed, fun w hw => ?_⟩
  · rcases hmem entry hentry with hold | hlast
    · exact h.width entry hold
    · rw [hlast]
      exact hlen
  · rcases hmem entry hentry with hold | hlast
    · exact h.plain entry hold
    · rw [hlast]
      exact hplain
  · show ((cglogInsert s.cglog pt).map fun entry => entry.point.val).Nodup
    unfold cglogInsert
    rw [List.map_append, List.map_singleton, hcopy, ← List.concat_eq_append, List.nodup_concat]
    refine ⟨fun hin => ?_, h.keys⟩
    rcases List.mem_map.mp hin with ⟨entry, hentry, heq⟩
    exact hnew entry hentry heq
  · rcases h.logged w hw with ⟨entry, hentry, hlogged⟩
    exact ⟨entry, List.mem_append_left _ hentry, hlogged⟩

lemma generate_keeps (h : Inv n s) {pt : HPoint V} {send : Option Bytes}
    (hcareful : Careful s (.generate pt send)) (hstep : step n s (.generate pt send) = some s') :
    Inv n s' := by
  rcases hcareful with ⟨hplain, hids, hidle⟩
  simp only [step] at hstep
  split_ifs at hstep with hbad hwait
  all_goals rw [not_or, not_lt, not_not] at hbad
  all_goals unfold codegenGenerate at hstep
  · unfold codegenGenerate at hwait
    cases hfind : cglogFind s.cglog pt with
    | some i =>
      rcases h.found hbad.2 hfind with ⟨entry, hentry, hval⟩
      simp only [hfind, Option.bind_some, hentry] at hwait
      cases hstatus : entry.status with
      | complete =>
        rw [hstatus] at hwait
        cases hwait.2
      | requested => exact absurd hval (hidle entry (List.mem_of_getElem? hentry) hstatus)
    | none =>
      have hnew := h.missing hbad.2 hfind
      have hinv := h.insert hbad.1 hbad.2 hplain hnew
      have hcopy : hpointCopy pt = pt := if_neg (by omega)
      simp only [hfind, Option.bind_none] at hstep hwait
      cases send with
      | some error => cases hwait.2
      | none =>
        cases hstep
        refine ⟨hinv.width, hinv.plain, hinv.keys, ?_, ?_, ?_, fun w hw => ?_⟩
        · rw [List.map_append, List.map_singleton, ← List.concat_eq_append, List.nodup_concat]
          refine ⟨fun hin => ?_, h.ids⟩
          rcases List.mem_map.mp hin with ⟨other, hother, heq⟩
          exact hids other hother heq
        · rw [List.map_append, List.map_singleton, ← List.concat_eq_append, List.nodup_concat]
          refine ⟨fun hin => ?_, h.vals⟩
          -- the entry of a waiting trial would have been found
          rcases List.mem_map.mp hin with ⟨other, hother, heq⟩
          rcases h.logged other hother with ⟨entry, hentry, hval, -⟩
          exact hnew entry hentry (hval.trans heq)
        · show (s.waiting ++ [pt]).Perm (s.requests ++ [hpointCopy pt] ++ s.replies)
          rw [hcopy, List.append_assoc]
          exact ((h.owed.append_right [pt]).trans (by rw [List.append_assoc])).trans
            (List.perm_append_comm.append_left s.requests)
        · rcases List.mem_append.mp hw with hold | hlast
          · exact hinv.logged w hold
          · rw [List.mem_singleton.mp hlast]
            refine ⟨{ status := .requested, point := hpointCopy pt }, ?_, by rw [hcopy], rfl⟩
            exact List.mem_append_right _ List.mem_cons_self
  · cases hfind : cglogFind s.cglog pt with
    | some i =>
      rcases h.found hbad.2 hfind with ⟨entry, hentry, -⟩
      simp only [hfind, Option.bind_some, hentry] at hstep
      cases hstatus : entry.status with
      | complete =>
        rw [hstatus] at hstep
        cases hstep
        exact h
      | requested =>
        rw [hstatus] at hstep
        cases hstep
        exact h
    | none =>
      have hinv := h.insert hbad.1 hbad.2 hplain (h.missing hbad.2 hfind)
      unfold codegenGenerate at hwait
      simp only [hfind, Option.bind_none] at hstep hwait
      cases send with
      | some error =>
        cases hstep
        exact ⟨hinv.width, hinv.plain, hinv.keys, hinv.ids, hinv.vals, hinv.owed, hinv.logged⟩
      | none => exact absurd ⟨rfl, rfl⟩ hwait

lemma answer_keeps (h : Inv n s) {i : ℕ} (hstep : step n s (.answer i) = some s') : Inv n s' := by
  rcases Option.map_eq_some_iff.mp hstep with ⟨pt, hpt, rfl⟩
  rcases List.getElem?_eq_some_iff.mp hpt with ⟨hi, rfl⟩
  refine ⟨h.width, h.plain, h.keys, h.ids, h.vals, h.owed.trans ?_, h.logged⟩
  have hmove := ((List.getElem_cons_eraseIdx_perm hi).symm.append_right s.replies).trans
    List.perm_middle.symm
  refine hmove.trans (List.Perm.append_left _ ?_)
  exact (List.perm_append_singleton _ _).symm

/-- An answer wakes the trial it is for. -/
lemma callback_wakes (h : Inv n s) (hstep : step n s .callback = some s') :
    ∃ mesg replies, s.replies = mesg :: replies ∧ s'.replies = replies ∧
      (mesg :: s'.waiting).Perm s.waiting ∧ Inv n s' := by
  simp only [step] at hstep
  cases hreplies : s.replies with
  | nil =>
    rw [hreplies] at hstep
    cases hstep
  | cons mesg replies =>
    rw [hreplies] at hstep
    have hmesg : mesg ∈ s.waiting := by
      rw [h.owed.mem_iff, hreplies]
      exact List.mem_append_right _ List.mem_cons_self
    have hbusy : ¬ s.waiting.length < 1 := by
      have := List.length_pos_of_mem hmesg
      omega
    rcases h.logged mesg hmesg with ⟨entry, hentry, hval, -⟩
    have hlen : mesg.val.length = n := hval ▸ h.width entry hentry
    cases hfind : cglogFind s.cglog mesg with
    | none => exact absurd hval (h.missing hlen hfind entry hentry)
    | some k =>
      rcases h.found hlen hfind with ⟨old, hold, hkey⟩
      -- ids are distinct, so the trial with the id of the answer is the one it is for
      have hsearch : ∃ j, s.waiting.findIdx? (·.id = mesg.id) = some j ∧
          ∃ hj : j < s.waiting.length, s.waiting[j] = mesg := by
        cases hid : s.waiting.findIdx? (·.id = mesg.id) with
        | none =>
          have hnot := List.findIdx?_eq_none_iff.mp hid mesg hmesg
          rw [decide_eq_true rfl] at hnot
          cases hnot
        | some j =>
          rcases List.findIdx?_eq_some_iff_getElem.mp hid with ⟨hj, heq, -⟩
          exact ⟨j, rfl, hj, List.inj_on_of_nodup_map h.ids (List.getElem_mem hj) hmesg
            (of_decide_eq_true heq)⟩
      rcases hsearch with ⟨j, hid, hj, heq⟩
      unfold codegenCallback at hstep
      simp only [if_neg hbusy, hfind, hid] at hstep
      rw [if_neg (by simp)] at hstep
      cases hstep
      have hgone : (mesg :: removeAt s.waiting j).Perm s.waiting := by
        have hperm := ((removeAt_perm hj).cons s.waiting[j]).trans (List.getElem_cons_eraseIdx_perm hj)
        rwa [heq] at hperm
      have hkeys : (s.cglog.modify k fun entry => { entry with status := .complete }).map
          (fun entry => entry.point.val) = s.cglog.map fun entry => entry.point.val :=
        ListModify.map_same fun _ => rfl
      have hentries : ∀ entry ∈ s.cglog.modify k fun entry => { entry with status := .complete },
          ∃ old ∈ s.cglog, old.point.val = entry.point.val := by
        intro entry hentry
        have hin := List.mem_map_of_mem (f := fun entry : Entry V => entry.point.val) hentry
        rw [hkeys] at hin
        exact List.mem_map.mp hin
      refine ⟨mesg, replies, rfl, rfl, hgone, ?_, ?_, ?_, ?_, ?_, ?_, ?_⟩
      · intro entry hentry
        rcases hentries entry hentry with ⟨old, hold, heq⟩
        exact heq ▸ h.width old hold
      · intro entry hentry
        rcases hentries entry hentry with ⟨old, hold, heq⟩
        exact heq ▸ h.plain old hold
      · exact hkeys ▸ h.keys
      · exact (List.nodup_cons.mp ((hgone.map HPoint.id).nodup_iff.mpr h.ids)).2
      · exact (List.nodup_cons.mp ((hgone.map HPoint.val).nodup_iff.mpr h.vals)).2
      · have howed := h.owed
        rw [hreplies] at howed
        exact (List.perm_cons mesg).mp ((hgone.trans howed).trans List.perm_middle)
      · intro w hw
        have hother : w.val ≠ mesg.val := by
          have hnodup := (hgone.map HPoint.val).nodup_iff.mpr h.vals
          rw [List.map_cons, List.nodup_cons] at hnodup
          exact fun heq => hnodup.1 (heq ▸ List.mem_map_of_mem hw)
        rcases h.logged w (hgone.subset (List.mem_cons_of_mem mesg hw)) with ⟨kept, hkept, hlogged⟩
        refine ⟨kept, ?_, hlogged⟩
        rcases List.mem_iff_getElem?.mp hkept with ⟨i, hi⟩
        have hne : k ≠ i := by
          rintro rfl
          rw [hold] at hi
          cases hi
          exact hother (hlogged.1.symm.trans hkey)
        refine List.mem_iff_getElem?.mpr ⟨i, ?_⟩
        show (s.cglog.modify k _)[i]? = some kept
        rw [List.getElem?_modify_ne _ _ hne]
        exact hi

/-! ## Runs -/

/-- The states of runs in which only trials that may be are handed to the layer. -/
inductive CarefulRun (n : ℕ) : Layer V → Prop where
  | start : CarefulRun n Layer.start
  | step {s s' : Layer V} {e : Event V} :
    CarefulRun n s → Careful s e → step n s e = some s' → CarefulRun n s'

lemma CarefulRun.get (h : CarefulRun n s) {e : Event V} (hcareful : Careful s e)
    (hsome : (Codegen.step n s e).isSome) : CarefulRun n ((Codegen.step n s e).get hsome) :=
  .step h hcareful (Option.some_get hsome).symm

lemma CarefulRun.inv (h : CarefulRun n s) : Inv n s := by
  induction h with
  | start => exact ⟨nofun, nofun, List.nodup_nil, List.nodup_nil, List.nodup_nil, .nil, nofun⟩
  | @step s s' e _ hcareful hstep ih =>
    cases e with
    | generate pt send => exact generate_keeps ih hcareful hstep
    | answer i => exact answer_keeps ih hstep
    | callback =>
      rcases callback_wakes ih hstep with ⟨-, -, -, -, -, hinv⟩
      exact hinv

instance (s : Layer V) (pt : HPoint V) : Decidable (Outstanding s pt) :=
  inferInstanceAs (Decidable (_ ∧ _))

/-- A trial with one integer. -/
def trial (id i : ℤ) : HPoint ℕ := { id := id, val := [.int i] }

end ActiveHarmony.Codegen

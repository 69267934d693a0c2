import ActiveHarmony.Server.ClientLists
import ActiveHarmony.Server.TrialLog
import Mathlib.Data.List.GetD

/-!
# The slots of the session list in `hserver.c`

A slot of the session list is used again when its session is closed. `session_open`, `session_close` and
`client_close` each reset a part of it, and none of them resets `fetched_len`. `reopened_iff` says when a
session in a used slot is like one in a slot that was never used.
-/

namespace ActiveHarmony.Hserver

/-- `session_state_t`, without what only the pages show of the signature and the times. The strategy is
`none` while no string is allocated for it. -/
structure Slot (V : Type) where
  name : Option Bytes
  fd : ℤ
  client : List ℤ
  clientLen : ℤ
  strategy : Option Bytes
  status : UInt32
  reported : ℕ
  trials : TrialLog V

/-- What happens to a slot. -/
inductive SlotEvent (V : Type) where
  /-- `session_open` takes the slot; `strategy` is what the configuration says, and the launch fails also
  where the configuration is refused. -/
  | opened (name : Bytes) (strategy : Option Bytes) (launched : Option ℤ)
  | join (fd : ℤ)
  | trial (e : TrialEvent V)
  /-- An answer to a REPORT request. -/
  | reported (status : HMesgStatus)
  /-- A message for the HTTP interface, split into key and value. -/
  | info (key val : Bytes)
  /-- `client_close`. -/
  | leave (fd : ℤ)
  | closed

/-- `HTTP_STATUS_CONVERGED`. -/
def httpStatusConverged : UInt32 := 1

/-- `HTTP_STATUS_PAUSED`. -/
def httpStatusPaused : UInt32 := 2

/-- `CFGKEY_SESSION_STRATEGY`. -/
def cfgkeySessionStrategy : Bytes := cstr "SESSION_STRATEGY"

/-- `DEFAULT_STRATEGY`. -/
def defaultStrategy : Bytes := cstr "pro.so"

/-- A flag of the status is set by the value 1, and cleared by any other. -/
def setFlag (status flag : UInt32) (val : Bytes) : UInt32 :=
  if val.head? = some 49 then status ||| flag else status &&& ~~~flag

variable {V : Type}

/-- `handle_http_info`. -/
def Slot.httpInfo (s : Slot V) (key val : Bytes) : Slot V :=
  if key = cfgkeySessionStrategy then { s with strategy := some val }
  else if key = cfgkeyStrategyConverged then
    { s with status := setFlag s.status httpStatusConverged val }
  else if key = cfgkeySessionPaused then { s with status := setFlag s.status httpStatusPaused val }
  else s

/-- The loop of `client_close` over the client list of the slot. -/
def Slot.lose (s : Slot V) (fd : ℤ) : Slot V :=
  if fd ∈ s.client then { s with client := clearFirst s.client fd, clientLen := s.clientLen - 1 } else s

/-- One round of the loop of `session_close`. -/
def Slot.closeCell (s : Slot V) (i : ℕ) : Slot V :=
  let fd := s.client.getD i (-1)
  if fd ≠ -1 then s.lose fd else s

/-- `session_close`. -/
def Slot.close (s : Slot V) : Slot V :=
  (List.range s.client.length).foldl Slot.closeCell { s with strategy := none, name := none }

section

variable [Top V]

/-- `session_open` in this slot. -/
def Slot.sessionOpen (s : Slot V) (name : Bytes) (strategy : Option Bytes) (launched : Option ℤ) :
    Slot V :=
  let s := { s with clientLen := 0
                    trials := { s.trials with best := hpointInitializer V, bestPerf := ⊤ } }
  match launched with
  | none => s
  | some fd =>
    { s with name := some name
             fd := fd
             strategy := some (strategy.getD defaultStrategy)
             status := 0
             trials := { s.trials with log := [] }
             reported := 0 }

variable [Add V] [Zero V] [LT V] [DecidableLT V]

/-- One event. A slot is only taken without a name, and has no messages then. `none` is an access
behind the memory of an array. -/
def Slot.step (s : Slot V) : SlotEvent V → Option (Slot V)
  | .opened name strategy launched =>
    some (if s.name.isNone then s.sessionOpen name strategy launched else s)
  | .leave fd => some (s.lose fd)
  | .join fd =>
    some (if s.name.isNone then s
      else { s with client := addFd s.client fd, clientLen := s.clientLen + 1 })
  | .trial e =>
    if s.name.isNone then some s else (s.trials.step e).map fun trials => { s with trials := trials }
  | .reported status =>
    some (if s.name.isSome ∧ status = .ok then { s with reported := s.reported + 1 } else s)
  | .info key val => some (if s.name.isNone then s else s.httpInfo key val)
  | .closed => some (if s.name.isNone then s else s.close)

/-- Several events. -/
def Slot.run (s : Slot V) (es : List (SlotEvent V)) : Option (Slot V) := es.foldlM Slot.step s

omit [Top V] [Add V] [LT V] [DecidableLT V] in
/-- A slot that was never used. -/
def Slot.zeroed : Slot V where
  name := none
  fd := 0
  client := []
  clientLen := 0
  strategy := none
  status := 0
  reported := 0
  trials := { best := { id := 0, val := [] }, bestPerf := 0, log := [], fetched := [], fetchedLen := 0,
              fetchedCap := 0 }

/-- An event of the session that has the slot; descriptors of clients are not -1. -/
def SlotEvent.OfSession : SlotEvent V → Prop
  | .opened _ _ _ => False
  | .leave fd => fd ≠ -1
  | _ => True

/-- What can be seen of a session. -/
structure SlotView (V : Type) where
  name : Option Bytes
  fd : ℤ
  client : List ℤ
  clientLen : ℤ
  strategy : Option Bytes
  status : UInt32
  reported : ℕ
  best : HPoint V
  bestPerf : V
  log : List (HPoint V × V)
deriving DecidableEq

/-- The clients of a session are those in the cells that are in use. -/
def Slot.view (s : Slot V) : SlotView V where
  name := s.name
  fd := s.fd
  client := occupied s.client
  clientLen := s.clientLen
  strategy := s.strategy
  status := s.status
  reported := s.reported
  best := s.trials.best
  bestPerf := s.trials.bestPerf
  log := s.trials.log

end

/-! ## Client lists of different lengths -/

/-- The lists have the same cells, and the longer one has free cells behind them. -/
def SameCells (l l' : List ℤ) : Prop := ∀ i, l.getD i (-1) = l'.getD i (-1)

lemma getD_set (l : List ℤ) (i j : ℕ) (x : ℤ) :
    (l.set i x).getD j (-1) = if j = i ∧ i < l.length then x else l.getD j (-1) := by
  rw [List.getD_eq_getElem?_getD, List.getD_eq_getElem?_getD, List.getElem?_set]
  by_cases hij : i = j
  · by_cases hlt : i < l.length
    · rw [if_pos hij, if_pos hlt, if_pos ⟨hij.symm, hlt⟩]
      rfl
    · rw [if_pos hij, if_neg hlt, if_neg fun h => hlt h.2, List.getElem?_eq_none (by omega)]
  · rw [if_neg hij, if_neg fun h => hij h.1.symm]

lemma getD_set_free (l : List ℤ) (i j : ℕ) :
    (l.set i (-1)).getD j (-1) = if j = i then -1 else l.getD j (-1) := by
  rw [getD_set]
  by_cases hlt : i < l.length
  · simp only [hlt, and_true]
  · rw [if_neg fun h => hlt h.2]
    split_ifs with hj
    · rw [hj, List.getD_eq_default _ _ (by omega)]
    · rfl

lemma mem_iff_getD {l : List ℤ} {fd : ℤ} (hfd : fd ≠ -1) : fd ∈ l ↔ ∃ i, l.getD i (-1) = fd := by
  constructor
  · intro hmem
    obtain ⟨i, hi⟩ := List.mem_iff_getElem?.mp hmem
    exact ⟨i, by rw [List.getD_eq_getElem?_getD, hi]; rfl⟩
  · intro ⟨i, hi⟩
    have hocc := getD_mem_occupied (show l.getD i (-1) ≠ -1 by rw [hi]; exact hfd)
    rw [hi] at hocc
    exact (mem_occupied.mp hocc).1

/-- The first cell with a value, or the first one behind the list. -/
lemma findIdx_spec (l : List ℤ) (fd : ℤ) (h : fd ∈ l ∨ fd = -1) :
    l.getD (l.findIdx (· = fd)) (-1) = fd ∧ ∀ j, l.getD j (-1) = fd → l.findIdx (· = fd) ≤ j := by
  constructor
  · by_cases hlt : l.findIdx (· = fd) < l.length
    · rw [List.getD_eq_getElem _ _ hlt]
      have hfound := @List.findIdx_getElem _ (· = fd) _ hlt
      exact of_decide_eq_true hfound
    · rw [List.getD_eq_default _ _ (by omega)]
      obtain hmem | hfree := h
      · have hexists : ∃ x ∈ l, decide (x = fd) = true := ⟨fd, hmem, decide_eq_true rfl⟩
        exact absurd (List.findIdx_lt_length_of_exists hexists) hlt
      · exact hfree.symm
  · intro j hj
    by_contra hlt
    have hnot := List.not_of_lt_findIdx (not_le.mp hlt)
    have hlen : j < l.length := lt_of_lt_of_le (not_le.mp hlt) List.findIdx_le_length
    rw [List.getD_eq_getElem _ _ hlen] at hj
    exact of_decide_eq_false hnot hj

lemma SameCells.findIdx {l l' : List ℤ} (h : SameCells l l') {fd : ℤ} (hfd : fd ∈ l ∨ fd = -1)
    (hfd' : fd ∈ l' ∨ fd = -1) : l.findIdx (· = fd) = l'.findIdx (· = fd) := by
  obtain ⟨hget, hleast⟩ := findIdx_spec l fd hfd
  obtain ⟨hget', hleast'⟩ := findIdx_spec l' fd hfd'
  apply le_antisymm
  · apply hleast
    rw [h]
    exact hget'
  · apply hleast'
    rw [← h]
    exact hget

lemma SameCells.mem_iff {l l' : List ℤ} (h : SameCells l l') {fd : ℤ} (hfd : fd ≠ -1) :
    fd ∈ l ↔ fd ∈ l' := by
  rw [mem_iff_getD hfd, mem_iff_getD hfd]
  apply exists_congr
  intro i
  rw [h i]

lemma SameCells.clearFirst {l l' : List ℤ} (h : SameCells l l') {fd : ℤ} (hmem : fd ∈ l)
    (hmem' : fd ∈ l') : SameCells (clearFirst l fd) (clearFirst l' fd) := by
  intro i
  unfold Hserver.clearFirst
  rw [getD_set_free, getD_set_free, h.findIdx (Or.inl hmem) (Or.inl hmem'), h i]

lemma addFd_getD (l : List ℤ) (fd : ℤ) (j : ℕ) :
    (addFd l fd).getD j (-1) = if j = l.findIdx (· = -1) then fd else l.getD j (-1) := by
  unfold addFd availableIndex
  by_cases hlt : l.findIdx (· = -1) < l.length
  · rw [if_pos hlt]
    simp only [getD_set, hlt, and_true]
  · have hidx : l.findIdx (· = -1) = l.length := le_antisymm List.findIdx_le_length (not_lt.mp hlt)
    have hcap : l.length < grownCap l.length := by
      unfold grownCap
      split_ifs <;> omega
    have hpad : (l ++ List.replicate (grownCap l.length - l.length) (-1)).getD j (-1) = l.getD j (-1) := by
      by_cases hj : j < l.length
      · rw [List.getD_append _ _ _ _ hj]
      · rw [List.getD_append_right _ _ _ _ (by omega), List.getD_eq_getElem?_getD,
          List.getElem?_getD_replicate_default_eq, List.getD_eq_default _ _ (by omega)]
    have hlen : l.length < (l ++ List.replicate (grownCap l.length - l.length) (-1)).length := by
      rw [List.length_append, List.length_replicate]
      omega
    rw [if_neg hlt]
    simp only [getD_set, hpad, hlen, and_true, hidx]

lemma SameCells.addFd {l l' : List ℤ} (h : SameCells l l') (fd : ℤ) :
    SameCells (addFd l fd) (addFd l' fd) := by
  intro i
  rw [addFd_getD, addFd_getD, h.findIdx (Or.inr rfl) (Or.inr rfl), h i]

lemma SameCells.occupied {l l' : List ℤ} (h : SameCells l l') : occupied l = occupied l' := by
  induction l generalizing l' with
  | nil => exact (occupied_eq_nil fun i => (h i).symm).symm
  | cons x l ih =>
    cases l' with
    | nil => exact occupied_eq_nil h
    | cons y l' =>
      have hhead : x = y := h 0
      have htail := ih fun i => h (i + 1)
      by_cases hx : x = -1
      · rw [← hhead, hx, occupied_cons_free, occupied_cons_free, htail]
      · rw [← hhead, occupied_cons hx, occupied_cons hx, htail]

/-! ## Closing a session -/

lemma Slot.lose_of_mem {s : Slot V} {fd : ℤ} (h : fd ∈ s.client) :
    s.lose fd = { s with client := Hserver.clearFirst s.client fd, clientLen := s.clientLen - 1 } := if_pos h

lemma clearFirst_behind (n : ℕ) {fd : ℤ} (hfd : fd ≠ -1) (rest : List ℤ) :
    clearFirst (List.replicate n (-1) ++ fd :: rest) fd = List.replicate (n + 1) (-1) ++ rest := by
  induction n with
  | zero => rw [List.replicate_zero, List.nil_append, clearFirst_cons, if_pos rfl]; rfl
  | succ n ih =>
    rw [List.replicate_succ, List.cons_append, clearFirst_cons, if_neg (Ne.symm hfd), ih]
    rfl

lemma replicate_append_cons (n : ℕ) (x : ℤ) (rest : List ℤ) :
    List.replicate n x ++ x :: rest = List.replicate (n + 1) x ++ rest := by
  rw [List.replicate_succ', List.append_assoc]
  rfl

/-- The loop clears cell after cell. -/
lemma closeCells (s : Slot V) (n : ℕ) (hn : n ≤ s.client.length) :
    (List.range n).foldl Slot.closeCell s = { s with
      client := List.replicate n (-1) ++ s.client.drop n
      clientLen := s.clientLen - (occupied (s.client.take n)).length } := by
  induction n with
  | zero =>
    rw [List.take_zero, List.drop_zero]
    show s = { s with clientLen := s.clientLen - 0 }
    rw [Int.sub_zero]
  | succ n ih =>
    have hlt : n < s.client.length := hn
    rw [List.range_succ, List.foldl_append, ih hlt.le, List.foldl_cons, List.foldl_nil,
      List.drop_eq_getElem_cons hlt, List.take_succ_eq_append_getElem hlt, occupied_append,
      List.length_append]
    have hcell : (List.replicate n (-1) ++ s.client[n] :: s.client.drop (n + 1)).getD n (-1) =
        s.client[n] := by
      rw [List.getD_append_right _ _ _ _ (by rw [List.length_replicate]), List.length_replicate,
        Nat.sub_self]
      rfl
    unfold Slot.closeCell
    simp only [hcell]
    by_cases hfree : s.client[n] = -1
    · rw [if_neg (not_not.mpr hfree), hfree, replicate_append_cons]
      rfl
    · rw [if_pos hfree, Slot.lose_of_mem (List.mem_append_right _ List.mem_cons_self)]
      have hone : (occupied [s.client[n]]).length = 1 := by
        rw [occupied_cons hfree]
        rfl
      simp only [clearFirst_behind n hfree, hone, Nat.cast_add, Nat.cast_one, Int.sub_sub]

lemma Slot.close_eq (s : Slot V) : s.close = { s with
    strategy := none
    name := none
    client := List.replicate s.client.length (-1)
    clientLen := s.clientLen - (occupied s.client).length } := by
  unfold Slot.close
  rw [closeCells _ _ le_rfl, List.drop_length, List.take_length, List.append_nil]

/-! ## Sessions that look alike -/

/-- The trial logs hold the same points, best points and records. -/
structure TrialLog.Alike (t u : TrialLog V) : Prop where
  sized : t.Sized
  sized' : u.Sized
  room_eq : t.room = u.room
  same : ∀ sess : SessionState V, sess.withTrials t = sess.withTrials u

/-- The slots look alike. -/
structure Slot.Alike (s t : Slot V) : Prop where
  name_eq : s.name = t.name
  fd_eq : s.fd = t.fd
  client_same : SameCells s.client t.client
  clientLen_eq : s.clientLen = t.clientLen
  strategy_eq : s.strategy = t.strategy
  status_eq : s.status = t.status
  reported_eq : s.reported = t.reported
  trials : s.trials.Alike t.trials

section

variable [Add V] [Zero V] [LT V] [DecidableLT V]

omit [Add V] [LT V] [DecidableLT V] in
lemma TrialLog.Alike.len_eq {t u : TrialLog V} (h : t.Alike u) : t.fetchedLen = u.fetchedLen := by
  have hpoints : t.fetched.take t.fetchedLen = u.fetched.take u.fetchedLen :=
    congrArg SessionState.fetched (h.same .zeroed)
  have hlength := congrArg List.length hpoints
  rw [List.length_take_of_le h.sized.len_le, List.length_take_of_le h.sized'.len_le] at hlength
  exact hlength

/-- The same message has the same effect. -/
lemma TrialLog.Alike.step {t u : TrialLog V} (h : t.Alike u) (e : TrialEvent V) :
    (t.step e = none ∧ u.step e = none) ∨
      ∃ t' u', t.step e = some t' ∧ u.step e = some u' ∧ t'.Alike u' := by
  cases e with
  | report candId perf =>
    obtain ⟨t', ht, hsized, hroom⟩ := TrialLog.report_sized h.sized candId perf
    obtain ⟨u', hu, hsized', hroom'⟩ := TrialLog.report_sized h.sized' candId perf
    refine Or.inr ⟨t', u', ht, hu, hsized, hsized', ?_, ?_⟩
    · rw [hroom, hroom', h.room_eq]
    · intro sess
      rw [← TrialLog.report_withTrials h.sized ht, ← TrialLog.report_withTrials h.sized' hu, h.same]
  | fetch status pt =>
    by_cases hok : status = .ok
    · rw [hok]
      by_cases hlt : t.fetchedLen < t.room
      · obtain ⟨t', ht⟩ := (TrialLog.fetch_ok_iff h.sized pt).mpr hlt
        obtain ⟨u', hu⟩ :=
          (TrialLog.fetch_ok_iff h.sized' pt).mpr (by rw [← h.len_eq, ← h.room_eq]; exact hlt)
        obtain ⟨hsized, hroom, -⟩ := TrialLog.fetch_ok h.sized ht
        obtain ⟨hsized', hroom', -⟩ := TrialLog.fetch_ok h.sized' hu
        refine Or.inr ⟨t', u', ht, hu, hsized, hsized', ?_, ?_⟩
        · rw [hroom, hroom', h.room_eq]
        · intro sess
          rw [TrialLog.fetch_withTrials h.sized ht, TrialLog.fetch_withTrials h.sized' hu, h.same]
      · left
        constructor
        · rw [Option.eq_none_iff_forall_ne_some]
          intro t' ht
          exact hlt ((TrialLog.fetch_ok_iff h.sized pt).mp ⟨t', ht⟩)
        · rw [Option.eq_none_iff_forall_ne_some]
          intro u' hu
          have hlt' := (TrialLog.fetch_ok_iff h.sized' pt).mp ⟨u', hu⟩
          rw [← h.len_eq, ← h.room_eq] at hlt'
          exact hlt hlt'
    · exact Or.inr ⟨t, u, if_neg hok, if_neg hok, h⟩

variable [Top V]

omit [Add V] [Zero V] [LT V] [DecidableLT V] [Top V] in
lemma Slot.Alike.lose {s t : Slot V} (h : s.Alike t) {fd : ℤ} (hfd : fd ≠ -1) :
    (s.lose fd).Alike (t.lose fd) := by
  by_cases hmem : fd ∈ s.client
  · have hmem' := (h.client_same.mem_iff hfd).mp hmem
    rw [Slot.lose_of_mem hmem, Slot.lose_of_mem hmem']
    exact { h with
      client_same := h.client_same.clearFirst hmem hmem'
      clientLen_eq := congrArg (· - 1) h.clientLen_eq }
  · have hmem' : fd ∉ t.client := fun hmem' => hmem ((h.client_same.mem_iff hfd).mpr hmem')
    unfold Slot.lose
    rw [if_neg hmem, if_neg hmem']
    exact h

omit [Add V] [Zero V] [LT V] [DecidableLT V] [Top V] in
lemma Slot.Alike.close {s t : Slot V} (h : s.Alike t) : s.close.Alike t.close := by
  rw [Slot.close_eq, Slot.close_eq]
  refine { h with name_eq := rfl, strategy_eq := rfl, client_same := ?_, clientLen_eq := ?_ }
  · intro i
    rw [List.getD_eq_getElem?_getD, List.getElem?_getD_replicate_default_eq, List.getD_eq_getElem?_getD,
      List.getElem?_getD_replicate_default_eq]
  · show s.clientLen - _ = t.clientLen - _
    rw [h.clientLen_eq, h.client_same.occupied]

omit [Add V] [Zero V] [LT V] [DecidableLT V] [Top V] in
lemma Slot.Alike.httpInfo {s t : Slot V} (h : s.Alike t) (key val : Bytes) :
    (s.httpInfo key val).Alike (t.httpInfo key val) := by
  unfold Slot.httpInfo
  rw [h.status_eq]
  split_ifs
  · exact { h with strategy_eq := rfl, status_eq := rfl }
  · exact { h with status_eq := rfl }
  · exact { h with status_eq := rfl }
  · exact h

/-- The same event has the same effect. -/
lemma Slot.Alike.step {s t : Slot V} (h : s.Alike t) {e : SlotEvent V} (he : e.OfSession) :
    (s.step e = none ∧ t.step e = none) ∨
      ∃ s' t', s.step e = some s' ∧ t.step e = some t' ∧ s'.Alike t' := by
  by_cases hname : s.name.isNone
  · -- a slot without a session only loses clients
    have hname' : t.name.isNone := h.name_eq ▸ hname
    have hsome : ¬s.name.isSome := by
      rw [Option.not_isSome_iff_eq_none]
      exact Option.isNone_iff_eq_none.mp hname
    have hsome' : ¬t.name.isSome := h.name_eq ▸ hsome
    right
    cases e with
    | opened name strategy launched => exact absurd he id
    | leave fd => exact ⟨_, _, rfl, rfl, h.lose he⟩
    | join fd => exact ⟨s, t, congrArg some (if_pos hname), congrArg some (if_pos hname'), h⟩
    | trial e => exact ⟨s, t, if_pos hname, if_pos hname', h⟩
    | reported status =>
      exact ⟨s, t, congrArg some (if_neg fun hs => hsome hs.1),
        congrArg some (if_neg fun ht => hsome' ht.1), h⟩
    | info key val => exact ⟨s, t, congrArg some (if_pos hname), congrArg some (if_pos hname'), h⟩
    | closed => exact ⟨s, t, congrArg some (if_pos hname), congrArg some (if_pos hname'), h⟩
  · have hname' : ¬t.name.isNone := h.name_eq ▸ hname
    have hsome : s.name.isSome := Option.isSome_iff_ne_none.mpr fun hs => hname (by rw [hs]; rfl)
    have hsome' : t.name.isSome := h.name_eq ▸ hsome
    cases e with
    | opened name strategy launched => exact absurd he id
    | leave fd => exact Or.inr ⟨_, _, rfl, rfl, h.lose he⟩
    | join fd =>
      refine Or.inr ⟨_, _, congrArg some (if_neg hname), congrArg some (if_neg hname'), ?_⟩
      exact { h with
        client_same := h.client_same.addFd fd
        clientLen_eq := congrArg (· + 1) h.clientLen_eq }
    | trial e =>
      have hs : s.step (.trial e) = (s.trials.step e).map fun trials => { s with trials := trials } :=
        if_neg hname
      have ht : t.step (.trial e) = (t.trials.step e).map fun trials => { t with trials := trials } :=
        if_neg hname'
      rw [hs, ht]
      obtain ⟨hnone, hnone'⟩ | ⟨trials, trials', hstep, hstep', halike⟩ := h.trials.step e
      · left
        rw [hnone, hnone']
        exact ⟨rfl, rfl⟩
      · right
        rw [hstep, hstep']
        exact ⟨_, _, rfl, rfl, { h with trials := halike }⟩
    | reported status =>
      right
      by_cases hok : status = .ok
      · refine ⟨_, _, congrArg some (if_pos ⟨hsome, hok⟩), congrArg some (if_pos ⟨hsome', hok⟩), ?_⟩
        exact { h with reported_eq := congrArg (· + 1) h.reported_eq }
      · exact ⟨s, t, congrArg some (if_neg fun hs => hok hs.2), congrArg some (if_neg fun ht => hok ht.2), h⟩
    | info key val =>
      exact Or.inr ⟨_, _, congrArg some (if_neg hname), congrArg some (if_neg hname'), h.httpInfo key val⟩
    | closed =>
      exact Or.inr ⟨_, _, congrArg some (if_neg hname), congrArg some (if_neg hname'), h.close⟩

/-- The same events show the same. -/
lemma Slot.Alike.run {s t : Slot V} (h : s.Alike t) {es : List (SlotEvent V)}
    (hes : ∀ e ∈ es, e.OfSession) : (s.run es).map Slot.view = (t.run es).map Slot.view := by
  induction es generalizing s t with
  | nil =>
    show some s.view = some t.view
    have hbest := congrArg SessionState.best (h.trials.same .zeroed)
    have hperf := congrArg SessionState.bestPerf (h.trials.same .zeroed)
    have hlog := congrArg SessionState.log (h.trials.same .zeroed)
    unfold Slot.view
    rw [h.name_eq, h.fd_eq, h.client_same.occupied, h.clientLen_eq, h.strategy_eq, h.status_eq,
      h.reported_eq, show s.trials.best = t.trials.best from hbest,
      show s.trials.bestPerf = t.trials.bestPerf from hperf, show s.trials.log = t.trials.log from hlog]
  | cons e es ih =>
    have hrest : ∀ e ∈ es, e.OfSession := fun e' he' => hes e' (List.mem_cons_of_mem e he')
    unfold Slot.run
    rw [List.foldlM_cons, List.foldlM_cons]
    obtain ⟨hs, ht⟩ | ⟨s', t', hs, ht, halike⟩ := h.step (hes e List.mem_cons_self)
    · rw [hs, ht]
    · rw [hs, ht]
      exact ih halike hrest

/-! ## Used slots -/

/-- What every history leaves behind. -/
structure Slot.Kept (s : Slot V) : Prop where
  sized : s.trials.Sized
  room_eq : s.trials.room = 2
  /-- The clients of a closed session are gone. -/
  free : s.name = none → ∀ i, s.client.getD i (-1) = -1

omit [Add V] [LT V] [DecidableLT V] [Top V] in
lemma Slot.zeroed_kept : (Slot.zeroed : Slot V).Kept := by
  refine ⟨⟨?_, le_rfl⟩, ?_, fun _ _ => rfl⟩
  · show 0 = wholePoints 0
    decide
  · show wholePoints (if (0 : ℕ) = 0 then 8 else 0) = 2
    decide

omit [Top V] in
lemma TrialLog.step_sized {t t' : TrialLog V} (h : t.Sized) {e : TrialEvent V} (hstep : t.step e = some t') :
    t'.Sized ∧ t'.room = t.room := by
  cases e with
  | report candId perf =>
    obtain ⟨t'', hstep', hsized, hroom⟩ := TrialLog.report_sized h candId perf
    obtain rfl : t'' = t' := Option.some.inj (hstep'.symm.trans hstep)
    exact ⟨hsized, hroom⟩
  | fetch status pt =>
    by_cases hok : status = .ok
    · rw [hok] at hstep
      obtain ⟨hsized, hroom, -⟩ := TrialLog.fetch_ok h hstep
      exact ⟨hsized, hroom⟩
    · obtain rfl : t = t' := by
        have hsame : t.step (.fetch status pt) = some t := if_neg hok
        exact Option.some.inj (hsame.symm.trans hstep)
      exact ⟨h, rfl⟩

omit [Add V] [Zero V] [LT V] [DecidableLT V] in
lemma Slot.Kept.sessionOpen {s : Slot V} (h : s.Kept) (name : Bytes) (strategy : Option Bytes)
    (launched : Option ℤ) (hclosed : s.name = none) : (s.sessionOpen name strategy launched).Kept := by
  cases launched with
  | none => exact ⟨⟨h.sized.length_eq, h.sized.len_le⟩, h.room_eq, fun _ => h.free hclosed⟩
  | some fd => exact ⟨⟨h.sized.length_eq, h.sized.len_le⟩, h.room_eq, fun hname => absurd hname nofun⟩

omit [Add V] [Zero V] [LT V] [DecidableLT V] [Top V] in
/-- Only the client list and the name matter for the clients. -/
lemma Slot.Kept.of_eq {s s' : Slot V} (h : s.Kept) (htrials : s'.trials = s.trials)
    (hfree : s'.name = none → ∀ i, s'.client.getD i (-1) = -1) : s'.Kept :=
  ⟨htrials ▸ h.sized, htrials ▸ h.room_eq, hfree⟩

omit [Add V] [Zero V] [LT V] [DecidableLT V] [Top V] in
lemma Slot.Kept.lose {s : Slot V} (h : s.Kept) (fd : ℤ) : (s.lose fd).Kept := by
  by_cases hmem : fd ∈ s.client
  · rw [Slot.lose_of_mem hmem]
    refine h.of_eq rfl ?_
    intro hname i
    obtain hsame | ⟨hfree, -⟩ := clearFirst_getD s.client fd i
    · exact hsame.trans (h.free hname i)
    · exact hfree
  · unfold Slot.lose
    rw [if_neg hmem]
    exact h

omit [Add V] [Zero V] [LT V] [DecidableLT V] [Top V] in
lemma Slot.Kept.close {s : Slot V} (h : s.Kept) : s.close.Kept := by
  rw [Slot.close_eq]
  refine h.of_eq rfl ?_
  intro _ i
  rw [List.getD_eq_getElem?_getD]
  exact List.getElem?_getD_replicate_default_eq _ _ _

omit [Add V] [Zero V] [LT V] [DecidableLT V] [Top V] in
lemma Slot.Kept.httpInfo {s : Slot V} (h : s.Kept) (key val : Bytes) : (s.httpInfo key val).Kept := by
  unfold Slot.httpInfo
  split_ifs
  · exact h.of_eq rfl h.free
  · exact h.of_eq rfl h.free
  · exact h.of_eq rfl h.free
  · exact h

lemma Slot.Kept.step {s s' : Slot V} (h : s.Kept) {e : SlotEvent V} (hstep : s.step e = some s') :
    s'.Kept := by
  have hopen : ¬s.name.isNone → ∀ {P : Prop}, s.name = none → P :=
    fun hname _ hnone => absurd (by rw [hnone]; rfl) hname
  unfold Slot.step at hstep
  cases e with
  | opened name strategy launched =>
    rw [← Option.some.inj hstep]
    split_ifs with hname
    · exact h.sessionOpen name strategy launched (Option.isNone_iff_eq_none.mp hname)
    · exact h
  | leave fd =>
    rw [← Option.some.inj hstep]
    exact h.lose fd
  | join fd =>
    rw [← Option.some.inj hstep]
    split_ifs with hname
    · exact h
    · exact h.of_eq rfl (hopen hname)
  | trial e =>
    by_cases hname : s.name.isNone
    · simp only [if_pos hname] at hstep
      rw [← Option.some.inj hstep]
      exact h
    · simp only [if_neg hname] at hstep
      obtain ⟨trials, htrials, rfl⟩ := Option.map_eq_some_iff.mp hstep
      obtain ⟨hsized, hroom⟩ := TrialLog.step_sized h.sized htrials
      exact ⟨hsized, hroom.trans h.room_eq, hopen hname⟩
  | reported status =>
    rw [← Option.some.inj hstep]
    split_ifs
    · exact h.of_eq rfl h.free
    · exact h
  | info key val =>
    rw [← Option.some.inj hstep]
    split_ifs
    · exact h
    · exact h.httpInfo key val
  | closed =>
    rw [← Option.some.inj hstep]
    split_ifs
    · exact h
    · exact h.close

lemma Slot.Kept.run {s s' : Slot V} (h : s.Kept) {es : List (SlotEvent V)} (hrun : s.run es = some s') :
    s'.Kept := by
  induction es generalizing s with
  | nil =>
    obtain rfl : s = s' := Option.some.inj hrun
    exact h
  | cons e es ih =>
    unfold Slot.run at hrun
    rw [List.foldlM_cons] at hrun
    obtain ⟨s'', hstep, hrest⟩ := Option.bind_eq_some_iff.mp hrun
    exact ih (h.step hstep) hrest

/-- Two points for a session. -/
def twoPoints : List (SlotEvent V) :=
  [.trial (.fetch .ok { id := 1, val := [] }), .trial (.fetch .ok { id := 2, val := [] })]

/-- There is room for two points in an array without points. -/
lemma Slot.Kept.twoPoints {s : Slot V} (h : s.Kept) (hopen : s.name ≠ none) :
    (s.run twoPoints).isSome ↔ s.trials.fetchedLen = 0 := by
  have hname : ¬s.name.isNone := fun hnone => hopen (Option.isNone_iff_eq_none.mp hnone)
  have hroom := h.room_eq
  have hstep : ∀ trials : TrialLog V, ∀ pt,
      ({ s with trials := trials } : Slot V).step (.trial (.fetch .ok pt)) =
      (trials.fetch .ok pt).map fun trials => { s with trials := trials } := fun _ _ => if_neg hname
  have hrun : s.run Hserver.twoPoints = (s.trials.fetch .ok { id := 1, val := [] }).bind fun trials =>
      (trials.fetch .ok { id := 2, val := [] }).map fun trials => { s with trials := trials } := by
    have hfirst : s.step (.trial (.fetch .ok { id := 1, val := [] })) = _ := hstep s.trials _
    unfold Slot.run Hserver.twoPoints
    rw [List.foldlM_cons, hfirst]
    cases s.trials.fetch .ok { id := 1, val := [] } with
    | none => rfl
    | some trials =>
      show ({ s with trials := trials } : Slot V).step _ >>= pure = _
      rw [bind_pure, hstep]
      rfl
  rw [hrun]
  constructor
  · intro hsome
    obtain ⟨s', hs'⟩ := Option.isSome_iff_exists.mp hsome
    obtain ⟨t, ht, hmap⟩ := Option.bind_eq_some_iff.mp hs'
    obtain ⟨u, hu, -⟩ := Option.map_eq_some_iff.mp hmap
    obtain ⟨hsized, hroom', hlen, -⟩ := TrialLog.fetch_ok h.sized ht
    have hlt := (TrialLog.fetch_ok_iff hsized _).mp ⟨u, hu⟩
    omega
  · intro hzero
    obtain ⟨t, ht⟩ := (TrialLog.fetch_ok_iff h.sized { id := 1, val := [] }).mpr (by omega)
    obtain ⟨hsized, hroom', hlen, -⟩ := TrialLog.fetch_ok h.sized ht
    obtain ⟨u, hu⟩ := (TrialLog.fetch_ok_iff hsized { id := 2, val := [] }).mpr (by omega)
    rw [ht, Option.bind_some, hu]
    rfl

/-- A session in a used slot shows the same as one in a slot that was never used, whatever happens,
exactly if no point of an earlier session was left in the slot. -/
theorem reopened_iff {hist : List (SlotEvent V)} {s : Slot V} (hrun : Slot.zeroed.run hist = some s)
    (hclosed : s.name = none) (name : Bytes) (strategy : Option Bytes) (fd : ℤ) :
    (∀ es, (∀ e ∈ es, e.OfSession) →
      ((s.sessionOpen name strategy (some fd)).run es).map Slot.view =
        ((Slot.zeroed.sessionOpen name strategy (some fd)).run es).map Slot.view) ↔
      s.trials.fetchedLen = 0 := by
  have hkept := Slot.zeroed_kept.run hrun
  have hopened := hkept.sessionOpen name strategy (some fd) hclosed
  have hfirst := (Slot.zeroed_kept (V := V)).sessionOpen name strategy (some fd) rfl
  constructor
  · intro hall
    have htwo : ∀ e ∈ (twoPoints : List (SlotEvent V)), e.OfSession := by
      intro e he
      simp only [twoPoints, List.mem_cons, List.not_mem_nil, or_false] at he
      obtain rfl | rfl := he <;> trivial
    have hsame := congrArg Option.isSome (hall twoPoints htwo)
    rw [Option.isSome_map, Option.isSome_map] at hsame
    have hfew := (hfirst.twoPoints (by nofun)).mpr rfl
    rw [← hsame] at hfew
    exact (hopened.twoPoints (by nofun)).mp hfew
  · intro hzero es hes
    apply Slot.Alike.run _ hes
    refine ⟨rfl, rfl, ?_, rfl, rfl, rfl, rfl, hopened.sized, hfirst.sized, ?_, ?_⟩
    · intro i
      exact (hkept.free hclosed i).trans rfl
    · rw [hopened.room_eq, hfirst.room_eq]
    · intro sess
      show { sess with best := _, bestPerf := _, log := _,
                       fetched := s.trials.fetched.take s.trials.fetchedLen } = _
      rw [hzero, List.take_zero]
      rfl

end

/-! ## Two histories -/

/-- A session whose point is reported before it is closed, or is not. -/
def earlier (reported : Bool) : List (SlotEvent (WithTop ℕ)) :=
  [.opened (cstr "first") none (some 7), .join 8, .trial (.fetch .ok (tilePoint 1 4))] ++
    (if reported then [.trial (tileReport 1 30), .reported .ok] else []) ++ [.closed]

/-- A client of the next session reports a point that it was not sent. -/
def laterEvents : List (SlotEvent (WithTop ℕ)) :=
  [.join 9, .trial (tileReport 1 20), .reported .ok, .leave 9]

lemma laterEvents_ofSession : ∀ e ∈ laterEvents, e.OfSession := by
  intro e he
  simp only [laterEvents, List.mem_cons, List.not_mem_nil, or_false] at he
  obtain rfl | rfl | rfl | rfl := he
  · trivial
  · trivial
  · trivial
  · exact (by decide : (9 : ℤ) ≠ -1)

/-- Nothing is left of a session whose points were all reported. -/
theorem reported_session_gone : ∃ s, Slot.zeroed.run (earlier true) = some s ∧
    ((s.sessionOpen (cstr "second") none (some 7)).run laterEvents).map Slot.view =
      ((Slot.zeroed.sessionOpen (cstr "second") none (some 7)).run laterEvents).map Slot.view := by
  have hend : (Slot.zeroed.run (earlier true)).map (fun s => (s.name, s.trials.fetchedLen)) =
      some (none, 0) := by decide +kernel
  obtain ⟨s, hrun, heq⟩ := Option.map_eq_some_iff.mp hend
  obtain ⟨hname, hlen⟩ := Prod.mk.inj heq
  exact ⟨s, hrun, (reopened_iff hrun hname (cstr "second") none 7).mpr hlen _ laterEvents_ofSession⟩

/-- The records of the next session. -/
def laterLog (s : Slot (WithTop ℕ)) : Option (List (HPoint (WithTop ℕ) × WithTop ℕ)) :=
  ((s.sessionOpen (cstr "second") none (some 7)).run laterEvents).map fun s => s.view.log

/-- The point that an earlier session has left is recorded for a later one. -/
theorem left_point_recorded : ¬ ∀ (hist : List (SlotEvent (WithTop ℕ))) (s : Slot (WithTop ℕ)),
    Slot.zeroed.run hist = some s → s.name = none → ∀ name strategy fd es, (∀ e ∈ es, e.OfSession) →
    ((s.sessionOpen name strategy (some fd)).run es).map Slot.view =
      ((Slot.zeroed.sessionOpen name strategy (some fd)).run es).map Slot.view := by
  intro hall
  have hend : (Slot.zeroed.run (earlier false)).map Slot.name = some none := by decide +kernel
  have hleft : (Slot.zeroed.run (earlier false)).bind laterLog = some [(tilePoint 1 4, 20)] := by
    decide +kernel
  have hfirst : laterLog Slot.zeroed = some [(hpointInitializer _, 20)] := by decide +kernel
  obtain ⟨s, hrun, hname⟩ := Option.map_eq_some_iff.mp hend
  rw [hrun, Option.bind_some] at hleft
  have hsame := congrArg (Option.map SlotView.log)
    (hall _ s hrun hname (cstr "second") none 7 _ laterEvents_ofSession)
  rw [Option.map_map, Option.map_map] at hsame
  have hlogs : laterLog s = laterLog Slot.zeroed := hsame
  rw [hleft, hfirst] at hlogs
  exact absurd hlogs (by decide)

end ActiveHarmony.Hserver

import ActiveHarmony.Lib.GrowArray
import ActiveHarmony.Server.Routing
import ActiveHarmony.Server.TrialLog

/-!
# The memory of the arrays in `hserver.c`

The arrays of the server are grown by `array_grow`, which is told the size of an element. Most calls name the
type of the elements; the one for `fetched` names a pointer to it. `allocations_cover_iff` says in which runs
the memory of all arrays is large enough: in those in which no client gets a point.
-/

namespace ActiveHarmony

/-- `sizeof(int)`. -/
def sizeofInt : ℕ := 4

namespace Hserver

open GrowArray

/-- `sizeof(session_state_t)`. -/
def sizeofSessionState : ℕ := 160

/-- `sizeof(http_log_t)`. -/
def sizeofHttpLog : ℕ := 48

/-- The arrays of the server. The last three belong to the session with the given index. -/
inductive Arr where
  | unkFds | clientFds | httpFds | slist
  | client (idx : ℕ) | log (idx : ℕ) | fetched (idx : ℕ)
deriving DecidableEq, Repr

/-- The size of the elements. -/
def Arr.elem : Arr → ℕ
  | .unkFds | .clientFds | .httpFds | .client _ => sizeofInt
  | .slist => sizeofSessionState
  | .log _ => sizeofHttpLog
  | .fetched _ => sizeofHpoint

/-- The size that `array_grow` is called with. -/
def Arr.grownBy : Arr → ℕ
  | .unkFds | .clientFds | .httpFds | .client _ => sizeofInt
  | .slist => sizeofSessionState
  | .log _ => sizeofHttpLog
  | .fetched _ => sizeofHpointPtr

/-- The memory of the arrays. -/
abbrev Memory := Arrays Arr

/-- What an event does with the arrays: the indices it uses in front of `array_grow`, the array it grows, and
the indices it uses afterwards. Loops that go on while an index is below a capacity are left out. -/
structure Access where
  before : List (Arr × ℕ)
  grown : Option Arr
  after : List (Arr × ℕ)

/-- No array. -/
def Access.none : Access := { before := [], grown := Option.none, after := [] }

/-- Indices that are used before all others. -/
def Access.behind (uses : List (Arr × ℕ)) (a : Access) : Access := { a with before := uses ++ a.before }

/-- `available_index`, and the assignment after it. -/
def Access.available (arr : Arr) (list : List ℤ) : Access where
  before := []
  grown := if (availableIndex list).1 < list.length then Option.none else some arr
  after := [(arr, (availableIndex list).1)]

/-- The memory after an access. -/
def Memory.after (m : Memory) (a : Access) : Memory := a.grown.elim m (m.grow Arr.grownBy)

variable {V : Type}

section

variable [Add V] [Zero V] [LT V] [DecidableLT V] [Top V]

/-- The session with an index of the list. -/
def Server.sessionAt (s : Server V) (idx : ℕ) : SessionState V := (s.slist[idx]?).getD .zeroed

/-- `session_open`. The list is grown also where the session cannot be launched. -/
def openAccess (m : Memory) (s : Server V) (name : Bytes) : Access :=
  if (findSession s name).isSome then .none
  else
    let idx := (freeSlot s.slist).1
    { before := []
      grown := if idx < (m .slist).cap then Option.none else some .slist
      after := [(.slist, idx)] }

/-- A report: the search in `fetched`, `append_http_log`, and the removal of the point. -/
def reportAccess (m : Memory) (sess : SessionState V) (idx : ℕ) : Access where
  before := (List.range sess.fetched.length).map fun i => (.fetched idx, i)
  grown := if sess.log.length = (m (.log idx)).cap then some (.log idx) else Option.none
  after := (.log idx, sess.log.length) :: (List.range sess.fetched.length).map fun i => (.fetched idx, i)

/-- `handle_client_socket`. -/
def requestAccess (m : Memory) (s : Server V) (mesg : HMesg V) : Access :=
  if mesg.dest = -1 then .none
  else
    match mesg.type, mesg.data with
    | .session, .session sess => sess.sig.name.elim .none (openAccess m s)
    | .join, .join sig =>
      (sig.name.bind (findSession s)).elim .none fun idx =>
        (Access.available (.client idx) (s.sessionAt idx).client).behind [(.slist, idx)]
    | .session, _ | .join, _ => .none
    | type, data =>
      if mesg.dest < 0 ∨ (s.slist[mesg.dest.toNat]?.bind (·.name)).isNone then .none
      else
        let idx := mesg.dest.toNat
        match type, data with
        | .report, .report _ _ => (reportAccess m (s.sessionAt idx) idx).behind [(.slist, idx)]
        | _, _ => Access.none.behind [(.slist, idx)]

/-- `handle_session_socket`. -/
def answerAccess (m : Memory) (s : Server V) (idx : ℕ) (mesg : HMesg V) : Access :=
  if mesg.dest = -1 then .none
  else
    match mesg.type, mesg.status, mesg.data with
    | .fetch, .ok, .point _ =>
      let len := (s.sessionAt idx).fetched.length
      { before := []
        grown := if len = (m (.fetched idx)).cap then some (.fetched idx) else Option.none
        after := [(.fetched idx, len)] }
    | _, _, _ => .none

/-- What an event does with the arrays. -/
def access (m : Memory) (s : Server V) : Event V → Access
  | .accept _ => .available .unkFds s.unkFds
  | .unknown i header =>
    Access.behind [(.unkFds, i)] <|
      match header with
      | .missing => .none
      | .harmony => .available .clientFds s.clientFds
      | .http => if httpConnectionLimit ≤ s.httpLen then .none else .available .httpFds s.httpFds
  | .client i recv _ => (recv.elim .none (requestAccess m s)).behind [(.clientFds, i)]
  | .session idx recv _ _ => (recv.elim .none (answerAccess m s idx)).behind [(.slist, idx)]
  | .httpKill i name _ =>
    Access.none.behind ((.httpFds, i) :: (findSession s name).toList.map fun idx => (.slist, idx))
  | .httpClosed i => Access.none.behind [(.httpFds, i)]

/-- The memory after an event. -/
def Memory.step (m : Memory) (s : Server V) (e : Event V) : Memory := m.after (access m s e)

/-- The memory after `vars_init`. -/
def Memory.start : Memory
  | .client _ | .log _ | .fetched _ => .empty
  | arr => Block.empty.grow arr.grownBy

/-- Each index is below the capacity of its array. -/
def Access.InBounds (a : Access) (m m' : Memory) : Prop :=
  (∀ use ∈ a.before, use.2 < (m use.1).cap) ∧ ∀ use ∈ a.after, use.2 < (m' use.1).cap

/-- The runs of the server in which no allocation fails. -/
inductive Allocating : List (Event V) → Server V → Memory → Prop
  | start : Allocating [] Server.start Memory.start
  | snoc {es : List (Event V)} {e : Event V} {s s' : Server V} {m : Memory} :
      Allocating es s m → step s e = some s' → (m.step s e).Allocated →
      Allocating (es ++ [e]) s' (m.step s e)

end

/-! ## Lengths and capacities -/

section

variable [Zero V]

/-- The length of the list that stands for an array. -/
def Server.len (s : Server V) : Arr → ℕ
  | .unkFds => s.unkFds.length
  | .clientFds => s.clientFds.length
  | .httpFds => s.httpFds.length
  | .slist => s.slist.length
  | .client idx => (s.sessionAt idx).client.length
  | .log idx => (s.sessionAt idx).log.length
  | .fetched idx => (s.sessionAt idx).fetched.length

/-- What the length of the list says about the capacity of the array. Of the session list, elements that were
never used may be missing. -/
def Arr.Holds (len cap : ℕ) : Arr → Prop
  | .unkFds | .clientFds | .httpFds | .client _ => cap = len
  | .slist => 8 ≤ len ∧ (cap = len ∨ cap = 2 * len)
  | .log _ | .fetched _ => len ≤ cap

/-- The capacities are those of the lists. -/
def Memory.Fits (m : Memory) (s : Server V) : Prop := ∀ arr : Arr, arr.Holds (s.len arr) (m arr).cap

variable {m : Memory} {s s' : Server V} {a : Access} {arr : Arr} {idx : ℕ} {fd : ℤ} {net : Net}

lemma Memory.after_other (harr : a.grown ≠ some arr) : m.after a arr = m arr := by
  unfold Memory.after
  cases hgrown : a.grown with
  | none => rfl
  | some arr' =>
    have hne : arr ≠ arr' := by
      intro heq
      exact harr (by rw [hgrown, heq])
    exact Function.update_of_ne hne _ _

/-- An event that is about one array. -/
lemma Memory.Fits.one (h : m.Fits s) (arr : Arr)
    (hother : ∀ arr' cap, arr' ≠ arr → arr'.Holds (s.len arr') cap → arr'.Holds (s'.len arr') cap)
    (hgrown : ∀ arr', a.grown = some arr' → arr' = arr)
    (hat : arr.Holds (s'.len arr) (m.after a arr).cap) : (m.after a).Fits s' := by
  intro arr'
  by_cases harr : arr' = arr
  · rw [harr]
    exact hat
  · have hsame : m.after a arr' = m arr' := by
      apply Memory.after_other
      intro hsome
      exact harr (hgrown arr' hsome)
    rw [hsame]
    exact hother arr' _ harr (h arr')

lemma Memory.Fits.of_len (h : m.Fits s) (hlen : s'.len = s.len) : m.Fits s' := by
  unfold Memory.Fits
  rw [hlen]
  exact h

lemma sessionAt_onSession {f : SessionState V → SessionState V} (k : ℕ) :
    (s.onSession idx f).sessionAt k
      = if idx = k ∧ idx < s.slist.length then f (s.sessionAt k) else s.sessionAt k := by
  unfold Server.sessionAt Server.onSession
  simp only [List.getElem?_modify]
  by_cases hk : idx = k
  · subst hk
    by_cases hlt : idx < s.slist.length
    · rw [if_pos ⟨rfl, hlt⟩, List.getElem?_eq_getElem hlt]
      simp
    · rw [if_neg fun h => hlt h.2, List.getElem?_eq_none (by omega)]
      rfl
  · rw [if_neg fun h => hk h.1]
    simp [hk]

/-- A change to a session that keeps the lengths of its lists. -/
lemma onSession_len {f : SessionState V → SessionState V}
    (hf : ∀ sess : SessionState V, (f sess).client.length = sess.client.length ∧
      (f sess).log.length = sess.log.length ∧ (f sess).fetched.length = sess.fetched.length) :
    (s.onSession idx f).len = s.len := by
  funext arr
  cases arr with
  | slist =>
    show (s.slist.modify idx f).length = s.slist.length
    rw [List.length_modify]
  | client k | log k | fetched k =>
    unfold Server.len
    simp only
    rw [sessionAt_onSession]
    split_ifs
    · simp only [hf]
    · rfl
  | _ => rfl

/-- A change to a session, at an array that it leaves alone. -/
lemma onSession_holds {f : SessionState V → SessionState V} {cap : ℕ}
    (hclient : arr = .client idx → (f (s.sessionAt idx)).client = (s.sessionAt idx).client)
    (hlog : arr = .log idx → (f (s.sessionAt idx)).log.length ≤ (s.sessionAt idx).log.length)
    (hfetched : arr = .fetched idx →
      (f (s.sessionAt idx)).fetched.length ≤ (s.sessionAt idx).fetched.length)
    (hholds : arr.Holds (s.len arr) cap) : arr.Holds ((s.onSession idx f).len arr) cap := by
  cases arr with
  | slist =>
    unfold Server.len Server.onSession
    simp only [List.length_modify]
    exact hholds
  | client k =>
    unfold Server.len
    simp only [sessionAt_onSession]
    split_ifs with hk
    · obtain ⟨rfl, -⟩ := hk
      rw [hclient rfl]
      exact hholds
    · exact hholds
  | log k =>
    unfold Server.len
    simp only [sessionAt_onSession]
    split_ifs with hk
    · obtain ⟨rfl, -⟩ := hk
      exact (hlog rfl).trans hholds
    · exact hholds
  | fetched k =>
    unfold Server.len
    simp only [sessionAt_onSession]
    split_ifs with hk
    · obtain ⟨rfl, -⟩ := hk
      exact (hfetched rfl).trans hholds
    · exact hholds
  | _ => exact hholds

lemma length_clearFirst {l : List ℤ} : (clearFirst l fd).length = l.length := List.length_set

lemma clientClose_len : (clientClose s net fd).len = s.len := by
  obtain ⟨hslist, hclients, hunk, hhttp⟩ := clientClose_lists s net fd
  have hsess : ∀ k, (clientClose s net fd).sessionAt k
      = if k < s.slist.length then (s.sessionAt k).lose fd else s.sessionAt k := by
    intro k
    unfold Server.sessionAt
    rw [hslist, List.getElem?_map]
    split_ifs with hlt
    · rw [List.getElem?_eq_getElem hlt]
      rfl
    · rw [List.getElem?_eq_none (by omega)]
      rfl
  have hlose : ∀ sess : SessionState V, (sess.lose fd).client.length = sess.client.length ∧
      (sess.lose fd).log = sess.log ∧ (sess.lose fd).fetched = sess.fetched := by
    intro sess
    unfold SessionState.lose
    split_ifs
    · exact ⟨length_clearFirst, rfl, rfl⟩
    · exact ⟨rfl, rfl, rfl⟩
  funext arr
  cases arr with
  | unkFds => exact congrArg List.length hunk
  | httpFds => exact congrArg List.length hhttp
  | clientFds =>
    show (clientClose s net fd).clientFds.length = _
    rw [hclients, length_clearFirst]
    rfl
  | slist =>
    show (clientClose s net fd).slist.length = _
    rw [hslist, List.length_map]
    rfl
  | client k | log k | fetched k =>
    unfold Server.len
    simp only
    rw [hsess]
    split_ifs
    · simp only [hlose]
    · rfl

lemma sessionClose_len : (sessionClose s net idx).len = s.len := by
  have hcell : ∀ (t : Server V) (i : ℕ), (closeCell net idx t i).len = t.len := by
    intro t i
    unfold closeCell
    cases t.slist[idx]? with
    | none => rfl
    | some sess =>
      simp only
      split_ifs
      · exact clientClose_len
      · rfl
  have hcells : ∀ (cells : List ℕ) (t : Server V), (cells.foldl (closeCell net idx) t).len = t.len := by
    intro cells
    induction cells with
    | nil =>
      intro t
      rfl
    | cons i cells ih =>
      intro t
      rw [List.foldl_cons, ih, hcell]
  unfold sessionClose
  simp only
  rw [hcells]
  apply onSession_len
  intro sess
  exact ⟨rfl, rfl, rfl⟩

/-! ## One event -/

lemma nextCap_eq (b : Block) : b.nextCap = grownCap b.cap := rfl

lemma lt_grownCap (cap : ℕ) : cap < grownCap cap := by
  unfold grownCap
  split_ifs
  all_goals omega

/-- An array that is grown when it is full has room for one more element. -/
lemma Memory.append_room {len : ℕ} (hle : len ≤ (m arr).cap)
    (ha : a.grown = if len = (m arr).cap then some arr else none) : len < (m.after a arr).cap := by
  unfold Memory.after
  rw [ha]
  split_ifs with hfull
  · have hgrown := lt_grownCap (m arr).cap
    show _ < (m.grow Arr.grownBy arr arr).cap
    rw [Arrays.grow_cap, nextCap_eq]
    omega
  · show _ < (m arr).cap
    omega

/-- Either there is a free cell, or the list is grown. -/
lemma available_cases (l : List ℤ) (fd : ℤ) :
    (availableIndex l).1 < l.length ∧ (addFd l fd).length = l.length ∨
      (availableIndex l).1 = l.length ∧ (addFd l fd).length = grownCap l.length := by
  unfold addFd availableIndex
  simp only [List.length_set]
  split_ifs with hlt
  · exact Or.inl ⟨hlt, rfl⟩
  · have hgrown := lt_grownCap l.length
    right
    refine ⟨rfl, ?_⟩
    rw [List.length_append, List.length_replicate]
    omega

lemma available_cap {l : List ℤ} (hcap : (m arr).cap = l.length) (fd : ℤ) :
    (m.after (.available arr l) arr).cap = (addFd l fd).length ∧
      (availableIndex l).1 < (addFd l fd).length := by
  unfold Memory.after Access.available
  obtain ⟨hlt, hlen⟩ | ⟨heq, hlen⟩ := available_cases l fd
  · rw [if_pos hlt, hlen]
    exact ⟨hcap, hlt⟩
  · have hgrown := lt_grownCap l.length
    rw [if_neg (by omega), hlen, heq]
    refine ⟨?_, hgrown⟩
    show (m.grow Arr.grownBy arr arr).cap = _
    rw [Arrays.grow_cap, nextCap_eq, hcap]

lemma available_grown {l : List ℤ} {arr' : Arr} (h : (Access.available arr l).grown = some arr') :
    arr' = arr := by
  unfold Access.available at h
  simp only at h
  split_ifs at h
  exact (Option.some.inj h).symm

/-- An index that is found by `available_index` and used. -/
lemma available_bounds {l : List ℤ} {m' : Memory} (hcap : (m arr).cap = l.length)
    (hm' : m' = m.after (.available arr l)) : (Access.available arr l).InBounds m m' := by
  refine ⟨?_, ?_⟩
  · intro use huse
    cases huse
  · intro use huse
    obtain rfl := List.mem_singleton.mp huse
    obtain ⟨hlen, hlt⟩ := available_cap hcap 0
    rw [← hlen] at hlt
    rw [hm']
    exact hlt

lemma behind_bounds {uses : List (Arr × ℕ)} {m' : Memory} (huses : ∀ use ∈ uses, use.2 < (m use.1).cap)
    (h : a.InBounds m m') : (a.behind uses).InBounds m m' := by
  refine ⟨?_, h.2⟩
  intro use huse
  obtain huse | huse := List.mem_append.mp huse
  · exact huses use huse
  · exact h.1 use huse

lemma none_bounds {m' : Memory} : Access.none.InBounds m m' :=
  ⟨fun _ huse => absurd huse List.not_mem_nil, fun _ huse => absurd huse List.not_mem_nil⟩

lemma Memory.Fits.slist_lt (h : m.Fits s) (hidx : idx < s.slist.length) : idx < (m .slist).cap := by
  obtain ⟨-, hcap⟩ := h .slist
  change _ = s.slist.length ∨ _ = 2 * s.slist.length at hcap
  omega

lemma accept_fits (h : m.Fits s) :
    (m.after (.available .unkFds s.unkFds)).Fits (handleNewConnection s fd) := by
  apply h.one .unkFds
  · intro arr' cap hne hholds
    cases arr' with
    | unkFds => exact absurd rfl hne
    | _ => exact hholds
  · intro arr' harr'
    exact available_grown harr'
  · exact (available_cap (h .unkFds) fd).1

lemma unknown_fits (fd : ℤ) (header : Header) (h : m.Fits s) :
    (m.after (match header with
      | .missing => Access.none
      | .harmony => .available .clientFds s.clientFds
      | .http => if httpConnectionLimit ≤ s.httpLen then .none else .available .httpFds s.httpFds)).Fits
      (handleUnknownConnection s fd header) := by
  cases header with
  | missing => exact h
  | harmony =>
    apply h.one .clientFds
    · intro arr' cap hne hholds
      cases arr' with
      | clientFds => exact absurd rfl hne
      | _ => exact hholds
    · intro arr' harr'
      exact available_grown harr'
    · exact (available_cap (h .clientFds) fd).1
  | http =>
    unfold handleUnknownConnection
    simp only
    split_ifs
    · exact h
    · apply h.one .httpFds
      · intro arr' cap hne hholds
        cases arr' with
        | httpFds => exact absurd rfl hne
        | _ => exact hholds
      · intro arr' harr'
        exact available_grown harr'
      · exact (available_cap (h .httpFds) fd).1

lemma join_fits (h : m.Fits s) (hidx : idx < s.slist.length) :
    (m.after (.available (.client idx) (s.sessionAt idx).client)).Fits (s.onSession idx fun sess =>
      { sess with client := addFd sess.client fd, clientLen := sess.clientLen + 1 }) := by
  apply h.one (.client idx)
  · intro arr' cap hne
    exact onSession_holds (fun heq => absurd heq hne) (fun _ => le_rfl) (fun _ => le_rfl)
  · intro arr' harr'
    exact available_grown harr'
  · have hcap := available_cap (h (.client idx)) fd
    unfold Server.len
    simp only [sessionAt_onSession, true_and, if_pos hidx]
    exact hcap.1

/-- Either there is a slot without a session, or the list is expanded. -/
lemma freeSlot_cases (l : List (SessionState V)) :
    (freeSlot l).1 < l.length ∧ (freeSlot l).2.length = l.length ∨
      (freeSlot l).1 = l.length ∧ (freeSlot l).2.length = grownCap l.length := by
  unfold freeSlot
  simp only
  split_ifs with hlt
  · exact Or.inl ⟨hlt, rfl⟩
  · have hgrown := lt_grownCap l.length
    right
    refine ⟨rfl, ?_⟩
    rw [List.length_append, List.length_replicate]
    omega

/-- New slots are empty. -/
lemma freeSlot_getD (l : List (SessionState V)) (k : ℕ) :
    ((freeSlot l).2[k]?).getD .zeroed = (l[k]?).getD .zeroed := by
  unfold freeSlot
  simp only
  split_ifs with hlt
  · rfl
  · obtain hk | hk := Nat.lt_or_ge k l.length
    · rw [List.getElem?_append_left hk]
    · rw [List.getElem?_append_right hk, List.getElem?_replicate, List.getElem?_eq_none hk]
      split_ifs
      all_goals rfl

lemma open_grown {name : Bytes} {arr' : Arr} (h : (openAccess m s name).grown = some arr') :
    arr' = .slist := by
  unfold openAccess at h
  split_ifs at h
  · cases h
  · simp only at h
    split_ifs at h
    exact (Option.some.inj h).symm

/-- The capacity of the session list where a new session is looked for. -/
lemma open_cap (h : m.Fits s) {name : Bytes} (hfresh : ¬ (findSession s name).isSome) :
    (freeSlot s.slist).1 < (m.after (openAccess m s name) .slist).cap ∧
      ((m.after (openAccess m s name) .slist).cap = (m .slist).cap ∧ (freeSlot s.slist).1 < (m .slist).cap ∨
        (m .slist).cap = s.slist.length ∧ (freeSlot s.slist).1 = s.slist.length ∧
          (m.after (openAccess m s name) .slist).cap = 2 * s.slist.length) := by
  obtain ⟨hroom, hcap⟩ := h .slist
  change 8 ≤ s.slist.length at hroom
  change _ = s.slist.length ∨ _ = 2 * s.slist.length at hcap
  unfold openAccess Memory.after
  rw [if_neg hfresh]
  by_cases hfound : (freeSlot s.slist).1 < (m .slist).cap
  · simp only [if_pos hfound, Option.elim_none]
    exact ⟨hfound, Or.inl ⟨trivial, hfound⟩⟩
  · have hgrown : grownCap s.slist.length = 2 * s.slist.length := if_pos hroom
    simp only [if_neg hfound, Option.elim_some, Arrays.grow_cap, nextCap_eq]
    have hle := freeSlot_cases s.slist
    have heq : (m .slist).cap = s.slist.length := by omega
    rw [heq, hgrown]
    omega

/-- A session that cannot be launched. -/
lemma open_failed_fits (h : m.Fits s) {name : Bytes} : (m.after (openAccess m s name)).Fits s := by
  apply h.one .slist
  · intro arr' cap hne hholds
    exact hholds
  · intro arr' harr'
    exact open_grown harr'
  · by_cases hfresh : (findSession s name).isSome
    · unfold openAccess
      rw [if_pos hfresh]
      exact h .slist
    · obtain ⟨hroom, hcap⟩ := h .slist
      obtain ⟨-, ⟨heq, -⟩ | ⟨-, -, heq⟩⟩ := open_cap h hfresh
      · rw [heq]
        exact ⟨hroom, hcap⟩
      · exact ⟨hroom, Or.inr heq⟩

lemma open_fits [Top V] (h : m.Fits s) {name : Bytes} {launched : Option ℤ}
    (hopen : sessionOpen s (some name) launched = some (idx, s')) :
    (m.after (openAccess m s name)).Fits s' := by
  unfold sessionOpen at hopen
  simp only at hopen
  split_ifs at hopen with hfresh
  obtain ⟨fd, -, hs'⟩ := Option.map_eq_some_iff.mp hopen
  obtain ⟨rfl, rfl⟩ := Prod.mk.inj hs'
  set opened : SessionState V → SessionState V := fun sess =>
    { sess with
      name := some name
      fd := fd
      clientLen := 0
      best := hpointInitializer V
      bestPerf := ⊤
      log := []
      reported := 0
      outstanding := [] }
  have hat : ∀ k, Server.sessionAt { s.connect fd .session with
      slist := (freeSlot s.slist).2.modify (freeSlot s.slist).1 opened } k = s.sessionAt k ∨
      Server.sessionAt { s.connect fd .session with
        slist := (freeSlot s.slist).2.modify (freeSlot s.slist).1 opened } k = opened (s.sessionAt k) := by
    intro k
    have hmod : Server.sessionAt (Server.onSession
        { s.connect fd .session with slist := (freeSlot s.slist).2 } (freeSlot s.slist).1 opened) k = _ :=
      sessionAt_onSession k
    have hsame : Server.sessionAt { s.connect fd .session with slist := (freeSlot s.slist).2 } k
        = s.sessionAt k := freeSlot_getD s.slist k
    rw [hsame] at hmod
    split_ifs at hmod
    · exact Or.inr hmod
    · exact Or.inl hmod
  obtain ⟨hroom, hcap⟩ := h .slist
  change 8 ≤ s.slist.length at hroom
  change _ = s.slist.length ∨ _ = 2 * s.slist.length at hcap
  have hgrown : grownCap s.slist.length = 2 * s.slist.length := if_pos hroom
  have hslot := freeSlot_cases s.slist
  have hlen : ((freeSlot s.slist).2.modify (freeSlot s.slist).1 opened).length
      = (freeSlot s.slist).2.length := List.length_modify _ _ _
  apply h.one .slist
  · intro arr' cap hne hholds
    cases arr' with
    | slist => exact absurd rfl hne
    | log k =>
      unfold Server.len
      simp only
      obtain heq | heq := hat k
      · rw [heq]
        exact hholds
      · rw [heq]
        exact Nat.zero_le cap
    | client k | fetched k =>
      unfold Server.len
      simp only
      obtain heq | heq := hat k
      all_goals
        rw [heq]
        exact hholds
    | _ => exact hholds
  · intro arr' harr'
    exact open_grown harr'
  · show 8 ≤ (_ : List _).length ∧ (_ = (_ : List _).length ∨ _ = 2 * (_ : List _).length)
    simp only
    rw [hlen]
    obtain ⟨-, ⟨heq, hfound⟩ | ⟨heq, hfull, hnew⟩⟩ := open_cap h hfresh
    · omega
    · omega

end

section

variable [Add V] [Zero V] [LT V] [DecidableLT V] [Top V]

variable {m : Memory} {s s' : Server V} {idx : ℕ} {fd : ℤ} {net : Net} {mesg : HMesg V} {e : Event V}

omit [Add V] [Zero V] [Top V] in
lemma report_lens (sess : SessionState V) (candId : ℤ) (perf : V) :
    (sess.report candId perf).client = sess.client ∧
      (sess.report candId perf).log.length = sess.log.length + 1 ∧
      (sess.report candId perf).fetched.length ≤ sess.fetched.length := by
  unfold SessionState.report
  split
  · simp only
    refine ⟨?_, ?_, ?_⟩
    · split_ifs
      all_goals rfl
    · split_ifs
      all_goals exact List.length_append
    · rw [List.length_take, List.length_set]
      split_ifs
      all_goals
        simp only
        omega
  · exact ⟨rfl, List.length_append, le_rfl⟩

omit [Add V] [Top V] in
lemma report_fits (h : m.Fits s) (hidx : idx < s.slist.length) {uses : List (Arr × ℕ)} (candId : ℤ)
    (perf : V) :
    (m.after ((reportAccess m (s.sessionAt idx) idx).behind uses)).Fits
      (s.onSession idx fun sess => sess.report candId perf) := by
  obtain ⟨hclient, hlog, hfetched⟩ := report_lens (s.sessionAt idx) candId perf
  apply h.one (.log idx)
  · intro arr' cap hne
    exact onSession_holds (fun _ => hclient) (fun heq => absurd heq hne) (fun _ => hfetched)
  · intro arr' harr'
    unfold Access.behind reportAccess at harr'
    simp only at harr'
    split_ifs at harr'
    exact (Option.some.inj harr').symm
  · have hle : (s.sessionAt idx).log.length ≤ (m (.log idx)).cap := h (.log idx)
    unfold Server.len
    simp only [sessionAt_onSession, true_and, if_pos hidx]
    rw [hlog]
    exact Nat.succ_le_of_lt (Memory.append_room hle rfl)

omit [Add V] [Zero V] [LT V] [DecidableLT V] [Top V] in
lemma findSession_lt {name : Option Bytes} (h : name.bind (findSession s) = some idx) :
    idx < s.slist.length := by
  obtain ⟨name, -, hfind⟩ := Option.bind_eq_some_iff.mp h
  exact (List.findIdx?_eq_some_iff_getElem.mp hfind).1

/-- The kinds of requests. -/
lemma request_cases (m : Memory) (s : Server V) (fd : ℤ) (net : Net) (hdest : mesg.dest ≠ -1) :
    (∃ sess : HSession V, handleRequest s fd mesg net = sessionOpen s sess.sig.name net.launched ∧
      requestAccess m s mesg = sess.sig.name.elim .none (openAccess m s)) ∨
    (∃ idx < s.slist.length,
      (handleRequest s fd mesg net = some (idx, s.onSession idx fun sess =>
          { sess with client := addFd sess.client fd, clientLen := sess.clientLen + 1 }) ∧
        requestAccess m s mesg
          = (Access.available (.client idx) (s.sessionAt idx).client).behind [(.slist, idx)]) ∨
      (∃ candId perf, handleRequest s fd mesg net = some (idx, s.onSession idx fun sess =>
          sess.report candId perf) ∧
        requestAccess m s mesg = (reportAccess m (s.sessionAt idx) idx).behind [(.slist, idx)]) ∨
      ((handleRequest s fd mesg net).elim s Prod.snd = s ∧
        requestAccess m s mesg = Access.none.behind [(.slist, idx)])) ∨
    (handleRequest s fd mesg net = none ∧ requestAccess m s mesg = .none) := by
  obtain ⟨dest, type, status, srcId, data⟩ := mesg
  have hvalid : ¬ (dest < 0 ∨ (s.slist[dest.toNat]?.bind (·.name)).isNone) →
      dest.toNat < s.slist.length := by
    intro hvalid
    by_contra hlt
    rw [List.getElem?_eq_none (by omega)] at hvalid
    exact hvalid (Or.inr rfl)
  unfold handleRequest requestAccess
  rw [if_neg hdest]
  cases type with
  | session =>
    cases data with
    | session sess => exact Or.inl ⟨sess, rfl, rfl⟩
    | _ => exact Or.inr (Or.inr ⟨rfl, rfl⟩)
  | join =>
    cases data with
    | join sig =>
      simp only
      cases hfind : sig.name.bind (findSession s) with
      | none => exact Or.inr (Or.inr ⟨rfl, rfl⟩)
      | some idx => exact Or.inr (Or.inl ⟨idx, findSession_lt hfind, Or.inl ⟨rfl, rfl⟩⟩)
    | _ => exact Or.inr (Or.inr ⟨rfl, rfl⟩)
  | report =>
    right
    cases data with
    | report candId perf =>
      simp only
      split_ifs with hinvalid
      · exact Or.inr ⟨rfl, rfl⟩
      · exact Or.inl ⟨_, hvalid hinvalid, Or.inr (Or.inl ⟨candId, _, rfl, rfl⟩)⟩
    | _ =>
      simp only
      split_ifs with hinvalid
      · exact Or.inr ⟨rfl, rfl⟩
      · exact Or.inl ⟨_, hvalid hinvalid, Or.inr (Or.inr ⟨rfl, rfl⟩)⟩
  | _ =>
    right
    simp only
    split_ifs with hinvalid
    · exact Or.inr ⟨rfl, rfl⟩
    · exact Or.inl ⟨_, hvalid hinvalid, Or.inr (Or.inr ⟨rfl, rfl⟩)⟩

lemma request_fits (fd : ℤ) (net : Net) (h : m.Fits s) (hdest : mesg.dest ≠ -1) :
    (m.after (requestAccess m s mesg)).Fits ((handleRequest s fd mesg net).elim s Prod.snd) := by
  obtain ⟨sess, hreq, haccess⟩ |
    ⟨idx, hidx, ⟨hreq, haccess⟩ | ⟨candId, perf, hreq, haccess⟩ | ⟨hreq, haccess⟩⟩ |
    ⟨hreq, haccess⟩ := request_cases m s fd net hdest
  · rw [hreq, haccess]
    cases hname : sess.sig.name with
    | none => exact h
    | some name =>
      cases hopen : sessionOpen s (some name) net.launched with
      | none => exact open_failed_fits h
      | some res => exact open_fits h hopen
  · rw [hreq, haccess]
    exact join_fits h hidx
  · rw [hreq, haccess]
    exact report_fits h hidx candId perf
  · rw [hreq, haccess]
    exact h
  · rw [hreq, haccess]
    exact h

omit [Add V] [LT V] [DecidableLT V] [Top V] in
lemma set_len {i : ℕ} : Server.len { s with clientFds := s.clientFds.set i fd } = s.len := by
  funext arr
  cases arr with
  | clientFds => exact List.length_set
  | _ => rfl

lemma clientEvent_fits (h : m.Fits s) {i : ℕ} {recv : Option (HMesg V)} :
    (m.after (recv.elim .none (requestAccess m s))).Fits (clientEvent s i fd recv net) := by
  have hsock : (m.after (recv.elim .none (requestAccess m s))).Fits (handleClientSocket s fd recv net).2 := by
    cases recv with
    | none => exact h
    | some mesg =>
      unfold handleClientSocket
      simp only [Option.elim_some]
      by_cases hdest : mesg.dest = -1
      · have hnone : requestAccess m s mesg = .none := if_pos hdest
        rw [if_pos hdest, hnone]
        exact h
      · have hfits := request_fits fd net h hdest
        rw [if_neg hdest]
        cases hreq : handleRequest s fd mesg net with
        | none =>
          rw [hreq] at hfits
          exact hfits
        | some res =>
          rw [hreq] at hfits
          simp only
          split_ifs
          · apply hfits.of_len
            exact onSession_len fun _ => ⟨rfl, rfl, rfl⟩
          · apply hfits.of_len
            exact sessionClose_len
  unfold clientEvent
  simp only
  split_ifs
  · apply hsock.of_len
    rw [set_len, clientClose_len]
  · exact hsock

omit [Add V] [LT V] [DecidableLT V] [Top V] in
/-- The kinds of answers: only a point that is fetched is kept. -/
lemma answer_cases (m : Memory) (s : Server V) (idx : ℕ) (hdest : mesg.dest ≠ -1) :
    (∃ pt, mesg.type = .fetch ∧ mesg.status = .ok ∧ mesg.data = .point pt ∧
      answerAccess m s idx mesg = {
        before := []
        grown := if (s.sessionAt idx).fetched.length = (m (.fetched idx)).cap then some (.fetched idx) else none
        after := [(.fetched idx, (s.sessionAt idx).fetched.length)] }) ∨
    (¬ ∃ pt, mesg.type = .fetch ∧ mesg.status = .ok ∧ mesg.data = .point pt) ∧
      answerAccess m s idx mesg = .none := by
  obtain ⟨dest, type, status, srcId, data⟩ := mesg
  unfold answerAccess
  rw [if_neg hdest]
  cases type with
  | fetch =>
    cases status with
    | ok =>
      cases data with
      | point pt => exact Or.inl ⟨pt, rfl, rfl, rfl, rfl⟩
      | _ =>
        right
        refine ⟨?_, rfl⟩
        rintro ⟨pt, -, -, hdata⟩
        cases hdata
    | _ =>
      right
      refine ⟨?_, rfl⟩
      rintro ⟨pt, -, hstatus, -⟩
      cases hstatus
  | _ =>
    right
    refine ⟨?_, rfl⟩
    rintro ⟨pt, htype, -, -⟩
    cases htype

omit [Add V] [LT V] [DecidableLT V] [Top V] in
lemma forwardReply_fits (h : m.Fits s) (hidx : idx < s.slist.length) (hdest : mesg.dest ≠ -1)
    {req : Request} :
    (m.after (answerAccess m s idx mesg)).Fits (forwardReply s idx mesg req net) := by
  have hsent : ∀ t : Server V, (m.after (answerAccess m s idx mesg)).Fits t →
      (m.after (answerAccess m s idx mesg)).Fits (if net.sent then
        { t with delivered := t.delivered ++
            [(req.serial, ((t.conn mesg.dest).map Conn.serial).getD 0)] }
        else clientClose t net mesg.dest) := by
    intro t ht
    split_ifs
    · exact ht
    · exact ht.of_len clientClose_len
  apply hsent
  obtain ⟨pt, htype, hstatus, hdata, haccess⟩ | ⟨hno, haccess⟩ := answer_cases m s idx hdest
  · rw [haccess, htype, hstatus, hdata]
    have hle : (s.sessionAt idx).fetched.length ≤ (m (.fetched idx)).cap := h (.fetched idx)
    apply h.one (.fetched idx)
    · intro arr' cap hne
      exact onSession_holds (fun _ => rfl) (fun _ => le_rfl) (fun heq => absurd heq hne)
    · intro arr' harr'
      simp only at harr'
      split_ifs at harr'
      exact (Option.some.inj harr').symm
    · unfold Server.len
      simp only [sessionAt_onSession, true_and, if_pos hidx]
      rw [List.length_append, List.length_singleton]
      exact Nat.succ_le_of_lt (Memory.append_room hle rfl)
  · rw [haccess]
    apply Memory.Fits.of_len (s := s) h
    apply onSession_len
    intro sess
    split
    · next pt htype hstatus hdata => exact absurd ⟨pt, htype, hstatus, hdata⟩ hno
    all_goals exact ⟨rfl, rfl, rfl⟩

/-- What a session can cause. -/
lemma session_cases (m : Memory) {recv : Option (HMesg V)} {infoOk : Bool}
    (hstep : step s (.session idx recv infoOk net) = some s') : idx < s.slist.length ∧
      (recv.elim .none (answerAccess m s idx) = .none ∧ s'.len = s.len ∨
        ∃ mesg req, recv = some mesg ∧ mesg.dest ≠ -1 ∧ s' = forwardReply s idx mesg req net) := by
  unfold step at hstep
  simp only at hstep
  cases hsess : s.slist[idx]? with
  | none =>
    rw [hsess] at hstep
    cases hstep
  | some sess =>
    refine ⟨(List.getElem?_eq_some_iff.mp hsess).1, ?_⟩
    rw [hsess] at hstep
    simp only at hstep
    split_ifs at hstep
    cases recv with
    | none =>
      cases hstep
      exact Or.inl ⟨rfl, sessionClose_len⟩
    | some mesg =>
      simp only at hstep
      rw [Option.elim_some]
      split_ifs at hstep with hdest hinfo hreply
      · cases hstep
        exact Or.inl ⟨if_pos hdest, sessionClose_len⟩
      · cases hstep
        exact Or.inl ⟨if_pos hdest, rfl⟩
      · cases hstep
        obtain ⟨pt, htype, -⟩ | ⟨-, hnone⟩ := answer_cases m s idx hdest
        · rw [htype] at hreply
          exact absurd hreply (by decide)
        · exact Or.inl ⟨hnone, sessionClose_len⟩
      · cases hout : sess.outstanding with
        | nil =>
          rw [hout] at hstep
          cases hstep
        | cons req rest =>
          rw [hout] at hstep
          simp only at hstep
          split_ifs at hstep
          cases hstep
          exact Or.inr ⟨mesg, req, rfl, hdest, rfl⟩

/-- An event keeps the capacities those of the lists. -/
theorem step_fits (h : m.Fits s) (hstep : step s e = some s') : (m.step s e).Fits s' := by
  unfold Memory.step
  cases e with
  | accept fd =>
    simp only [step] at hstep
    split_ifs at hstep
    cases hstep
    exact accept_fits h
  | unknown i header =>
    simp only [step] at hstep
    split_ifs at hstep
    cases hstep
    have hfits := unknown_fits (s.unkFds.getD i (-1)) header h
    apply hfits.of_len
    funext arr
    cases arr with
    | unkFds =>
      cases header with
      | http =>
        show (s.unkFds.set i (-1)).length = (handleUnknownConnection s _ Header.http).unkFds.length
        unfold handleUnknownConnection
        simp only
        rw [List.length_set]
        split_ifs
        all_goals rfl
      | _ => exact List.length_set
    | _ => rfl
  | client i recv net =>
    simp only [step] at hstep
    split_ifs at hstep
    cases hstep
    exact clientEvent_fits h
  | session idx recv infoOk net =>
    obtain ⟨hidx, ⟨hnone, hlen⟩ | ⟨mesg, req, rfl, hdest, rfl⟩⟩ := session_cases m hstep
    · show (m.after (recv.elim .none (answerAccess m s idx))).Fits s'
      rw [hnone]
      exact Memory.Fits.of_len (s := s) h hlen
    · exact forwardReply_fits h hidx hdest
  | httpKill i name net =>
    simp only [step] at hstep
    split_ifs at hstep
    cases hfind : findSession s name with
    | none =>
      rw [hfind] at hstep
      cases hstep
      exact h
    | some idx =>
      rw [hfind] at hstep
      cases hstep
      exact Memory.Fits.of_len (s := s) h sessionClose_len
  | httpClosed i =>
    simp only [step] at hstep
    split_ifs at hstep
    cases hstep
    apply Memory.Fits.of_len (s := s) h
    funext arr
    cases arr with
    | httpFds => exact List.length_set
    | _ => rfl

/-! ## Indices -/

omit [Add V] [LT V] [DecidableLT V] [Top V] in
lemma open_bounds (h : m.Fits s) {name : Bytes} :
    (openAccess m s name).InBounds m (m.after (openAccess m s name)) := by
  by_cases hfresh : (findSession s name).isSome
  · unfold openAccess
    rw [if_pos hfresh]
    exact none_bounds
  · have hlt := (open_cap h hfresh).1
    refine ⟨?_, ?_⟩
    · intro use huse
      unfold openAccess at huse
      rw [if_neg hfresh] at huse
      cases huse
    · intro use huse
      unfold openAccess at huse
      rw [if_neg hfresh] at huse
      obtain rfl := List.mem_singleton.mp huse
      exact hlt

omit [Add V] [LT V] [DecidableLT V] [Top V] in
lemma report_bounds (h : m.Fits s) : (reportAccess m (s.sessionAt idx) idx).InBounds m
    (m.after (reportAccess m (s.sessionAt idx) idx)) := by
  have hlog : (s.sessionAt idx).log.length ≤ (m (.log idx)).cap := h (.log idx)
  have hfetched : (s.sessionAt idx).fetched.length ≤ (m (.fetched idx)).cap := h (.fetched idx)
  have hkept : m.after (reportAccess m (s.sessionAt idx) idx) (.fetched idx) = m (.fetched idx) := by
    apply Memory.after_other
    unfold reportAccess
    simp only
    split_ifs
    all_goals
      intro heq
      cases heq
  constructor
  · intro use huse
    obtain ⟨i, hi, rfl⟩ := List.mem_map.mp huse
    have hlt := List.mem_range.mp hi
    simp only
    omega
  · intro use huse
    obtain rfl | huse := List.mem_cons.mp huse
    · exact Memory.append_room hlog rfl
    · obtain ⟨i, hi, rfl⟩ := List.mem_map.mp huse
      have hlt := List.mem_range.mp hi
      simp only
      rw [hkept]
      omega

lemma request_bounds (h : m.Fits s) :
    (requestAccess m s mesg).InBounds m (m.after (requestAccess m s mesg)) := by
  by_cases hdest : mesg.dest = -1
  · have hnone : requestAccess m s mesg = .none := if_pos hdest
    rw [hnone]
    exact none_bounds
  · obtain ⟨sess, -, haccess⟩ | ⟨idx, hidx, hcases⟩ | ⟨-, haccess⟩ :=
      request_cases m s 0 { sent := true, launched := none, shutdown := fun _ => true } hdest
    · rw [haccess]
      cases sess.sig.name with
      | none => exact none_bounds
      | some name => exact open_bounds h
    · have hslist : ∀ use ∈ [(Arr.slist, idx)], use.2 < (m use.1).cap := by
        intro use huse
        obtain rfl := List.mem_singleton.mp huse
        exact h.slist_lt hidx
      obtain ⟨-, haccess⟩ | ⟨-, -, -, haccess⟩ | ⟨-, haccess⟩ := hcases
      · rw [haccess]
        apply behind_bounds hslist
        exact available_bounds (h (.client idx)) rfl
      · rw [haccess]
        apply behind_bounds hslist
        exact report_bounds h
      · rw [haccess]
        exact behind_bounds hslist none_bounds
    · rw [haccess]
      exact none_bounds

omit [Add V] [LT V] [DecidableLT V] [Top V] in
lemma answer_bounds (h : m.Fits s) :
    (answerAccess m s idx mesg).InBounds m (m.after (answerAccess m s idx mesg)) := by
  by_cases hdest : mesg.dest = -1
  · have hnone : answerAccess m s idx mesg = .none := if_pos hdest
    rw [hnone]
    exact none_bounds
  · obtain ⟨pt, -, -, -, haccess⟩ | ⟨-, haccess⟩ := answer_cases m s idx hdest
    · have hle : (s.sessionAt idx).fetched.length ≤ (m (.fetched idx)).cap := h (.fetched idx)
      rw [haccess]
      refine ⟨?_, ?_⟩
      · intro use huse
        cases huse
      · intro use huse
        obtain rfl := List.mem_singleton.mp huse
        exact Memory.append_room hle rfl
    · rw [haccess]
      exact none_bounds

omit [Add V] [Zero V] [LT V] [DecidableLT V] [Top V] in
lemma lt_of_cell {l : List ℤ} {i : ℕ} (h : l.getD i (-1) ≠ -1) : i < l.length := by
  by_contra hlt
  rw [List.getD_eq_getElem?_getD, List.getElem?_eq_none (by omega)] at h
  exact h rfl

/-- The indices that are used in an event are below the capacities. -/
theorem access_bounds (h : m.Fits s) (hstep : step s e = some s') :
    (access m s e).InBounds m (m.step s e) := by
  unfold Memory.step
  cases e with
  | accept fd => exact available_bounds (h .unkFds) rfl
  | unknown i header =>
    simp only [step] at hstep
    split_ifs at hstep with hcell
    rw [not_or] at hcell
    apply behind_bounds
    · intro use huse
      obtain rfl := List.mem_singleton.mp huse
      have hcap : (m .unkFds).cap = s.unkFds.length := h .unkFds
      rw [hcap]
      exact lt_of_cell hcell.1
    · cases header with
      | missing => exact none_bounds
      | harmony => exact available_bounds (h .clientFds) rfl
      | http =>
        simp only [access]
        split_ifs
        · exact none_bounds
        · exact available_bounds (h .httpFds) rfl
  | client i recv net =>
    simp only [step] at hstep
    split_ifs at hstep with hcell
    rw [not_or] at hcell
    apply behind_bounds
    · intro use huse
      obtain rfl := List.mem_singleton.mp huse
      have hcap : (m .clientFds).cap = s.clientFds.length := h .clientFds
      rw [hcap]
      exact lt_of_cell hcell.1
    · cases recv with
      | none => exact none_bounds
      | some mesg => exact request_bounds h
  | session idx recv infoOk net =>
    have hidx := (session_cases m hstep).1
    apply behind_bounds
    · intro use huse
      obtain rfl := List.mem_singleton.mp huse
      exact h.slist_lt hidx
    · cases recv with
      | none => exact none_bounds
      | some mesg => exact answer_bounds h
  | httpKill i name net =>
    simp only [step] at hstep
    split_ifs at hstep with hcell
    apply behind_bounds _ none_bounds
    intro use huse
    obtain rfl | huse := List.mem_cons.mp huse
    · have hcap : (m .httpFds).cap = s.httpFds.length := h .httpFds
      rw [hcap]
      exact lt_of_cell hcell
    · obtain ⟨idx, hidx, rfl⟩ := List.mem_map.mp huse
      have hfind : findSession s name = some idx := Option.mem_toList.mp hidx
      apply h.slist_lt
      exact (List.findIdx?_eq_some_iff_getElem.mp hfind).1
  | httpClosed i =>
    simp only [step] at hstep
    split_ifs at hstep with hcell
    apply behind_bounds _ none_bounds
    intro use huse
    obtain rfl := List.mem_singleton.mp huse
    have hcap : (m .httpFds).cap = s.httpFds.length := h .httpFds
    rw [hcap]
    exact lt_of_cell hcell

/-! ## Runs -/

/-- A session sends a point to a client. -/
def Event.Fetched : Event V → Prop
  | .session _ (some mesg) _ _ =>
    mesg.dest ≠ -1 ∧ ∃ pt, mesg.type = .fetch ∧ mesg.status = .ok ∧ mesg.data = .point pt
  | _ => False

lemma Arr.grownBy_lt (arr : Arr) : arr.grownBy < 2 ^ 28 := by
  cases arr
  all_goals
    simp only [Arr.grownBy]
    decide

lemma Memory.after_exact {m : Memory} {a : Access} (h : m.Exact Arr.grownBy)
    (halloc : (m.after a).Allocated) : (m.after a).Exact Arr.grownBy := by
  unfold Memory.after at halloc ⊢
  cases hgrown : a.grown with
  | none => exact h
  | some arr =>
    rw [hgrown] at halloc
    exact h.grow arr.grownBy_lt halloc

/-- Only points that are fetched make `fetched` grow. -/
lemma grown_fetched (hgrown : (access m s e).grown = some (.fetched idx)) : e.Fetched := by
  cases e with
  | accept fd => cases available_grown hgrown
  | unknown i header =>
    cases header with
    | missing => cases hgrown
    | harmony => cases available_grown hgrown
    | http =>
      unfold access Access.behind at hgrown
      simp only at hgrown
      split_ifs at hgrown
      · cases hgrown
      · cases available_grown hgrown
  | client i recv net =>
    cases recv with
    | none => cases hgrown
    | some mesg =>
      change (requestAccess m s mesg).grown = _ at hgrown
      by_cases hdest : mesg.dest = -1
      · have hnone : requestAccess m s mesg = .none := if_pos hdest
        rw [hnone] at hgrown
        cases hgrown
      · obtain ⟨sess, -, haccess⟩ | ⟨k, -, ⟨-, haccess⟩ | ⟨-, -, -, haccess⟩ | ⟨-, haccess⟩⟩ |
          ⟨-, haccess⟩ := request_cases m s 0 net hdest
        · rw [haccess] at hgrown
          cases hname : sess.sig.name with
          | none =>
            rw [hname] at hgrown
            cases hgrown
          | some name =>
            rw [hname] at hgrown
            cases open_grown hgrown
        · rw [haccess] at hgrown
          cases available_grown hgrown
        · rw [haccess] at hgrown
          unfold Access.behind reportAccess at hgrown
          simp only at hgrown
          split_ifs at hgrown
          cases hgrown
        · rw [haccess] at hgrown
          cases hgrown
        · rw [haccess] at hgrown
          cases hgrown
  | session k recv infoOk net =>
    cases recv with
    | none => cases hgrown
    | some mesg =>
      change (answerAccess m s k mesg).grown = _ at hgrown
      by_cases hdest : mesg.dest = -1
      · have hnone : answerAccess m s k mesg = .none := if_pos hdest
        rw [hnone] at hgrown
        cases hgrown
      · obtain ⟨pt, htype, hstatus, hdata, -⟩ | ⟨-, haccess⟩ := answer_cases m s k hdest
        · exact ⟨hdest, pt, htype, hstatus, hdata⟩
        · rw [haccess] at hgrown
          cases hgrown
  | httpKill i name net => cases hgrown
  | httpClosed i => cases hgrown

variable {es before : List (Event V)}

omit [Add V] [LT V] [DecidableLT V] [Top V] in
lemma start_fits : Memory.start.Fits (Server.start : Server V) := by
  have hat : ∀ k, (Server.start : Server V).sessionAt k = .zeroed := by
    intro k
    unfold Server.sessionAt Server.start
    simp only [List.getElem?_replicate]
    split_ifs
    all_goals rfl
  intro arr
  cases arr with
  | slist => exact ⟨le_rfl, Or.inl rfl⟩
  | client k =>
    unfold Server.len
    simp only
    rw [hat]
    rfl
  | log k | fetched k =>
    unfold Server.len
    simp only
    rw [hat]
    exact Nat.zero_le _
  | _ => rfl

omit [Add V] [Zero V] [LT V] [DecidableLT V] [Top V] in
lemma start_exact : Memory.start.Exact Arr.grownBy := by
  intro arr
  cases arr with
  | client k | log k | fetched k => exact Block.empty_exact
  | _ =>
    apply Block.empty_exact.grow (Arr.grownBy_lt _)
    decide +kernel

/-- What holds in a run. -/
lemma Allocating.keeps (h : Allocating es s m) : m.Fits s ∧ m.Exact Arr.grownBy := by
  induction h with
  | start => exact ⟨start_fits, start_exact⟩
  | snoc _ hstep halloc ih => exact ⟨step_fits ih.1 hstep, Memory.after_exact ih.2 halloc⟩

lemma Allocating.nothing_fetched (h : Allocating es s m) (hnone : ∀ e ∈ es, ¬ e.Fetched) (idx : ℕ) :
    m (.fetched idx) = .empty := by
  induction h with
  | start => rfl
  | @snoc es e s s' m _ _ _ ih =>
    have hlast : ¬ e.Fetched := hnone e (List.mem_append_right es List.mem_cons_self)
    unfold Memory.step
    rw [Memory.after_other fun hgrown => hlast (grown_fetched hgrown)]
    apply ih
    intro e' he'
    exact hnone e' (List.mem_append_left _ he')

lemma Allocating.of_snoc (h : Allocating (es ++ [e]) s' m) :
    ∃ s₀ m₀, Allocating es s₀ m₀ ∧ step s₀ e = some s' ∧ m = m₀.step s₀ e ∧ m.Allocated := by
  generalize hall : es ++ [e] = all at h
  cases h with
  | start => exact absurd hall (List.concat_ne_nil e es)
  | snoc hrun hstep halloc =>
    obtain ⟨rfl, hlast⟩ := List.append_inj' hall rfl
    cases hlast
    exact ⟨_, _, hrun, hstep, rfl, halloc⟩

lemma Allocating.of_prefix (h : Allocating es s m) (hbefore : before <+: es) :
    ∃ s₀ m₀, Allocating before s₀ m₀ := by
  induction h with
  | start =>
    rw [List.prefix_nil] at hbefore
    rw [hbefore]
    exact ⟨_, _, .start⟩
  | snoc hrun hstep halloc ih =>
    obtain rfl | hbefore := List.prefix_concat_iff.mp hbefore
    · exact ⟨_, _, hrun.snoc hstep halloc⟩
    · exact ih hbefore

omit [Add V] [LT V] [DecidableLT V] [Top V] in
/-- The first point that a client gets is too much for the memory of `fetched`. -/
lemma fetched_uncovers (hfits : m.Fits s) (hexact : m.Exact Arr.grownBy) (hcovers : m.Covers Arr.elem)
    (he : e.Fetched) (halloc : (m.step s e).Allocated) : ¬ (m.step s e).Covers Arr.elem := by
  cases e with
  | session idx recv infoOk net =>
    cases recv with
    | none => exact he.elim
    | some mesg =>
      obtain ⟨hdest, hpoint⟩ := he
      obtain ⟨pt, -, -, -, haccess⟩ | ⟨hno, -⟩ := answer_cases m s idx hdest
      · have hcap : (m (.fetched idx)).cap * 24 ≤ (m (.fetched idx)).bytes := hcovers (.fetched idx)
        have hbytes : (m (.fetched idx)).bytes = (m (.fetched idx)).cap * 8 :=
          (hexact (.fetched idx)).bytes_eq
        have hle : (s.sessionAt idx).fetched.length ≤ (m (.fetched idx)).cap := hfits (.fetched idx)
        have hfull : (s.sessionAt idx).fetched.length = (m (.fetched idx)).cap := by omega
        have hat : m.step s (.session idx (some mesg) infoOk net) (.fetched idx)
            = (m (.fetched idx)).grow sizeofHpointPtr := by
          show m.after (answerAccess m s idx mesg) (.fetched idx) = _
          rw [haccess]
          unfold Memory.after
          simp only [if_pos hfull, Option.elim_some]
          exact Function.update_self _ _ _
        have hallocated := halloc (.fetched idx)
        rw [hat] at hallocated
        intro hall
        have hlarge := hall (.fetched idx)
        have hless : sizeofHpointPtr < sizeofHpoint := by decide
        rw [hat] at hlarge
        exact Block.not_covers_grow hless hallocated hlarge
      · exact absurd hpoint hno
  | _ => exact he.elim

/-- In each state of a run the memory of all arrays is large enough, and the indices that are used there are
below the capacities. -/
def AllocationsCover (es : List (Event V)) : Prop :=
  ∀ before s m, before <+: es → Allocating before s m → m.Covers Arr.elem ∧
    ∀ e s', before ++ [e] <+: es → step s e = some s' → (m.step s e).Allocated →
      (access m s e).InBounds m (m.step s e)

/-- The memory of the arrays is large enough exactly in the runs in which no client gets a point. -/
theorem allocations_cover_iff (h : Allocating es s m) :
    AllocationsCover es ↔ ∀ e ∈ es, ¬ e.Fetched := by
  constructor
  · intro hcover e he hfetched
    obtain ⟨before, rest, rfl⟩ := List.append_of_mem he
    have hnext : before ++ [e] <+: before ++ e :: rest := ⟨rest, List.append_assoc _ _ _⟩
    obtain ⟨s', m', hrun'⟩ := h.of_prefix hnext
    obtain ⟨s₀, m₀, hrun, -, rfl, halloc⟩ := hrun'.of_snoc
    obtain ⟨hfits, hexact⟩ := hrun.keeps
    have hbefore := (hcover before s₀ m₀ (List.prefix_append _ _) hrun).1
    have hafter := (hcover _ s' _ hnext hrun').1
    exact fetched_uncovers hfits hexact hbefore hfetched halloc hafter
  · intro hnone before s₀ m₀ hbefore hrun
    obtain ⟨hfits, hexact⟩ := hrun.keeps
    constructor
    · intro arr
      cases arr with
      | fetched idx =>
        have hempty : m₀ (.fetched idx) = .empty := by
          apply hrun.nothing_fetched
          intro e he
          exact hnone e (hbefore.subset he)
        rw [hempty]
        exact Block.empty_exact.covers le_rfl
      | _ => exact (hexact _).covers le_rfl
    · intro e s' _ hstep _
      exact access_bounds hfits hstep

lemma Allocating.allocated (h : Allocating es s m) : m.Allocated := by
  cases h with
  | start =>
    have hstart : (Block.empty.grow sizeofInt).Allocated ∧ (Block.empty.grow sizeofSessionState).Allocated ∧
        Block.empty.Allocated := by decide +kernel
    intro arr
    cases arr with
    | slist => exact hstart.2.1
    | client k | log k | fetched k => exact hstart.2.2
    | _ => exact hstart.1
  | snoc _ _ halloc => exact halloc

lemma Allocating.get (h : Allocating es s m) {e : Event V} (hstep : (step s e).isSome)
    (halloc : ∀ arr ∈ (access m s e).grown, ((m arr).grow arr.grownBy).Allocated) :
    Allocating (es ++ [e]) ((step s e).get hstep) (m.step s e) := by
  apply h.snoc (Option.some_get hstep).symm
  unfold Memory.step Memory.after
  cases hgrown : (access m s e).grown with
  | none => exact h.allocated
  | some arr => exact h.allocated.grow (halloc arr hgrown)

end

/-! ### The first point -/

/-- The session in slot 0 answers the connection 5. -/
def replying (type : HMesgType) (data : HMesgData (WithTop ℕ)) : Event (WithTop ℕ) :=
  .session 0 (some { dest := 5, type := type, status := .ok, srcId := none, data := data }) true (allWell none)

/-- A client opens a session, joins it and fetches a point. -/
def fetching : List (Event (WithTop ℕ)) :=
  opening ++ [replying .session .none, joining, replying .join (.join bareSignature),
    .client 0 (some (request .fetch .none)) (allWell none),
    replying .fetch (.point { id := 1, val := [] })]

lemma fetching_allocating : ∃ (s : Server (WithTop ℕ)) (m : Memory), Allocating fetching s m := by
  have accepted := (Allocating.start (V := WithTop ℕ)).get (e := .accept 5) (by decide +kernel)
    (by decide +kernel)
  have known := accepted.get (e := .unknown 0 .harmony) (by decide +kernel) (by decide +kernel)
  have opened := known.get (e := .client 0 (some (request .session
    (.session { sig := bareSignature, cfg := hcfgAlloc }))) (allWell (some 6))) (by decide +kernel)
    (by decide +kernel)
  have answered := opened.get (e := replying .session .none) (by decide +kernel) (by decide +kernel)
  have joined := answered.get (e := joining) (by decide +kernel) (by decide +kernel)
  have confirmed := joined.get (e := replying .join (.join bareSignature)) (by decide +kernel)
    (by decide +kernel)
  have asked := confirmed.get (e := .client 0 (some (request .fetch .none)) (allWell none))
    (by decide +kernel) (by decide +kernel)
  have fetched := asked.get (e := replying .fetch (.point { id := 1, val := [] })) (by decide +kernel)
    (by decide +kernel)
  exact ⟨_, _, fetched⟩

end Hserver

end ActiveHarmony

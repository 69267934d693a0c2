import ActiveHarmony.Lib.ListModify
import ActiveHarmony.Server.Core
import Mathlib.Data.List.Basic
import Mathlib.Data.List.Perm.Basic
import Mathlib.Tactic.Ring

/-!
# The client lists of the sessions

Descriptors are kept in lists with free cells, which hold -1. `Tracks` says that the descriptors in a
list are distinct and that their connections are of one kind. `Inv` is what the lists of the server
satisfy together; `careful_client_lists` derives from it that the client list of an open session is
right, in runs without the three kinds of calls that spoil the lists (`Careful`).
-/

namespace ActiveHarmony.Hserver

/-! ## Lists with free cells -/

/-- The cells that are not free. -/
def occupied (l : List ℤ) : List ℤ := l.filter (· ≠ -1)

lemma mem_occupied {l : List ℤ} {fd : ℤ} : fd ∈ occupied l ↔ fd ∈ l ∧ fd ≠ -1 := by
  unfold occupied
  rw [List.mem_filter, decide_eq_true_eq]

lemma occupied_append (l l' : List ℤ) : occupied (l ++ l') = occupied l ++ occupied l' :=
  List.filter_append l l'

lemma occupied_replicate (n : ℕ) : occupied (List.replicate n (-1)) = [] := by
  unfold occupied
  rw [List.filter_eq_nil_iff]
  intro fd hfd
  rw [(List.mem_replicate.mp hfd).2]
  decide

lemma occupied_cons_free (l : List ℤ) : occupied (-1 :: l) = occupied l := rfl

lemma occupied_cons {fd : ℤ} (hfd : fd ≠ -1) (l : List ℤ) :
    occupied (fd :: l) = fd :: occupied l := by
  unfold occupied
  rw [List.filter_cons_of_pos (by simpa using hfd)]

/-- Using a free cell. -/
lemma occupied_set {l : List ℤ} {i : ℕ} (hfree : l[i]? = some (-1)) {fd : ℤ} (hfd : fd ≠ -1) :
    (occupied (l.set i fd)).Perm (fd :: occupied l) := by
  induction l generalizing i with
  | nil => cases hfree
  | cons x l ih =>
    cases i with
    | zero =>
      cases hfree
      rw [List.set_cons_zero, occupied_cons hfd, occupied_cons_free]
    | succ i =>
      rw [List.set_cons_succ]
      by_cases hx : x = -1
      · rw [hx, occupied_cons_free, occupied_cons_free]
        exact ih hfree
      · rw [occupied_cons hx, occupied_cons hx]
        exact ((ih hfree).cons x).trans (List.Perm.swap fd x (occupied l))

lemma occupied_free (l : List ℤ) (i : ℕ) : (occupied (l.set i (-1))).Sublist (occupied l) := by
  induction l generalizing i with
  | nil => exact List.Sublist.refl _
  | cons x l ih =>
    have htail : (occupied l).Sublist (occupied (x :: l)) :=
      (List.sublist_cons_self x l).filter _
    cases i with
    | zero =>
      rw [List.set_cons_zero, occupied_cons_free]
      exact htail
    | succ i =>
      rw [List.set_cons_succ]
      by_cases hx : x = -1
      · rw [hx, occupied_cons_free, occupied_cons_free]
        exact ih i
      · rw [occupied_cons hx, occupied_cons hx]
        exact (ih i).cons_cons x

/-- `available_index` finds a free cell and uses none. -/
lemma availableIndex_spec (l : List ℤ) :
    (availableIndex l).2[(availableIndex l).1]? = some (-1) ∧
      occupied (availableIndex l).2 = occupied l := by
  unfold availableIndex
  dsimp only
  split_ifs with hlt
  · refine ⟨?_, rfl⟩
    rw [List.getElem?_eq_getElem hlt]
    have hfound := List.findIdx_getElem (p := fun x : ℤ => decide (x = -1)) (w := hlt)
    exact congrArg some (of_decide_eq_true hfound)
  · refine ⟨?_, by rw [occupied_append, occupied_replicate, List.append_nil]⟩
    have hcap : 0 < grownCap l.length - l.length := by
      unfold grownCap
      split_ifs <;> omega
    rw [List.getElem?_append_right (le_refl _), Nat.sub_self, List.getElem?_replicate, if_pos hcap]

lemma occupied_addFd (l : List ℤ) {fd : ℤ} (hfd : fd ≠ -1) :
    (occupied (addFd l fd)).Perm (fd :: occupied l) := by
  have hspec := availableIndex_spec l
  have hset := occupied_set hspec.1 hfd
  rw [hspec.2] at hset
  exact hset

lemma clearFirst_cons (x : ℤ) (l : List ℤ) (fd : ℤ) :
    clearFirst (x :: l) fd = if x = fd then -1 :: l else x :: clearFirst l fd := by
  unfold clearFirst
  rw [List.findIdx_cons]
  by_cases hx : x = fd
  · simp [hx]
  · simp [hx]

lemma clearFirst_free (l : List ℤ) : clearFirst l (-1) = l := by
  induction l with
  | nil => rfl
  | cons x l ih =>
    rw [clearFirst_cons]
    split_ifs with hx
    · rw [hx]
    · rw [ih]

lemma occupied_clearFirst (l : List ℤ) {fd : ℤ} (hfd : fd ≠ -1) :
    occupied (clearFirst l fd) = (occupied l).erase fd := by
  induction l with
  | nil => rfl
  | cons x l ih =>
    rw [clearFirst_cons]
    by_cases hx : x = fd
    · rw [if_pos hx, occupied_cons_free, hx, occupied_cons hfd, List.erase_cons_head]
    · rw [if_neg hx]
      by_cases hfree : x = -1
      · rw [hfree, occupied_cons_free, occupied_cons_free, ih]
      · rw [occupied_cons hfree, occupied_cons hfree, ih, List.erase_cons_tail (by simpa using hx)]

lemma clearFirst_getD (l : List ℤ) (fd : ℤ) (i : ℕ) :
    (clearFirst l fd).getD i (-1) = l.getD i (-1) ∨
      (clearFirst l fd).getD i (-1) = -1 ∧ l.getD i (-1) = fd := by
  induction l generalizing i with
  | nil => exact Or.inl rfl
  | cons x l ih =>
    rw [clearFirst_cons]
    split_ifs with hx
    · cases i with
      | zero => exact Or.inr ⟨rfl, hx⟩
      | succ i => exact Or.inl rfl
    · cases i with
      | zero => exact Or.inl rfl
      | succ i => exact ih i

lemma getD_mem_occupied {l : List ℤ} {i : ℕ} (h : l.getD i (-1) ≠ -1) :
    l.getD i (-1) ∈ occupied l := by
  refine mem_occupied.mpr ⟨?_, h⟩
  rw [List.getD_eq_getElem?_getD] at h ⊢
  cases hi : l[i]? with
  | none => rw [hi] at h; exact absurd rfl h
  | some x => exact List.mem_of_getElem? hi

lemma exists_getD_of_mem {l : List ℤ} {fd : ℤ} (h : fd ∈ l) : ∃ i, l.getD i (-1) = fd := by
  rcases List.getElem?_of_mem h with ⟨i, hi⟩
  exact ⟨i, by rw [List.getD_eq_getElem?_getD, hi]; rfl⟩

lemma occupied_eq_nil {l : List ℤ} (h : ∀ i, l.getD i (-1) = -1) : occupied l = [] := by
  rw [List.eq_nil_iff_forall_not_mem]
  intro fd hfd
  rcases exists_getD_of_mem (mem_occupied.mp hfd).1 with ⟨i, hi⟩
  exact (mem_occupied.mp hfd).2 (hi.symm.trans (h i))

lemma occupied_nil_of_cells {l l' : List ℤ} (h : occupied l = [])
    (hcells : ∀ i, l'.getD i (-1) = l.getD i (-1) ∨ l'.getD i (-1) = -1) : occupied l' = [] := by
  refine occupied_eq_nil fun i => ?_
  rcases hcells i with heq | heq
  · by_contra hne
    rw [heq] at hne
    have hmem := getD_mem_occupied hne
    rw [h] at hmem
    exact absurd hmem List.not_mem_nil
  · exact heq

/-! ## Descriptors of one kind -/

/-- The descriptors of the list are distinct, and their connections are of the given kind. -/
structure Tracks (conn : ℤ → Option Conn) (kind : ConnKind) (l : List ℤ) : Prop where
  nodup : (occupied l).Nodup
  kind_eq : ∀ fd ∈ occupied l, (conn fd).map Conn.kind = some kind

namespace Tracks

variable {conn conn' : ℤ → Option Conn} {kind : ConnKind} {l l' : List ℤ} {fd : ℤ}

lemma sublist (h : Tracks conn kind l) (hsub : (occupied l').Sublist (occupied l)) :
    Tracks conn kind l' :=
  ⟨h.nodup.sublist hsub, fun fd hfd => h.kind_eq fd (hsub.subset hfd)⟩

lemma not_mem (h : Tracks conn kind l) (hkind : (conn fd).map Conn.kind ≠ some kind) :
    fd ∉ occupied l := fun hfd => hkind (h.kind_eq fd hfd)

/-- What happens to another descriptor does not matter. -/
lemma update (h : Tracks conn kind l) (hfd : fd ∉ occupied l) (c : Option Conn) :
    Tracks (Function.update conn fd c) kind l := by
  refine ⟨h.nodup, fun fd' hfd' => ?_⟩
  have hne : fd' ≠ fd := by
    rintro rfl
    exact hfd hfd'
  rw [Function.update_of_ne hne]
  exact h.kind_eq fd' hfd'

lemma add (h : Tracks conn kind l) (hfd : fd ∉ occupied l) (hne : fd ≠ -1)
    (hkind : (conn fd).map Conn.kind = some kind) : Tracks conn kind (addFd l fd) := by
  have hperm := occupied_addFd l hne
  refine ⟨(hperm.nodup_iff).mpr (List.nodup_cons.mpr ⟨hfd, h.nodup⟩), fun fd' hfd' => ?_⟩
  rcases List.mem_cons.mp ((hperm.mem_iff).mp hfd') with rfl | hfd'
  · exact hkind
  · exact h.kind_eq fd' hfd'

lemma clearFirst (h : Tracks conn kind l) (hne : fd ≠ -1) :
    Tracks conn kind (clearFirst l fd) ∧ fd ∉ occupied (clearFirst l fd) := by
  rw [occupied_clearFirst l hne]
  refine ⟨h.sublist ?_, h.nodup.not_mem_erase⟩
  rw [occupied_clearFirst l hne]
  exact List.erase_sublist

lemma free (n : ℕ) : Tracks conn kind (List.replicate n (-1)) := by
  refine ⟨?_, fun fd hfd => ?_⟩
  · rw [occupied_replicate]
    exact List.nodup_nil
  · rw [occupied_replicate] at hfd
    exact absurd hfd List.not_mem_nil

end Tracks

/-! ## The invariant -/

variable {V : Type}

/-- The lists of the server hold distinct descriptors of the connections they are for, and `client_len`
counts the clients of an open session. -/
structure Inv (s : Server V) : Prop where
  unk : Tracks s.conn .unknown s.unkFds
  clients : Tracks s.conn .client s.clientFds
  http : Tracks s.conn .http s.httpFds
  lists : ∀ sess ∈ s.slist, Tracks s.conn .client sess.client
  len : ∀ sess ∈ s.slist, sess.name ≠ none → sess.clientLen = (occupied sess.client).length

/-- A session that is not open has no clients. -/
def ClosedEmpty (s : Server V) : Prop :=
  ∀ sess ∈ s.slist, sess.name = none → occupied sess.client = []

variable {s s' : Server V} {fd : ℤ} {idx : ℕ}

/-- A change to one session that leaves its clients alone. -/
lemma Inv.onSession (h : Inv s) {f : SessionState V → SessionState V}
    (hf : ∀ sess, (f sess).client = sess.client ∧ (f sess).clientLen = sess.clientLen ∧
      ((f sess).name ≠ none → sess.name ≠ none)) : Inv (s.onSession idx f) := by
  refine ⟨h.unk, h.clients, h.http, fun sess hsess => ?_, fun sess hsess hopen => ?_⟩
  · rcases ListModify.mem_cases hsess with hsess | ⟨old, hold, rfl⟩
    · exact h.lists sess hsess
    · rw [(hf old).1]
      exact h.lists old (List.mem_of_getElem? hold)
  · rcases ListModify.mem_cases hsess with hsess | ⟨old, hold, rfl⟩
    · exact h.len sess hsess hopen
    · rw [(hf old).1, (hf old).2.1]
      exact h.len old (List.mem_of_getElem? hold) ((hf old).2.2 hopen)

/-- A new connection, or a new kind for a descriptor that is in no list. -/
lemma Inv.update (h : Inv s) (hunk : fd ∉ occupied s.unkFds) (hclients : fd ∉ occupied s.clientFds)
    (hhttp : fd ∉ occupied s.httpFds) (hlists : ∀ sess ∈ s.slist, fd ∉ occupied sess.client)
    (c : Option Conn) (n : ℕ) :
    Inv { s with conn := Function.update s.conn fd c, nextSerial := n } :=
  ⟨h.unk.update hunk c, h.clients.update hclients c, h.http.update hhttp c,
    fun sess hsess => (h.lists sess hsess).update (hlists sess hsess) c, h.len⟩

lemma lose_tracks {conn : ℤ → Option Conn} {sess : SessionState V}
    (h : Tracks conn .client sess.client) (hne : fd ≠ -1) :
    Tracks conn .client (sess.lose fd).client ∧ fd ∉ occupied (sess.lose fd).client := by
  unfold SessionState.lose
  by_cases hmem : fd ∈ sess.client
  · rw [if_pos hmem]
    exact h.clearFirst hne
  · rw [if_neg hmem]
    exact ⟨h, fun hocc => hmem (mem_occupied.mp hocc).1⟩

lemma lose_len {sess : SessionState V} (hne : fd ≠ -1)
    (hlen : sess.clientLen = (occupied sess.client).length) :
    (sess.lose fd).clientLen = (occupied (sess.lose fd).client).length := by
  unfold SessionState.lose
  by_cases hmem : fd ∈ sess.client
  · rw [if_pos hmem]
    have hocc : fd ∈ occupied sess.client := mem_occupied.mpr ⟨hmem, hne⟩
    have hpos := List.length_pos_of_mem hocc
    show sess.clientLen - 1 = ((occupied (clearFirst sess.client fd)).length : ℤ)
    rw [hlen, occupied_clearFirst _ hne, List.length_erase_of_mem hocc]
    omega
  · rw [if_neg hmem]
    exact hlen

lemma lose_name (sess : SessionState V) (fd : ℤ) : (sess.lose fd).name = sess.name := by
  unfold SessionState.lose
  split_ifs <;> rfl

lemma clientClose_lists (s : Server V) (net : Net) (fd : ℤ) :
    (clientClose s net fd).slist = s.slist.map (·.lose fd) ∧
      (clientClose s net fd).clientFds = clearFirst s.clientFds fd ∧
      (clientClose s net fd).unkFds = s.unkFds ∧ (clientClose s net fd).httpFds = s.httpFds := by
  unfold clientClose
  dsimp only
  split_ifs
  · exact ⟨rfl, rfl, rfl, rfl⟩
  · exact ⟨rfl, rfl, rfl, rfl⟩

/-- Closing a client, or a descriptor that is in no list. -/
lemma Inv.clientClose (h : Inv s) (hne : fd ≠ -1) (hunk : fd ∉ occupied s.unkFds)
    (hhttp : fd ∉ occupied s.httpFds) (net : Net) :
    Inv (clientClose s net fd) ∧ fd ∉ occupied (clientClose s net fd).clientFds ∧
      ∀ sess ∈ (clientClose s net fd).slist, fd ∉ occupied sess.client := by
  have hcleared := h.clients.clearFirst hne
  have hlists : ∀ sess ∈ s.slist.map (·.lose fd), Tracks s.conn .client sess.client ∧
      fd ∉ occupied sess.client := by
    intro sess hsess
    rcases List.mem_map.mp hsess with ⟨old, hold, rfl⟩
    exact lose_tracks (h.lists old hold) hne
  have hinv : Inv { s with slist := s.slist.map (·.lose fd), clientFds := clearFirst s.clientFds fd } := by
    refine ⟨h.unk, hcleared.1, h.http, fun sess hsess => (hlists sess hsess).1, fun sess hsess => ?_⟩
    rcases List.mem_map.mp hsess with ⟨old, hold, rfl⟩
    rw [lose_name]
    exact fun hopen => lose_len hne (h.len old hold hopen)
  unfold Hserver.clientClose
  dsimp only
  split_ifs
  · exact ⟨hinv.update hunk hcleared.2 hhttp (fun sess hsess => (hlists sess hsess).2) none _,
      hcleared.2, fun sess hsess => (hlists sess hsess).2⟩
  · exact ⟨hinv, hcleared.2, fun sess hsess => (hlists sess hsess).2⟩

/-- `client_close(-1)` finds the first free cell of a list, and counts a client less. -/
lemma lose_free (sess : SessionState V) : sess.lose (-1)
    = if -1 ∈ sess.client then { sess with clientLen := sess.clientLen - 1 } else sess := by
  unfold SessionState.lose
  rw [clearFirst_free]

/-! ## Closing a session -/

/-- Nothing but descriptors in `C` disappears from the lists. -/
structure Closes (C : ℤ → Prop) (s s' : Server V) : Prop where
  sess : ∀ (k : ℕ) (sess' : SessionState V), s'.slist[k]? = some sess' →
    ∃ sess : SessionState V, s.slist[k]? = some sess ∧ sess'.name = sess.name ∧
      sess'.client.length = sess.client.length ∧
      ∀ i, sess'.client.getD i (-1) = sess.client.getD i (-1) ∨
        sess'.client.getD i (-1) = -1 ∧ C (sess.client.getD i (-1))
  clientFds : ∀ i, s'.clientFds.getD i (-1) = s.clientFds.getD i (-1) ∨
    s'.clientFds.getD i (-1) = -1 ∧ C (s.clientFds.getD i (-1))

lemma Closes.refl (C : ℤ → Prop) (s : Server V) : Closes C s s :=
  ⟨fun _ sess' h => ⟨sess', h, rfl, rfl, fun _ => Or.inl rfl⟩, fun _ => Or.inl rfl⟩

lemma Closes.trans {C : ℤ → Prop} {s₁ s₂ s₃ : Server V} (h : Closes C s₁ s₂) (h' : Closes C s₂ s₃) :
    Closes C s₁ s₃ := by
  have hcell : ∀ a b c : ℤ, (b = a ∨ b = -1 ∧ C a) → (c = b ∨ c = -1 ∧ C b) →
      (c = a ∨ c = -1 ∧ C a) := by
    rintro a b c (rfl | ⟨rfl, hC⟩) hc
    · exact hc
    · exact Or.inr ⟨hc.elim id And.left, hC⟩
  refine ⟨fun k sess' hsess' => ?_, fun i => hcell _ _ _ (h.clientFds i) (h'.clientFds i)⟩
  rcases h'.sess k sess' hsess' with ⟨mid, hmid, hname', hlen', hcells'⟩
  rcases h.sess k mid hmid with ⟨sess, hsess, hname, hlen, hcells⟩
  exact ⟨sess, hsess, hname'.trans hname, hlen'.trans hlen,
    fun i => hcell _ _ _ (hcells i) (hcells' i)⟩

lemma clientClose_closes {C : ℤ → Prop} (hC : C fd) (s : Server V) (net : Net) :
    Closes C s (clientClose s net fd) := by
  have hcell : ∀ l : List ℤ, ∀ i, (clearFirst l fd).getD i (-1) = l.getD i (-1) ∨
      (clearFirst l fd).getD i (-1) = -1 ∧ C (l.getD i (-1)) := by
    intro l i
    rcases clearFirst_getD l fd i with h | ⟨h, heq⟩
    · exact Or.inl h
    · exact Or.inr ⟨h, by rw [heq]; exact hC⟩
  refine ⟨fun k sess' hsess' => ?_, fun i => ?_⟩
  · rw [(clientClose_lists s net fd).1, List.getElem?_map] at hsess'
    rcases Option.map_eq_some_iff.mp hsess' with ⟨sess, hsess, rfl⟩
    refine ⟨sess, hsess, lose_name sess fd, ?_⟩
    unfold SessionState.lose
    split_ifs
    · exact ⟨List.length_set, hcell sess.client⟩
    · exact ⟨rfl, fun _ => Or.inl rfl⟩
  · rw [(clientClose_lists s net fd).2.1]
    exact hcell s.clientFds i

/-- What the first `n` rounds of the loop of `session_close` have done, from `s` to `s'`. -/
structure Closing (s : Server V) (idx : ℕ) (sess : SessionState V) (n : ℕ) (s' : Server V) : Prop where
  inv : Inv s'
  closes : Closes (· ∈ occupied sess.client) s s'
  unk_eq : s'.unkFds = s.unkFds
  http_eq : s'.httpFds = s.httpFds
  found : ∃ sess', s'.slist[idx]? = some sess' ∧ (∀ i < n, sess'.client.getD i (-1) = -1) ∧
    ∀ fd ∈ occupied sess.client, fd ∈ occupied sess'.client ∨ fd ∉ occupied s'.clientFds

lemma Closes.not_mem {C : ℤ → Prop} (h : Closes C s s') (hfd : fd ∉ occupied s.clientFds) :
    fd ∉ occupied s'.clientFds := by
  intro hmem
  rcases exists_getD_of_mem (mem_occupied.mp hmem).1 with ⟨i, hi⟩
  have hne := (mem_occupied.mp hmem).2
  rcases h.clientFds i with heq | ⟨heq, -⟩
  · rw [hi] at heq
    exact hfd (by rw [heq]; exact getD_mem_occupied (by rw [← heq]; exact hne))
  · exact hne (hi.symm.trans heq)

lemma Closing.step {sess : SessionState V} {n : ℕ} {s₀ : Server V} (h : Closing s₀ idx sess n s)
    (hsess : s₀.slist[idx]? = some sess) (net : Net) :
    Closing s₀ idx sess (n + 1) (closeCell net idx s n) := by
  rcases h.found with ⟨cur, hcur, hfree, hgone⟩
  rcases h.closes.sess idx cur hcur with ⟨orig, horig, -, -, hcells⟩
  cases hsess.symm.trans horig
  unfold closeCell
  rw [hcur]
  dsimp only
  by_cases hcell : cur.client.getD n (-1) = -1
  · -- a free cell
    rw [if_neg (not_not.mpr hcell)]
    refine ⟨h.inv, h.closes, h.unk_eq, h.http_eq, cur, hcur, fun i hi => ?_, hgone⟩
    rcases Nat.lt_succ_iff_lt_or_eq.mp hi with hi | rfl
    · exact hfree i hi
    · exact hcell
  · rw [if_pos hcell]
    have hocc := getD_mem_occupied hcell
    have hkind := (h.inv.lists cur (List.mem_of_getElem? hcur)).kind_eq _ hocc
    have horig : cur.client.getD n (-1) ∈ occupied sess.client := by
      rcases hcells n with heq | ⟨heq, -⟩
      · rw [heq]
        exact getD_mem_occupied (by rw [← heq]; exact hcell)
      · exact absurd heq hcell
    rcases h.inv.clientClose hcell (h.inv.unk.not_mem (by rw [hkind]; decide))
      (h.inv.http.not_mem (by rw [hkind]; decide)) net with ⟨hinv, hfds, hlists⟩
    have hcloses := clientClose_closes (C := (· ∈ occupied sess.client)) horig s net
    rcases clientClose_lists s net (cur.client.getD n (-1)) with ⟨hslist, hclients, hunk, hhttp⟩
    have hcur' : (clientClose s net (cur.client.getD n (-1))).slist[idx]?
        = some (cur.lose (cur.client.getD n (-1))) := by
      rw [hslist, List.getElem?_map, hcur]
      rfl
    rcases hcloses.sess idx _ hcur' with ⟨old, hold, -, -, hcells'⟩
    cases hcur.symm.trans hold
    refine ⟨hinv, h.closes.trans hcloses, hunk.trans h.unk_eq, hhttp.trans h.http_eq, _, hcur',
      fun i hi => ?_, fun fd hfd => ?_⟩
    · rcases hcells' i with heq | ⟨heq, -⟩
      · rcases Nat.lt_succ_iff_lt_or_eq.mp hi with hi | rfl
        · exact heq.trans (hfree i hi)
        · -- the descriptor has left the list
          by_contra hne
          have hmem := getD_mem_occupied hne
          rw [heq] at hmem
          exact hlists _ (List.mem_of_getElem? hcur') hmem
      · exact heq
    · by_cases hsame : fd = cur.client.getD n (-1)
      · rw [hsame]
        exact Or.inr hfds
      · rcases hgone fd hfd with hstill | hgone
        · left
          unfold SessionState.lose
          split_ifs
          · show fd ∈ occupied (clearFirst cur.client (cur.client.getD n (-1)))
            rw [occupied_clearFirst _ hcell]
            exact (List.mem_erase_of_ne hsame).mpr hstill
          · exact hstill
        · exact Or.inr (hcloses.not_mem hgone)

/-- `session_close` as a loop that has gone over all cells. -/
lemma sessionClose_closing (h : Inv s) {sess : SessionState V} (hsess : s.slist[idx]? = some sess)
    (net : Net) : Closing (s.onSession idx fun sess => { sess with name := none }) idx
      { sess with name := none } sess.client.length (sessionClose s net idx) := by
  have hfound : (s.onSession idx fun sess => { sess with name := none }).slist[idx]?
      = some { sess with name := none } := by
    show (s.slist.modify idx _)[idx]? = _
    rw [List.getElem?_modify_eq, hsess]
    rfl
  have hloop : ∀ n, Closing (s.onSession idx fun sess => { sess with name := none }) idx
      { sess with name := none } n ((List.range n).foldl (closeCell net idx)
        (s.onSession idx fun sess => { sess with name := none })) := by
    intro n
    induction n with
    | zero =>
      refine ⟨h.onSession fun old => ⟨rfl, rfl, fun hopen => absurd rfl hopen⟩, Closes.refl _ _, rfl,
        rfl, _, hfound, fun i hi => absurd hi (Nat.not_lt_zero i), fun fd hfd => Or.inl hfd⟩
    | succ n ih =>
      rw [List.range_succ, List.foldl_concat]
      exact ih.step hfound net
  unfold sessionClose
  dsimp only
  rw [hfound]
  exact hloop sess.client.length

lemma ClosedEmpty.closes {C : ℤ → Prop} (h : ClosedEmpty s) (hcloses : Closes C s s') :
    ClosedEmpty s' := by
  intro sess' hsess' hname
  rcases List.getElem?_of_mem hsess' with ⟨k, hk⟩
  rcases hcloses.sess k sess' hk with ⟨sess, hsess, hname', -, hcells⟩
  exact occupied_nil_of_cells (h sess (List.mem_of_getElem? hsess) (hname'.symm.trans hname))
    fun i => (hcells i).imp_right And.left

/-- The lists after `session_close`. -/
theorem sessionClose_spec (h : Inv s) (hempty : ClosedEmpty s) {sess : SessionState V}
    (hsess : s.slist[idx]? = some sess) (net : Net) :
    Inv (sessionClose s net idx) ∧ ClosedEmpty (sessionClose s net idx) ∧
      (∀ i, s.clientFds.getD i (-1) ∉ occupied sess.client →
        (sessionClose s net idx).clientFds.getD i (-1) = s.clientFds.getD i (-1)) ∧
      (∀ fd ∈ occupied sess.client, fd ∉ occupied (sessionClose s net idx).clientFds) ∧
      ∀ k sess', (sessionClose s net idx).slist[k]? = some sess' → sess'.name ≠ none →
        k ≠ idx ∧ ∃ old, s.slist[k]? = some old ∧ old.name ≠ none ∧
          sess'.client.length = old.client.length ∧
          ∀ i, sess'.client.getD i (-1) = old.client.getD i (-1) ∨
            old.client.getD i (-1) ∈ occupied sess.client := by
  have hclosing := sessionClose_closing h hsess net
  rcases hclosing.found with ⟨closed, hclosed, hfree, hgone⟩
  rcases hclosing.closes.sess idx closed hclosed with ⟨orig, horig, hname, hlen, -⟩
  have horig' : orig = { sess with name := none } := by
    have hfound : (s.slist.modify idx fun sess => { sess with name := none })[idx]? = some orig := horig
    rw [List.getElem?_modify_eq, hsess] at hfound
    exact (Option.some.inj hfound).symm
  subst horig'
  -- the closed session has lost all its clients
  have hnone : occupied closed.client = [] := by
    refine occupied_eq_nil fun i => ?_
    by_cases hi : i < sess.client.length
    · exact hfree i hi
    · rw [List.getD_eq_getElem?_getD, List.getElem?_eq_none (by
        have : closed.client.length = sess.client.length := hlen
        omega)]
      rfl
  have hother : ∀ k sess', k ≠ idx → (sessionClose s net idx).slist[k]? = some sess' →
      ∃ old, s.slist[k]? = some old ∧ sess'.name = old.name ∧
        sess'.client.length = old.client.length ∧
        ∀ i, sess'.client.getD i (-1) = old.client.getD i (-1) ∨
          sess'.client.getD i (-1) = -1 ∧ old.client.getD i (-1) ∈ occupied sess.client := by
    intro k sess' hk hsess'
    rcases hclosing.closes.sess k sess' hsess' with ⟨old, hold, hrest⟩
    have hold' : (s.slist.modify idx fun sess => { sess with name := none })[k]? = some old := hold
    rw [List.getElem?_modify_ne _ _ hk.symm] at hold'
    exact ⟨old, hold', hrest⟩
  refine ⟨hclosing.inv, ?_, fun i hi => ?_, fun fd hfd => ?_, fun k sess' hsess' hopen => ?_⟩
  · intro sess' hsess' hname'
    rcases List.getElem?_of_mem hsess' with ⟨k, hk⟩
    by_cases hidx : k = idx
    · rw [hidx] at hk
      cases hclosed.symm.trans hk
      exact hnone
    · rcases hother k sess' hidx hk with ⟨old, hold, hsame, -, hcells⟩
      exact occupied_nil_of_cells (hempty old (List.mem_of_getElem? hold) (hsame.symm.trans hname'))
        fun i => (hcells i).imp_right And.left
  · rcases hclosing.closes.clientFds i with heq | ⟨-, hmem⟩
    · exact heq
    · exact absurd hmem hi
  · refine (hgone fd hfd).resolve_left fun hmem => ?_
    rw [hnone] at hmem
    exact absurd hmem List.not_mem_nil
  · have hidx : k ≠ idx := by
      rintro rfl
      cases hclosed.symm.trans hsess'
      exact hopen hname
    rcases hother k sess' hidx hsess' with ⟨old, hold, hsame, hlen', hcells⟩
    exact ⟨hidx, old, hold, by rw [← hsame]; exact hopen, hlen',
      fun i => (hcells i).imp_right And.right⟩

/-! ## Requests -/

section

variable [Add V] [Zero V] [LT V] [DecidableLT V] [Top V]

/-- The session that a request is for, unless it opens a new one. -/
def requestTarget (s : Server V) (mesg : HMesg V) : Option ℕ :=
  match mesg.type, mesg.data with
  | .session, _ => none
  | .join, .join sig => sig.name.bind (findSession s)
  | .join, _ => none
  | _, _ => if mesg.dest < 0 then none else some mesg.dest.toNat

/-- A connection joins a session that it has not joined yet. -/
def JoinsOnce (s : Server V) (fd : ℤ) (mesg : HMesg V) : Prop :=
  mesg.type = .join → ∀ idx ∈ requestTarget s mesg, ∀ sess ∈ s.slist[idx]?, fd ∉ sess.client

/-- The requester is no client of the session, nor about to become one, or no other open session has a
free cell in its client list, neither now nor once the clients of the session are gone. -/
def NoFreeCell (s : Server V) (fd : ℤ) (mesg : HMesg V) : Prop :=
  ∀ idx ∈ requestTarget s mesg, ∀ sess ∈ s.slist[idx]?, (fd ∈ sess.client ∨ mesg.type = .join) →
    ∀ k other, k ≠ idx → s.slist[k]? = some other → other.name ≠ none →
      ∀ x ∈ other.client, x ≠ -1 ∧ x ≠ fd ∧ x ∉ sess.client

/-- The calls that keep the client lists: no connection joins a session twice, a request that cannot be
forwarded meets `NoFreeCell`, and no answer is refused by a descriptor that has come to stand for a
connection of another kind. -/
def Careful (s : Server V) : Event V → Prop
  | .client i (some mesg) net =>
    JoinsOnce s (s.clientFds.getD i (-1)) mesg ∧
      (net.sent = false → NoFreeCell s (s.clientFds.getD i (-1)) mesg)
  | .session _ (some mesg) _ net =>
    mesg.dest ≠ -1 → net.sent = false → ∀ c ∈ s.conn mesg.dest, c.kind = .client
  | _ => True

variable {mesg : HMesg V} {net : Net}

/-- The state in which a request is forwarded. -/
structure Forwarding (s : Server V) (fd : ℤ) (mesg : HMesg V) (idx : ℕ) (s' : Server V) : Prop where
  inv : Inv s'
  empty : ClosedEmpty s'
  clientFds : s'.clientFds = s.clientFds
  found : ∃ sess', s'.slist[idx]? = some sess' ∧ (occupied sess'.client = [] ∨
    requestTarget s mesg = some idx ∧ (∀ k, k ≠ idx → s'.slist[k]? = s.slist[k]?) ∧
      ∃ sess, s.slist[idx]? = some sess ∧
        ∀ x ∈ occupied sess'.client, x ∈ sess.client ∨ x = fd ∧ mesg.type = .join)

omit [Add V] [Zero V] [LT V] [DecidableLT V] [Top V] in
/-- An existing session, changed in what does not concern its clients. -/
lemma forwarding_frame (h : Inv s) (hempty : ClosedEmpty s) {sess : SessionState V}
    (hsess : s.slist[idx]? = some sess) (htarget : requestTarget s mesg = some idx)
    {f : SessionState V → SessionState V} (hf : ∀ sess, (f sess).client = sess.client ∧
      (f sess).clientLen = sess.clientLen ∧ (f sess).name = sess.name) :
    Forwarding s fd mesg idx (s.onSession idx f) := by
  have hfound : (s.onSession idx f).slist[idx]? = some (f sess) := by
    show (s.slist.modify idx f)[idx]? = _
    rw [List.getElem?_modify_eq, hsess]
    rfl
  refine ⟨h.onSession fun old => ⟨(hf old).1, (hf old).2.1, fun hopen => by
    rw [← (hf old).2.2]; exact hopen⟩, fun old hold hname => ?_, rfl, f sess, hfound, Or.inr
    ⟨htarget, fun k hk => List.getElem?_modify_ne _ _ hk.symm, sess, hsess, fun x hx => ?_⟩⟩
  · rcases ListModify.mem_cases hold with hold | ⟨old', hold', rfl⟩
    · exact hempty old hold hname
    · rw [(hf old').1]
      exact hempty old' (List.mem_of_getElem? hold') ((hf old').2.2.symm.trans hname)
  · rw [(hf sess).1] at hx
    exact Or.inl (mem_occupied.mp hx).1

omit [Add V] [LT V] [DecidableLT V] [Top V] in
lemma freeSlot_spec (slist : List (SessionState V)) :
    (∃ old, (freeSlot slist).2[(freeSlot slist).1]? = some old ∧ old.name = none) ∧
      ∀ sess ∈ (freeSlot slist).2, sess ∈ slist ∨ sess = .zeroed := by
  unfold freeSlot
  dsimp only
  split_ifs with hlt
  · refine ⟨⟨slist[slist.findIdx (·.name.isNone)], List.getElem?_eq_getElem hlt, ?_⟩,
      fun sess hsess => Or.inl hsess⟩
    have hfound := List.findIdx_getElem (p := fun sess : SessionState V => sess.name.isNone) (w := hlt)
    exact Option.isNone_iff_eq_none.mp hfound
  · have hcap : 0 < grownCap slist.length - slist.length := by
      unfold grownCap
      split_ifs <;> omega
    refine ⟨⟨.zeroed, ?_, rfl⟩, fun sess hsess => ?_⟩
    · rw [List.getElem?_append_right (le_refl _), Nat.sub_self, List.getElem?_replicate, if_pos hcap]
    · exact (List.mem_append.mp hsess).imp_right fun hnew => (List.mem_replicate.mp hnew).2

omit [Add V] [LT V] [DecidableLT V] in
/-- A session opened in a free slot starts without clients. -/
lemma sessionOpen_forwarding (h : Inv s) (hempty : ClosedEmpty s) {name : Option Bytes}
    {launched : Option ℤ} (hfresh : ∀ fd' ∈ launched, s.conn fd' = none)
    (hopen : sessionOpen s name launched = some (idx, s')) : Forwarding s fd mesg idx s' := by
  unfold sessionOpen at hopen
  cases name with
  | none => cases hopen
  | some name =>
    dsimp only at hopen
    split_ifs at hopen with hexists
    rcases Option.map_eq_some_iff.mp hopen with ⟨newFd, hnew, heq⟩
    cases heq
    rcases freeSlot_spec s.slist with ⟨⟨old, hold, hname⟩, hslots⟩
    have hnone := hfresh newFd hnew
    have hnot : ∀ kind l, Tracks s.conn kind l → newFd ∉ occupied l := fun kind l htracks =>
      htracks.not_mem (by rw [hnone]; exact nofun)
    have hzero : Tracks s.conn .client (SessionState.zeroed (V := V)).client := Tracks.free 0
    have htracks : ∀ sess ∈ (freeSlot s.slist).2, Tracks s.conn .client sess.client := by
      intro sess hsess
      rcases hslots sess hsess with hsess | rfl
      · exact h.lists sess hsess
      · exact hzero
    have hclosed : ∀ sess ∈ (freeSlot s.slist).2, sess.name = none → occupied sess.client = [] := by
      intro sess hsess hnone
      rcases hslots sess hsess with hsess | rfl
      · exact hempty sess hsess hnone
      · rfl
    have hoccupied : occupied old.client = [] := hclosed old (List.mem_of_getElem? hold) hname
    refine ⟨⟨h.unk.update (hnot _ _ h.unk) _, h.clients.update (hnot _ _ h.clients) _,
      h.http.update (hnot _ _ h.http) _, fun sess hsess => ?_, fun sess hsess hopen => ?_⟩,
      fun sess hsess hclosed' => ?_, rfl, ?_⟩
    · rcases ListModify.mem_cases hsess with hsess | ⟨old, hold, rfl⟩
      · exact (htracks sess hsess).update (hnot _ _ (htracks sess hsess)) _
      · have hsess := List.mem_of_getElem? hold
        exact (htracks old hsess).update (hnot _ _ (htracks old hsess)) _
    · rcases ListModify.mem_cases hsess with hsess | ⟨old', hold', rfl⟩
      · rcases hslots sess hsess with hsess | rfl
        · exact h.len sess hsess hopen
        · exact absurd rfl hopen
      · cases hold.symm.trans hold'
        show (0 : ℤ) = (occupied old.client).length
        rw [hoccupied]
        rfl
    · rcases ListModify.mem_cases hsess with hsess | ⟨old', -, rfl⟩
      · exact hclosed sess hsess hclosed'
      · cases hclosed'
    · refine ⟨_, (List.getElem?_modify_eq _ _ _).trans (congrArg _ hold), Or.inl ?_⟩
      exact hoccupied

omit [Add V] [Zero V] [LT V] [DecidableLT V] [Top V] in
/-- A client that joins a session it has not joined yet. -/
lemma join_forwarding (h : Inv s) (hempty : ClosedEmpty s) (hfd : fd ∈ occupied s.clientFds)
    {sess : SessionState V} (hsess : s.slist[idx]? = some sess) (hopen : sess.name ≠ none)
    (hjoin : mesg.type = .join) (htarget : requestTarget s mesg = some idx) (honce : fd ∉ sess.client) :
    Forwarding s fd mesg idx (s.onSession idx fun sess =>
      { sess with client := addFd sess.client fd, clientLen := sess.clientLen + 1 }) := by
  have hne := (mem_occupied.mp hfd).2
  have hperm := occupied_addFd sess.client hne
  have hfound : (s.onSession idx fun sess =>
      { sess with client := addFd sess.client fd, clientLen := sess.clientLen + 1 }).slist[idx]?
      = some { sess with client := addFd sess.client fd, clientLen := sess.clientLen + 1 } := by
    show (s.slist.modify idx _)[idx]? = _
    rw [List.getElem?_modify_eq, hsess]
    rfl
  refine ⟨⟨h.unk, h.clients, h.http, fun new hnew => ?_, fun new hnew hopen => ?_⟩,
    fun new hnew hname => ?_, rfl, _, hfound, Or.inr ⟨htarget,
      fun k hk => List.getElem?_modify_ne _ _ hk.symm, sess, hsess, fun x hx => ?_⟩⟩
  · rcases ListModify.mem_cases hnew with hnew | ⟨old, hold, rfl⟩
    · exact h.lists new hnew
    · cases hsess.symm.trans hold
      exact (h.lists sess (List.mem_of_getElem? hsess)).add
        (fun hmem => honce (mem_occupied.mp hmem).1) hne (h.clients.kind_eq fd hfd)
  · rcases ListModify.mem_cases hnew with hnew | ⟨old, hold, rfl⟩
    · exact h.len new hnew hopen
    · cases hsess.symm.trans hold
      show sess.clientLen + 1 = ((occupied (addFd sess.client fd)).length : ℤ)
      rw [hperm.length_eq, h.len sess (List.mem_of_getElem? hsess) hopen, List.length_cons]
      push_cast
      ring
  · rcases ListModify.mem_cases hnew with hnew | ⟨old, hold, rfl⟩
    · exact hempty new hnew hname
    · cases hsess.symm.trans hold
      exact absurd hname hopen
  · rcases List.mem_cons.mp ((hperm.mem_iff).mp hx) with rfl | hx
    · exact Or.inr ⟨rfl, hjoin⟩
    · exact Or.inl (mem_occupied.mp hx).1

omit [Add V] [Zero V] [LT V] [DecidableLT V] [Top V] in
lemma findSession_spec {name : Bytes} (h : findSession s name = some idx) :
    ∃ sess, s.slist[idx]? = some sess ∧ sess.name ≠ none := by
  rcases List.findIdx?_eq_some_iff_getElem.mp h with ⟨hlt, hname, -⟩
  refine ⟨s.slist[idx], List.getElem?_eq_getElem hlt, fun hnone => ?_⟩
  rw [decide_eq_true_eq, hnone] at hname
  cases hname

omit [Add V] [Zero V] [Top V] in
lemma report_frame (sess : SessionState V) (candId : ℤ) (perf : V) :
    (sess.report candId perf).client = sess.client ∧
      (sess.report candId perf).clientLen = sess.clientLen ∧
      (sess.report candId perf).name = sess.name := by
  unfold SessionState.report
  split
  · dsimp only
    split_ifs <;> exact ⟨rfl, rfl, rfl⟩
  · exact ⟨rfl, rfl, rfl⟩

/-- The state in which a request is forwarded keeps the lists. -/
lemma handleRequest_forwarding (h : Inv s) (hempty : ClosedEmpty s) (hfd : fd ∈ occupied s.clientFds)
    (hfresh : ∀ fd' ∈ net.launched, s.conn fd' = none) (honce : JoinsOnce s fd mesg)
    (hreq : handleRequest s fd mesg net = some (idx, s')) : Forwarding s fd mesg idx s' := by
  unfold handleRequest at hreq
  split at hreq
  · exact sessionOpen_forwarding h hempty hfresh hreq
  · next sig htype hdata =>
    have htarget : requestTarget s mesg = sig.name.bind (findSession s) := by
      unfold requestTarget
      rw [htype, hdata]
    cases hname : sig.name.bind (findSession s) with
    | none =>
      rw [hname] at hreq
      cases hreq
    | some k =>
      rw [hname] at hreq htarget
      cases hreq
      rcases Option.bind_eq_some_iff.mp hname with ⟨name, -, hfind⟩
      rcases findSession_spec hfind with ⟨sess, hsess, hopen⟩
      exact join_forwarding h hempty hfd hsess hopen htype htarget
        (honce htype idx htarget sess hsess)
  · cases hreq
  · cases hreq
  · next hsession hjoin _ _ =>
    split_ifs at hreq with hvalid
    rw [not_or] at hvalid
    have htarget : requestTarget s mesg = some mesg.dest.toNat := by
      unfold requestTarget
      split
      · next htype => exact absurd htype hsession
      · next sig htype _ => exact absurd htype hjoin
      · next htype _ => exact absurd htype hjoin
      · exact if_neg hvalid.1
    cases hsess : s.slist[mesg.dest.toNat]? with
    | none =>
      rw [hsess] at hvalid
      exact absurd rfl hvalid.2
    | some sess =>
      have hsame : Forwarding s fd mesg mesg.dest.toNat s := by
        have hid : s.onSession mesg.dest.toNat id = s := by
          unfold Server.onSession
          rw [List.modify_id]
        have hframe : Forwarding s fd mesg _ _ := forwarding_frame (f := id) h hempty hsess htarget
          fun _ => ⟨rfl, rfl, rfl⟩
        rwa [hid] at hframe
      dsimp only at hreq
      split at hreq
      case h_6 =>
        cases hreq
        refine forwarding_frame h hempty hsess htarget fun old => ?_
        exact report_frame old _ _
      case h_7 => cases hreq
      all_goals
        cases hreq
        exact hsame

/-! ## The calls of the main loop -/

omit [Add V] [Zero V] [LT V] [DecidableLT V] [Top V] in
/-- The main loop closes the client in cell `i`. -/
lemma closeRequester (h : Inv s) (hempty : ClosedEmpty s) (i : ℕ) (net : Net)
    (hcell : s.clientFds.getD i (-1) = -1 → ∀ sess ∈ s.slist, sess.name ≠ none → -1 ∉ sess.client) :
    Inv { clientClose s net (s.clientFds.getD i (-1)) with
      clientFds := (clientClose s net (s.clientFds.getD i (-1))).clientFds.set i (-1) } ∧
    ClosedEmpty { clientClose s net (s.clientFds.getD i (-1)) with
      clientFds := (clientClose s net (s.clientFds.getD i (-1))).clientFds.set i (-1) } := by
  have hfree : ∀ t : Server V, Inv t → Inv { t with clientFds := t.clientFds.set i (-1) } :=
    fun t ht => ⟨ht.unk, ht.clients.sublist (occupied_free _ _), ht.http, ht.lists, ht.len⟩
  by_cases hfd : s.clientFds.getD i (-1) = -1
  · rw [hfd]
    have hnot : ∀ l, (-1 : ℤ) ∉ occupied l := fun l hmem => (mem_occupied.mp hmem).2 rfl
    have hlists : ∀ sess ∈ s.slist.map (·.lose (-1)), Tracks s.conn .client sess.client ∧
        (sess.name ≠ none → sess.clientLen = ((occupied sess.client).length : ℤ)) ∧
        (sess.name = none → occupied sess.client = []) := by
      intro sess hsess
      rcases List.mem_map.mp hsess with ⟨old, hold, rfl⟩
      rw [lose_free]
      split_ifs with hmem
      · refine ⟨h.lists old hold, fun hopen => ?_, hempty old hold⟩
        exact absurd hmem (hcell hfd old hold hopen)
      · exact ⟨h.lists old hold, h.len old hold, hempty old hold⟩
    have hclose : Inv (clientClose s net (-1)) := by
      unfold clientClose
      rw [clearFirst_free]
      dsimp only
      split_ifs
      · exact ⟨h.unk.update (hnot _) _, h.clients.update (hnot _) _, h.http.update (hnot _) _,
          fun sess hsess => (hlists sess hsess).1.update (hnot _) _,
          fun sess hsess => (hlists sess hsess).2.1⟩
      · exact ⟨h.unk, h.clients, h.http, fun sess hsess => (hlists sess hsess).1,
          fun sess hsess => (hlists sess hsess).2.1⟩
    refine ⟨hfree _ hclose, fun sess hsess => ?_⟩
    have hsess' : sess ∈ (clientClose s net (-1)).slist := hsess
    rw [(clientClose_lists s net (-1)).1] at hsess'
    exact (hlists sess hsess').2.2
  · have hmem := getD_mem_occupied hfd
    have hkind := h.clients.kind_eq _ hmem
    refine ⟨hfree _ (h.clientClose hfd (h.unk.not_mem (by rw [hkind]; decide))
      (h.http.not_mem (by rw [hkind]; decide)) net).1, ?_⟩
    have hclosed : ClosedEmpty (clientClose s net (s.clientFds.getD i (-1))) :=
      hempty.closes (clientClose_closes (C := fun _ => True) trivial s net)
    exact hclosed

lemma clientEvent_keeps (h : Inv s) (hempty : ClosedEmpty s) {i : ℕ}
    (hne : s.clientFds.getD i (-1) ≠ -1) {recv : Option (HMesg V)}
    (hfresh : ∀ fd' ∈ net.launched, s.conn fd' = none)
    (honce : ∀ mesg ∈ recv, JoinsOnce s (s.clientFds.getD i (-1)) mesg)
    (hcells : ∀ mesg ∈ recv, net.sent = false → NoFreeCell s (s.clientFds.getD i (-1)) mesg) :
    Inv (clientEvent s i (s.clientFds.getD i (-1)) recv net) ∧
      ClosedEmpty (clientEvent s i (s.clientFds.getD i (-1)) recv net) := by
  have hfd := getD_mem_occupied hne
  have hclose := closeRequester h hempty i net fun hfree => absurd hfree hne
  unfold clientEvent handleClientSocket
  cases recv with
  | none => exact hclose
  | some mesg =>
    dsimp only
    by_cases hignored : mesg.dest = -1
    · rw [if_pos hignored]
      exact ⟨h, hempty⟩
    · rw [if_neg hignored]
      cases hreq : handleRequest s (s.clientFds.getD i (-1)) mesg net with
      | none => exact hclose
      | some res =>
        rcases res with ⟨idx, s'⟩
        have hforward := handleRequest_forwarding h hempty hfd hfresh (honce mesg rfl) hreq
        rcases hforward.found with ⟨sess', hsess', hclients⟩
        dsimp only
        by_cases hsent : net.sent = true
        · simp only [hsent, if_true]
          refine ⟨hforward.inv.onSession fun old => ⟨rfl, rfl, id⟩, fun sess hsess hname => ?_⟩
          rcases ListModify.mem_cases hsess with hsess | ⟨old, hold, rfl⟩
          · exact hforward.empty sess hsess hname
          · exact hforward.empty old (List.mem_of_getElem? hold) hname
        · simp only [hsent, Bool.false_eq_true, if_false]
          have hspec := sessionClose_spec hforward.inv hforward.empty hsess' net
          refine closeRequester hspec.1 hspec.2.1 i net fun hfree sess hsess hopen hmem => ?_
          -- the requester's cell was cleared, so it was a client of the session
          have hclient : s.clientFds.getD i (-1) ∈ occupied sess'.client := by
            by_contra hnot
            rw [← hforward.clientFds] at hnot hne
            exact hne ((hspec.2.2.1 i hnot).symm.trans hfree)
          rcases hclients with hnil | ⟨htarget, hsame, old, hold, hfrom⟩
          · rw [hnil] at hclient
            exact absurd hclient List.not_mem_nil
          · rcases List.getElem?_of_mem hsess with ⟨k, hk⟩
            rcases hspec.2.2.2.2 k sess hk hopen with ⟨hidx, other, hother, hopen', hlen, hcell⟩
            rw [hsame k hidx] at hother
            have hused := hcells mesg rfl (by simpa using hsent) idx htarget old hold
              ((hfrom _ hclient).imp_right And.right) k other hidx hother hopen'
            rcases List.getElem?_of_mem hmem with ⟨j, hj⟩
            have hj' : j < other.client.length := by
              rw [← hlen]
              exact (List.getElem?_eq_some_iff.mp hj).1
            have hin : other.client.getD j (-1) ∈ other.client := by
              rw [List.getD_eq_getElem?_getD, List.getElem?_eq_getElem hj']
              exact List.getElem_mem hj'
            rcases hused _ hin with ⟨hfree', hrequester, hsession⟩
            rcases hcell j with heq | hgone
            · rw [← heq, List.getD_eq_getElem?_getD, hj] at hfree'
              exact hfree' rfl
            · rcases hfrom _ hgone with hgone | ⟨hgone, -⟩
              · exact hsession hgone
              · exact hrequester hgone

omit [Add V] [Zero V] [LT V] [DecidableLT V] [Top V] in
lemma accept_keeps (h : Inv s) (hpos : 0 ≤ fd) (hnone : s.conn fd = none) :
    Inv (handleNewConnection s fd) := by
  have hnot : ∀ kind l, Tracks s.conn kind l → fd ∉ occupied l := fun kind l htracks =>
    htracks.not_mem (by rw [hnone]; exact nofun)
  have hinv := h.update (hnot _ _ h.unk) (hnot _ _ h.clients) (hnot _ _ h.http)
    (fun sess hsess => hnot _ _ (h.lists sess hsess)) (some { serial := s.nextSerial, kind := .unknown })
    (s.nextSerial + 1)
  refine ⟨hinv.unk.add (hnot _ _ h.unk) (by omega) ?_, hinv.clients, hinv.http, hinv.lists, hinv.len⟩
  dsimp only
  rw [Function.update_self]
  rfl

omit [Add V] [Zero V] [LT V] [DecidableLT V] [Top V] in
/-- Freeing a cell removes its descriptor. -/
lemma Tracks.set_free {conn : ℤ → Option Conn} {kind : ConnKind} {l : List ℤ} {i : ℕ}
    (h : Tracks conn kind l) (hne : l.getD i (-1) ≠ -1) :
    Tracks conn kind (l.set i (-1)) ∧ l.getD i (-1) ∉ occupied (l.set i (-1)) := by
  refine ⟨h.sublist (occupied_free l i), ?_⟩
  have hi : i < l.length := by
    by_contra hlen
    rw [List.getD_eq_getElem?_getD, List.getElem?_eq_none (by omega)] at hne
    exact hne rfl
  have hget : l.getD i (-1) = l[i] := by
    rw [List.getD_eq_getElem?_getD, List.getElem?_eq_getElem hi]
    rfl
  have hfree : (l.set i (-1))[i]? = some (-1) := List.getElem?_set_self hi
  have hperm := occupied_set hfree hne
  rw [List.set_set, hget, List.set_getElem_self, ← hget] at hperm
  exact (List.nodup_cons.mp ((hperm.nodup_iff).mp h.nodup)).1

omit [Add V] [Zero V] [LT V] [DecidableLT V] [Top V] in
lemma unknown_keeps (h : Inv s) {i : ℕ} (hne : s.unkFds.getD i (-1) ≠ -1) (header : Header)
    (hopen : header ≠ .missing → s.conn (s.unkFds.getD i (-1)) ≠ none) :
    Inv { handleUnknownConnection s (s.unkFds.getD i (-1)) header with
      unkFds := s.unkFds.set i (-1) } := by
  have hkind := h.unk.kind_eq _ (getD_mem_occupied hne)
  have hunk := h.unk.set_free hne
  generalize s.unkFds.getD i (-1) = fd at *
  have hclients : fd ∉ occupied s.clientFds := h.clients.not_mem (by rw [hkind]; decide)
  have hhttp : fd ∉ occupied s.httpFds := h.http.not_mem (by rw [hkind]; decide)
  have hlists : ∀ sess ∈ s.slist, fd ∉ occupied sess.client := fun sess hsess =>
    (h.lists sess hsess).not_mem (by rw [hkind]; decide)
  have hinv : Inv { s with unkFds := s.unkFds.set i (-1) } :=
    ⟨hunk.1, h.clients, h.http, h.lists, h.len⟩
  have hupdate := fun c => hinv.update hunk.2 hclients hhttp hlists c s.nextSerial
  have hclassify : ∀ kind, header ≠ .missing →
      ((Function.update s.conn fd ((s.conn fd).map fun c => { c with kind := kind })) fd).map Conn.kind
        = some kind := by
    intro kind hheader
    rw [Function.update_self]
    cases hconn : s.conn fd with
    | none => exact absurd hconn (hopen hheader)
    | some c => rfl
  unfold handleUnknownConnection
  cases header with
  | missing => exact hupdate none
  | harmony =>
    have hnew := hupdate ((s.conn fd).map fun c => { c with kind := .client })
    exact ⟨hnew.unk, hnew.clients.add hclients hne (hclassify .client nofun), hnew.http, hnew.lists,
      hnew.len⟩
  | http =>
    dsimp only
    split_ifs
    · exact hupdate none
    · have hnew := hupdate ((s.conn fd).map fun c => { c with kind := .http })
      exact ⟨hnew.unk, hnew.clients, hnew.http.add hhttp hne (hclassify .http nofun), hnew.lists,
        hnew.len⟩

omit [Add V] [Zero V] [LT V] [DecidableLT V] [Top V] in
lemma forwardReply_keeps (h : Inv s) (hempty : ClosedEmpty s) {req : Request}
    (hne : mesg.dest ≠ -1) (hkind : net.sent = false → ∀ c ∈ s.conn mesg.dest, c.kind = .client) :
    Inv (forwardReply s idx mesg req net) ∧ ClosedEmpty (forwardReply s idx mesg req net) := by
  unfold forwardReply
  generalize hf : (fun sess : SessionState V => _) = f
  have hframe : ∀ sess, (f sess).client = sess.client ∧ (f sess).clientLen = sess.clientLen ∧
      (f sess).name = sess.name := by
    intro sess
    rw [← hf]
    dsimp only
    split <;> exact ⟨rfl, rfl, rfl⟩
  have hinv : Inv (s.onSession idx f) :=
    h.onSession fun sess => ⟨(hframe sess).1, (hframe sess).2.1, fun hopen => by
    rw [← (hframe sess).2.2]; exact hopen⟩
  have hempty' : ClosedEmpty (s.onSession idx f) := by
    intro sess hsess hname
    rcases ListModify.mem_cases hsess with hsess | ⟨old, hold, rfl⟩
    · exact hempty sess hsess hname
    · rw [(hframe old).1]
      exact hempty old (List.mem_of_getElem? hold) ((hframe old).2.2.symm.trans hname)
  dsimp only
  by_cases hsent : net.sent = true
  · rw [if_pos hsent]
    exact ⟨⟨hinv.unk, hinv.clients, hinv.http, hinv.lists, hinv.len⟩, hempty'⟩
  · rw [if_neg hsent]
    have hnot : ∀ kind l, kind ≠ .client → Tracks s.conn kind l → mesg.dest ∉ occupied l := by
      intro kind l hclient htracks hmem
      rcases Option.map_eq_some_iff.mp (htracks.kind_eq _ hmem) with ⟨c, hconn, hc⟩
      exact hclient (hc.symm.trans (hkind (by simpa using hsent) c hconn))
    exact ⟨(hinv.clientClose hne (hnot .unknown s.unkFds nofun h.unk)
      (hnot .http s.httpFds nofun h.http) net).1,
      hempty'.closes (clientClose_closes (C := fun _ => True) trivial _ net)⟩

/-- A careful call keeps the lists. -/
theorem step_keeps (h : Inv s) (hempty : ClosedEmpty s) {e : Event V} (hcareful : Careful s e)
    (hstep : step s e = some s') : Inv s' ∧ ClosedEmpty s' := by
  cases e with
  | accept fd =>
    simp only [step] at hstep
    split_ifs at hstep with hfresh
    cases hstep
    exact ⟨accept_keeps h hfresh.1 hfresh.2, hempty⟩
  | unknown i header =>
    simp only [step] at hstep
    split_ifs at hstep with himpossible
    cases hstep
    rw [not_or] at himpossible
    refine ⟨unknown_keeps h himpossible.1 header fun hheader hnone =>
      himpossible.2 ⟨hheader, hnone⟩, ?_⟩
    unfold handleUnknownConnection
    cases header with
    | missing => exact hempty
    | harmony => exact hempty
    | http =>
      dsimp only
      split_ifs
      · exact hempty
      · exact hempty
  | client i recv net =>
    simp only [step] at hstep
    split_ifs at hstep with himpossible
    cases hstep
    rw [not_or, not_or] at himpossible
    refine clientEvent_keeps h hempty himpossible.1 (fun fd' hfd' => ?_) ?_ ?_
    · by_contra hconn
      refine himpossible.2.2 ?_
      rw [hfd', Option.any_some, decide_eq_true_eq]
      exact Or.inr (Option.isSome_iff_ne_none.mpr hconn)
    · rintro mesg hmesg
      cases hmesg
      exact hcareful.1
    · rintro mesg hmesg
      cases hmesg
      exact hcareful.2
  | session idx recv infoOk net =>
    simp only [step] at hstep
    cases hsess : s.slist[idx]? with
    | none =>
      rw [hsess] at hstep
      cases hstep
    | some sess =>
      have hspec := sessionClose_spec h hempty hsess net
      rw [hsess] at hstep
      dsimp only at hstep
      split_ifs at hstep with hname
      cases recv with
      | none =>
        cases hstep
        exact ⟨hspec.1, hspec.2.1⟩
      | some mesg =>
        dsimp only at hstep
        split_ifs at hstep with hignored hinfo htype
        · cases hstep
          exact ⟨hspec.1, hspec.2.1⟩
        · cases hstep
          exact ⟨h, hempty⟩
        · cases hstep
          exact ⟨hspec.1, hspec.2.1⟩
        · cases hreq : sess.outstanding with
          | nil =>
            rw [hreq] at hstep
            cases hstep
          | cons req rest =>
            rw [hreq] at hstep
            dsimp only at hstep
            split_ifs at hstep
            cases hstep
            exact forwardReply_keeps h hempty hignored (hcareful hignored)
  | httpKill i name net =>
    simp only [step] at hstep
    split_ifs at hstep
    cases hfind : findSession s name with
    | none =>
      rw [hfind] at hstep
      cases hstep
      exact ⟨h, hempty⟩
    | some idx =>
      rw [hfind] at hstep
      cases hstep
      rcases findSession_spec hfind with ⟨sess, hsess, -⟩
      have hspec := sessionClose_spec h hempty hsess net
      exact ⟨hspec.1, hspec.2.1⟩
  | httpClosed i =>
    simp only [step] at hstep
    split_ifs at hstep with hfree
    cases hstep
    refine ⟨?_, hempty⟩
    have hkind := h.http.kind_eq _ (getD_mem_occupied hfree)
    have hhttp := h.http.set_free hfree
    have hinv : Inv { s with httpFds := s.httpFds.set i (-1) } :=
      ⟨h.unk, h.clients, hhttp.1, h.lists, h.len⟩
    have hnew := hinv.update (h.unk.not_mem (by rw [hkind]; decide))
      (h.clients.not_mem (by rw [hkind]; decide)) hhttp.2
      (fun sess hsess => (h.lists sess hsess).not_mem (by rw [hkind]; decide)) none s.nextSerial
    exact ⟨hnew.unk, hnew.clients, hnew.http, hnew.lists, hnew.len⟩

/-! ## Runs -/

/-- The states of runs without careless calls. -/
inductive CarefulRun : Server V → Prop where
  | start : CarefulRun Server.start
  | step {s s' : Server V} {e : Event V} :
    CarefulRun s → Careful s e → step s e = some s' → CarefulRun s'

/-- The client list of an open session holds distinct descriptors of open client connections, and
`client_len` is their number. -/
def ClientListsOk (s : Server V) : Prop :=
  ∀ sess ∈ s.slist, sess.name ≠ none → (occupied sess.client).Nodup ∧
    (∀ fd ∈ occupied sess.client, (s.conn fd).map Conn.kind = some .client) ∧
    sess.clientLen = (occupied sess.client).length

lemma CarefulRun.keeps (h : CarefulRun s) : Inv s ∧ ClosedEmpty s := by
  induction h with
  | start =>
    have hzeroed : ∀ sess ∈ (Server.start : Server V).slist, sess = .zeroed := fun sess hsess =>
      (List.mem_replicate.mp hsess).2
    refine ⟨⟨Tracks.free 8, Tracks.free 8, Tracks.free 8, fun sess hsess => ?_,
      fun sess hsess hopen => ?_⟩, fun sess hsess _ => ?_⟩
    · rw [hzeroed sess hsess]
      exact Tracks.free 0
    · rw [hzeroed sess hsess] at hopen
      exact absurd rfl hopen
    · rw [hzeroed sess hsess]
      rfl
  | step _ hcareful hstep ih => exact step_keeps ih.1 ih.2 hcareful hstep

lemma CarefulRun.get (h : CarefulRun s) {e : Event V} (hcareful : Careful s e)
    (hsome : (Hserver.step s e).isSome) : CarefulRun ((Hserver.step s e).get hsome) :=
  .step h hcareful (Option.some_get hsome).symm

theorem careful_client_lists (h : CarefulRun s) : ClientListsOk s := fun sess hsess hopen =>
  have htracks := h.keeps.1.lists sess hsess
  ⟨htracks.nodup, htracks.kind_eq, h.keeps.1.len sess hsess hopen⟩

end

/-! ## A client that joins twice -/

/-- A request of a client. -/
def request (type : HMesgType) (data : HMesgData (WithTop ℕ)) : HMesg (WithTop ℕ) where
  dest := 0
  type := type
  status := .req
  srcId := none
  data := data

/-- An event in which nothing fails. -/
def allWell (launched : Option ℤ) : Net where
  sent := true
  launched := launched
  shutdown := fun _ => true

/-- The signature of a session without variables. -/
def bareSignature : HSignature (WithTop ℕ) := { name := some (cstr "s"), range := [] }

/-- The connection 5 opens a session, whose socket is 6. -/
def opening : List (Event (WithTop ℕ)) :=
  [.accept 5, .unknown 0 .harmony,
    .client 0 (some (request .session (.session { sig := bareSignature, cfg := hcfgAlloc })))
      (allWell (some 6))]

/-- The connection in cell 0 joins that session. -/
def joining : Event (WithTop ℕ) := .client 0 (some (request .join (.join bareSignature))) (allWell none)

instance (s : Server V) (fd : ℤ) (mesg : HMesg V) : Decidable (JoinsOnce s fd mesg) :=
  inferInstanceAs (Decidable (_ → ∀ idx ∈ requestTarget s mesg, ∀ sess ∈ s.slist[idx]?, _))

/-- A client that joins once. -/
theorem joined_once_lists : ∃ s : Server (WithTop ℕ), CarefulRun s ∧
    (s.slist[0]?.map fun sess => (sess.client, sess.clientLen)) = some ([5, -1, -1, -1, -1, -1, -1, -1], 1) ∧
    ClientListsOk s := by
  have accepted := (CarefulRun.start (V := WithTop ℕ)).get (e := .accept 5) trivial (by decide +kernel)
  have known := accepted.get (e := .unknown 0 .harmony) trivial (by decide +kernel)
  have opened := known.get (e := .client 0 (some (request .session
    (.session { sig := bareSignature, cfg := hcfgAlloc }))) (allWell (some 6)))
    ⟨fun htype => absurd htype (by decide), nofun⟩ (by decide +kernel)
  have joined := opened.get (e := joining) ⟨by decide +kernel, nofun⟩ (by decide +kernel)
  exact ⟨_, joined, by decide +kernel, careful_client_lists joined⟩

/-- A second request to join puts the descriptor into the list again. -/
theorem joined_twice_lists : ¬ ∀ (es : List (Event (WithTop ℕ))) (s : Server (WithTop ℕ)),
    run Server.start es = some s → ClientListsOk s := by
  intro hall
  have hrun : (run Server.start (opening ++ [joining, joining])).map
      (fun s => s.slist[0]?.map fun sess => (sess.name, sess.client))
        = some (some (some (cstr "s"), [5, 5, -1, -1, -1, -1, -1, -1])) := by decide +kernel
  rcases Option.map_eq_some_iff.mp hrun with ⟨s, hrun, hview⟩
  rcases Option.map_eq_some_iff.mp hview with ⟨sess, hsess, hlist⟩
  rcases Prod.mk.inj hlist with ⟨hname, hclient⟩
  have hok := hall _ s hrun sess (List.mem_of_getElem? hsess) (by rw [hname]; exact nofun)
  rw [hclient] at hok
  exact absurd hok.1 (by decide)

end ActiveHarmony.Hserver

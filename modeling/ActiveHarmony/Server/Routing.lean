import ActiveHarmony.Server.ClientLists

/-!
# The way of an answer back to its requester

A request carries the descriptor of its connection to the session, and the answer brings it back.
`patient_replies` says that no answer reaches another connection as long as no descriptor is given to
a new connection while an open session still owes an answer to it.
-/

namespace ActiveHarmony.Hserver

variable {V : Type} {s s' s'' : Server V} {fd : ℤ} {idx : ℕ}

/-- No open session owes an answer to the descriptor. -/
def NothingOwed (s : Server V) (fd : ℤ) : Prop :=
  ∀ sess ∈ s.slist, sess.name ≠ none → ∀ req ∈ sess.outstanding, req.fd ≠ fd

/-- The descriptors of new connections, and of new sessions, are owed nothing. -/
def Patient (s : Server V) : Event V → Prop
  | .accept fd => NothingOwed s fd
  | .client _ _ net => ∀ fd ∈ net.launched, NothingOwed s fd
  | _ => True

/-- Where a request's descriptor is in use, it stands for the connection that sent the request. -/
def OwedRight (s : Server V) : Prop :=
  ∀ sess ∈ s.slist, sess.name ≠ none → ∀ req ∈ sess.outstanding, ∀ c, s.conn req.fd = some c →
    c.serial = req.serial

/-- Connections and requests may have disappeared, but there is nothing new. -/
structure Forgets (s s' : Server V) : Prop where
  conn : ∀ fd c', s'.conn fd = some c' → ∃ c, s.conn fd = some c ∧ c.serial = c'.serial
  owed : ∀ sess' ∈ s'.slist, sess'.name ≠ none →
    ∃ sess ∈ s.slist, sess.name ≠ none ∧ sess'.outstanding ⊆ sess.outstanding
  delivered : s'.delivered = s.delivered

namespace Forgets

lemma refl (s : Server V) : Forgets s s :=
  ⟨fun _ c h => ⟨c, h, rfl⟩, fun sess h hopen => ⟨sess, h, hopen, List.Subset.refl _⟩, rfl⟩

lemma trans (h : Forgets s s') (h' : Forgets s' s'') : Forgets s s'' := by
  refine ⟨fun fd c hc => ?_, fun sess hsess hopen => ?_, h'.delivered.trans h.delivered⟩
  · rcases h'.conn fd c hc with ⟨c', hc', heq'⟩
    rcases h.conn fd c' hc' with ⟨c'', hc'', heq⟩
    exact ⟨c'', hc'', heq.trans heq'⟩
  · rcases h'.owed sess hsess hopen with ⟨mid, hmid, hopen', hsub'⟩
    rcases h.owed mid hmid hopen' with ⟨old, hold, hopen'', hsub⟩
    exact ⟨old, hold, hopen'', List.Subset.trans hsub' hsub⟩

lemma owedRight (h : Forgets s s') (hright : OwedRight s) : OwedRight s' := by
  intro sess hsess hopen req hreq c hc
  rcases h.owed sess hsess hopen with ⟨old, hold, hopen', hsub⟩
  rcases h.conn req.fd c hc with ⟨c', hc', heq⟩
  exact heq.symm.trans (hright old hold hopen' req (hsub hreq) c' hc')

/-- A change to one session that opens nothing and adds no request. -/
lemma onSession {f : SessionState V → SessionState V} (s : Server V) (idx : ℕ)
    (hf : ∀ sess, ((f sess).name ≠ none → sess.name ≠ none) ∧
      (f sess).outstanding ⊆ sess.outstanding) : Forgets s (s.onSession idx f) := by
  refine ⟨fun _ c h => ⟨c, h, rfl⟩, fun sess hsess hopen => ?_, rfl⟩
  rcases ListModify.mem_cases hsess with hsess | ⟨old, hold, rfl⟩
  · exact ⟨sess, hsess, hopen, List.Subset.refl _⟩
  · exact ⟨old, List.mem_of_getElem? hold, (hf old).1 hopen, (hf old).2⟩

lemma close (s : Server V) (fd : ℤ) : Forgets s (s.close fd) := by
  refine ⟨fun fd' c hc => ?_, fun sess h hopen => ⟨sess, h, hopen, List.Subset.refl _⟩, rfl⟩
  have hc' : Function.update s.conn fd none fd' = some c := hc
  by_cases heq : fd' = fd
  · rw [heq, Function.update_self] at hc'
    cases hc'
  · rw [Function.update_of_ne heq] at hc'
    exact ⟨c, hc', rfl⟩

lemma classify (s : Server V) (fd : ℤ) (kind : ConnKind) : Forgets s (s.classify fd kind) := by
  refine ⟨fun fd' c hc => ?_, fun sess h hopen => ⟨sess, h, hopen, List.Subset.refl _⟩, rfl⟩
  have hc' : Function.update s.conn fd ((s.conn fd).map fun c => { c with kind := kind }) fd' = some c :=
    hc
  by_cases heq : fd' = fd
  · rw [heq, Function.update_self] at hc'
    rcases Option.map_eq_some_iff.mp hc' with ⟨c', hconn, rfl⟩
    exact ⟨c', by rw [heq]; exact hconn, rfl⟩
  · rw [Function.update_of_ne heq] at hc'
    exact ⟨c, hc', rfl⟩

lemma clientClose (s : Server V) (net : Net) (fd : ℤ) : Forgets s (clientClose s net fd) := by
  have hlost : Forgets s
      { s with slist := s.slist.map (·.lose fd), clientFds := clearFirst s.clientFds fd } := by
    refine ⟨fun _ c h => ⟨c, h, rfl⟩, fun sess hsess hopen => ?_, rfl⟩
    rcases List.mem_map.mp hsess with ⟨old, hold, rfl⟩
    rw [lose_name] at hopen
    refine ⟨old, hold, hopen, ?_⟩
    unfold SessionState.lose
    split_ifs <;> exact List.Subset.refl _
  unfold Hserver.clientClose
  dsimp only
  split_ifs
  · exact hlost.trans (close _ fd)
  · exact hlost

lemma sessionClose (s : Server V) (net : Net) (idx : ℕ) : Forgets s (sessionClose s net idx) := by
  have hcell : ∀ (t : Server V) (i : ℕ), Forgets t (closeCell net idx t i) := by
    intro t i
    unfold closeCell
    cases t.slist[idx]? with
    | none => exact refl t
    | some sess =>
      dsimp only
      split_ifs
      · exact clientClose t net _
      · exact refl t
  have hloop : ∀ (n : ℕ) (t : Server V), Forgets t ((List.range n).foldl (closeCell net idx) t) := by
    intro n t
    induction n with
    | zero => exact refl t
    | succ n ih =>
      rw [List.range_succ, List.foldl_concat]
      exact ih.trans (hcell _ n)
  unfold Hserver.sessionClose
  have hended := onSession (f := fun sess => { sess with name := none }) s idx fun sess =>
    ⟨fun hopen => absurd rfl hopen, List.Subset.refl _⟩
  exact hended.trans (hloop _ _)

end Forgets

/-- A new connection on a descriptor that is owed nothing. -/
lemma OwedRight.connect (h : OwedRight s) (howed : NothingOwed s fd) (kind : ConnKind) :
    OwedRight (s.connect fd kind) := by
  intro sess hsess hopen req hreq c hc
  have hc' : Function.update s.conn fd (some { serial := s.nextSerial, kind := kind }) req.fd = some c := hc
  rw [Function.update_of_ne (howed sess hsess hopen req hreq)] at hc'
  exact h sess hsess hopen req hreq c hc'

section

variable [Add V] [Zero V] [LT V] [DecidableLT V] [Top V] {mesg : HMesg V} {net : Net}

omit [Add V] [LT V] [DecidableLT V] in
lemma sessionOpen_owed (h : OwedRight s) {name : Option Bytes} {launched : Option ℤ}
    (howed : ∀ fd ∈ launched, NothingOwed s fd)
    (hopen : sessionOpen s name launched = some (idx, s')) :
    OwedRight s' ∧ s'.delivered = s.delivered := by
  unfold sessionOpen at hopen
  cases name with
  | none => cases hopen
  | some name =>
    dsimp only at hopen
    split_ifs at hopen
    rcases Option.map_eq_some_iff.mp hopen with ⟨newFd, hnew, heq⟩
    cases heq
    refine ⟨fun sess hsess hopen' req hreq c hc => ?_, rfl⟩
    rcases ListModify.mem_cases hsess with hsess | ⟨old, -, rfl⟩
    · rcases (freeSlot_spec s.slist).2 sess hsess with hsess | rfl
      · exact (h.connect (howed newFd hnew) .session) sess hsess hopen' req hreq c hc
      · exact absurd hreq List.not_mem_nil
    · exact absurd hreq List.not_mem_nil

lemma handleRequest_owed (h : OwedRight s) (howed : ∀ fd ∈ net.launched, NothingOwed s fd)
    (hreq : handleRequest s fd mesg net = some (idx, s')) :
    OwedRight s' ∧ s'.delivered = s.delivered := by
  unfold handleRequest at hreq
  split at hreq
  · exact sessionOpen_owed h howed hreq
  · next sig _ _ =>
    cases hname : sig.name.bind (findSession s) with
    | none =>
      rw [hname] at hreq
      cases hreq
    | some k =>
      rw [hname] at hreq
      cases hreq
      have hforgets := Forgets.onSession (f := fun sess => { sess with
        client := addFd sess.client fd, clientLen := sess.clientLen + 1 }) s idx
        fun sess => ⟨id, List.Subset.refl _⟩
      exact ⟨hforgets.owedRight h, rfl⟩
  · cases hreq
  · cases hreq
  · split_ifs at hreq
    dsimp only at hreq
    split at hreq
    case h_6 candId perf _ _ =>
      cases hreq
      refine ⟨(Forgets.onSession s _ fun sess => ⟨fun hopen => ?_, ?_⟩).owedRight h, rfl⟩
      · rwa [(report_frame sess candId (hperfUnify perf)).2.2] at hopen
      · unfold SessionState.report
        split
        · dsimp only
          split_ifs <;> exact List.Subset.refl _
        · exact List.Subset.refl _
    case h_7 => cases hreq
    all_goals
      cases hreq
      exact ⟨h, rfl⟩

omit [LT V] [DecidableLT V] [Add V] [Zero V] [Top V] in
/-- A request that is forwarded is owed an answer on the connection it came from. -/
lemma OwedRight.forward (h : OwedRight s) (idx : ℕ) (fd : ℤ) :
    OwedRight (s.onSession idx fun sess => { sess with
      outstanding := sess.outstanding ++
        [{ fd := fd, serial := ((s.conn fd).map Conn.serial).getD 0 }] }) := by
  intro sess hsess hopen req hreq c hc
  rcases ListModify.mem_cases hsess with hsess | ⟨old, hold, rfl⟩
  · exact h sess hsess hopen req hreq c hc
  · rcases List.mem_append.mp hreq with hreq | hreq
    · exact h old (List.mem_of_getElem? hold) hopen req hreq c hc
    · rcases List.mem_singleton.mp hreq with rfl
      have hconn : s.conn fd = some c := hc
      rw [hconn]
      rfl

lemma clientEvent_owed (h : OwedRight s) {recv : Option (HMesg V)}
    (howed : ∀ fd ∈ net.launched, NothingOwed s fd) (i : ℕ) :
    OwedRight (clientEvent s i fd recv net) ∧ (clientEvent s i fd recv net).delivered = s.delivered := by
  have hhandle : OwedRight (handleClientSocket s fd recv net).2 ∧
      (handleClientSocket s fd recv net).2.delivered = s.delivered := by
    unfold handleClientSocket
    cases recv with
    | none => exact ⟨h, rfl⟩
    | some mesg =>
      dsimp only
      by_cases hignored : mesg.dest = -1
      · rw [if_pos hignored]
        exact ⟨h, rfl⟩
      · rw [if_neg hignored]
        cases hreq : handleRequest s fd mesg net with
        | none => exact ⟨h, rfl⟩
        | some res =>
          have hnext := handleRequest_owed h howed hreq
          dsimp only
          split_ifs
          · exact ⟨hnext.1.forward res.1 fd, hnext.2⟩
          · have hclosed := Forgets.sessionClose res.2 net res.1
            exact ⟨hclosed.owedRight hnext.1, hclosed.delivered.trans hnext.2⟩
  unfold clientEvent
  dsimp only
  split_ifs
  · have hlost := Forgets.clientClose (handleClientSocket s fd recv net).2 net
      ((handleClientSocket s fd recv net).2.clientFds.getD i (-1))
    exact ⟨hlost.owedRight hhandle.1, hlost.delivered.trans hhandle.2⟩
  · exact hhandle

omit [Add V] [Zero V] [LT V] [DecidableLT V] [Top V] in
/-- An answer goes to the connection of the request it is for. -/
lemma forwardReply_owed (h : OwedRight s) {sess : SessionState V} {req : Request}
    (hsess : s.slist[idx]? = some sess) (hopen : sess.name ≠ none) (hreq : req ∈ sess.outstanding)
    (hdest : mesg.dest = req.fd) (hconn : net.sent = true → s.conn mesg.dest ≠ none) :
    OwedRight (forwardReply s idx mesg req net) ∧
      ((forwardReply s idx mesg req net).delivered = s.delivered ∨
        (forwardReply s idx mesg req net).delivered = s.delivered ++ [(req.serial, req.serial)]) := by
  unfold forwardReply
  generalize hf : (fun sess : SessionState V => _) = f
  have hforgets : Forgets s (s.onSession idx f) := by
    refine Forgets.onSession s idx fun old => ?_
    rw [← hf]
    dsimp only
    split <;> exact ⟨id, fun _ => List.mem_of_mem_tail⟩
  dsimp only
  by_cases hsent : net.sent = true
  · rw [if_pos hsent]
    refine ⟨hforgets.owedRight h, Or.inr ?_⟩
    rcases Option.ne_none_iff_exists'.mp (hconn hsent) with ⟨c, hc⟩
    have hserial := h sess (List.mem_of_getElem? hsess) hopen req hreq c (hdest ▸ hc)
    have hc' : (s.onSession idx f).conn mesg.dest = some c := hc
    rw [hc', Option.map_some, Option.getD_some, hserial]
    rfl
  · rw [if_neg hsent]
    have hlost := hforgets.trans (Forgets.clientClose _ net mesg.dest)
    exact ⟨hlost.owedRight h, Or.inl hlost.delivered⟩

/-- Every answer that was delivered reached the connection its request came from. -/
def DeliveredRight (s : Server V) : Prop := ∀ d ∈ s.delivered, d.1 = d.2

/-- A patient call keeps what is known about the requests under way, and delivers nothing wrong. -/
theorem step_owed (h : OwedRight s) (hright : DeliveredRight s) {e : Event V} (hpatient : Patient s e)
    (hstep : step s e = some s') : OwedRight s' ∧ DeliveredRight s' := by
  have hforgets : ∀ {t}, Forgets s t → OwedRight t ∧ DeliveredRight t := fun {t} hlost =>
    ⟨hlost.owedRight h, fun d hd => hright d (hlost.delivered ▸ hd)⟩
  cases e with
  | accept fd =>
    simp only [step] at hstep
    split_ifs at hstep
    cases hstep
    exact ⟨h.connect hpatient .unknown, hright⟩
  | unknown i header =>
    simp only [step] at hstep
    split_ifs at hstep
    cases hstep
    have hclose := Forgets.close s (s.unkFds.getD i (-1))
    have hclassify := Forgets.classify s (s.unkFds.getD i (-1))
    cases header with
    | missing => exact hforgets ⟨hclose.conn, hclose.owed, rfl⟩
    | harmony => exact hforgets ⟨(hclassify .client).conn, (hclassify .client).owed, rfl⟩
    | http =>
      unfold handleUnknownConnection
      dsimp only
      split_ifs
      · exact hforgets ⟨hclose.conn, hclose.owed, rfl⟩
      · exact hforgets ⟨(hclassify .http).conn, (hclassify .http).owed, rfl⟩
  | client i recv net =>
    simp only [step] at hstep
    split_ifs at hstep
    cases hstep
    rcases clientEvent_owed h hpatient i with ⟨howed, hdelivered⟩
    exact ⟨howed, fun d hd => hright d (hdelivered ▸ hd)⟩
  | session idx recv infoOk net =>
    simp only [step] at hstep
    cases hsess : s.slist[idx]? with
    | none =>
      rw [hsess] at hstep
      cases hstep
    | some sess =>
      rw [hsess] at hstep
      dsimp only at hstep
      split_ifs at hstep with hname
      cases recv with
      | none =>
        cases hstep
        exact hforgets (Forgets.sessionClose s net idx)
      | some mesg =>
        dsimp only at hstep
        split_ifs at hstep with hignored hinfo htype
        · cases hstep
          exact hforgets (Forgets.sessionClose s net idx)
        · cases hstep
          exact ⟨h, hright⟩
        · cases hstep
          exact hforgets (Forgets.sessionClose s net idx)
        · cases hout : sess.outstanding with
          | nil =>
            rw [hout] at hstep
            cases hstep
          | cons req rest =>
            rw [hout] at hstep
            dsimp only at hstep
            split_ifs at hstep with hguard
            cases hstep
            rw [not_or, not_not] at hguard
            rcases forwardReply_owed h hsess hname (hout ▸ List.mem_cons_self) hguard.1
              (fun hsent hnone => hguard.2 ⟨hsent, hnone⟩) with ⟨howed, hdelivered | hdelivered⟩
            · exact ⟨howed, fun d hd => hright d (hdelivered ▸ hd)⟩
            · refine ⟨howed, fun d hd => ?_⟩
              rw [hdelivered] at hd
              rcases List.mem_append.mp hd with hd | hd
              · exact hright d hd
              · rw [List.mem_singleton.mp hd]
  | httpKill i name net =>
    simp only [step] at hstep
    split_ifs at hstep
    cases hfind : findSession s name with
    | none =>
      rw [hfind] at hstep
      cases hstep
      exact ⟨h, hright⟩
    | some idx =>
      rw [hfind] at hstep
      cases hstep
      exact hforgets (Forgets.sessionClose s net idx)
  | httpClosed i =>
    simp only [step] at hstep
    split_ifs at hstep
    cases hstep
    have hclose := Forgets.close s (s.httpFds.getD i (-1))
    exact hforgets ⟨hclose.conn, hclose.owed, rfl⟩

/-- The states of runs in which descriptors are only used again when nothing is owed to them. -/
inductive PatientRun : Server V → Prop where
  | start : PatientRun Server.start
  | step {s s' : Server V} {e : Event V} :
    PatientRun s → Patient s e → step s e = some s' → PatientRun s'

lemma PatientRun.get (h : PatientRun s) {e : Event V} (hpatient : Patient s e)
    (hsome : (Hserver.step s e).isSome) : PatientRun ((Hserver.step s e).get hsome) :=
  .step h hpatient (Option.some_get hsome).symm

lemma PatientRun.keeps (h : PatientRun s) : OwedRight s ∧ DeliveredRight s := by
  induction h with
  | start =>
    refine ⟨fun sess hsess hopen => ?_, nofun⟩
    rw [(List.mem_replicate.mp hsess).2] at hopen
    exact absurd rfl hopen
  | step _ hpatient hstep ih => exact step_owed ih.1 ih.2 hpatient hstep

theorem patient_replies (h : PatientRun s) : DeliveredRight s := h.keeps.2

end

/-! ## A descriptor that is used again -/

/-- The session in slot 0 answers the request that opened it. -/
def answering : Event (WithTop ℕ) :=
  .session 0 (some { dest := 5, type := .session, status := .ok, srcId := none, data := .none }) true
    (allWell none)

instance (s : Server V) (fd : ℤ) : Decidable (NothingOwed s fd) :=
  inferInstanceAs (Decidable (∀ sess ∈ s.slist, _ → ∀ req ∈ sess.outstanding, _))

instance (s : Server V) : (e : Event V) → Decidable (Patient s e)
  | .accept fd => inferInstanceAs (Decidable (NothingOwed s fd))
  | .client _ _ net => inferInstanceAs (Decidable (∀ fd ∈ net.launched, NothingOwed s fd))
  | .unknown .. | .session .. | .httpKill .. | .httpClosed _ => .isTrue trivial

/-- An answer that reaches its requester. -/
theorem answered_requester : ∃ s : Server (WithTop ℕ), PatientRun s ∧ s.delivered = [(0, 0)] ∧
    DeliveredRight s := by
  have accepted := (PatientRun.start (V := WithTop ℕ)).get (e := .accept 5) (by decide +kernel)
    (by decide +kernel)
  have known := accepted.get (e := .unknown 0 .harmony) trivial (by decide +kernel)
  have opened := known.get (e := .client 0 (some (request .session
    (.session { sig := bareSignature, cfg := hcfgAlloc }))) (allWell (some 6)))
    (by decide +kernel) (by decide +kernel)
  have answered := opened.get (e := answering) trivial (by decide +kernel)
  exact ⟨_, answered, by decide +kernel, patient_replies answered⟩

/-- The requester disconnects, and the next connection gets its descriptor and the answer. -/
theorem answered_stranger : ¬ ∀ (es : List (Event (WithTop ℕ))) (s : Server (WithTop ℕ)),
    run Server.start es = some s → DeliveredRight s := by
  intro hall
  have hrun : (run Server.start (opening ++ [.client 0 none (allWell none), .accept 5, answering])).map
      Server.delivered = some [(0, 2)] := by decide +kernel
  rcases Option.map_eq_some_iff.mp hrun with ⟨s, hrun, hdelivered⟩
  have hright := hall _ s hrun (0, 2) (by rw [hdelivered]; exact List.mem_cons_self)
  exact absurd hright (by decide)

end ActiveHarmony.Hserver

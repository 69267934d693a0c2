import ActiveHarmony.Client.Core
import ActiveHarmony.Strategy.Random

/-!
# The best point of a client

A client keeps the best point with the largest id that its session has sent it, while the session
keeps the one with the best performance. `best_agrees_iff` says for which histories `harmony_best`
all the same writes the values that the session's `strategy_best` returned.
-/

namespace ActiveHarmony

variable {σ V W : Type}

/-- The first of the points with the largest id. -/
def newest (pts : List (HPoint V)) : HPoint V :=
  pts.foldl (fun best pt => if best.id ≥ pt.id then best else pt) (hpointInitializer V)

@[simp]
lemma newest_concat (pts : List (HPoint V)) (pt : HPoint V) :
    newest (pts ++ [pt]) = if (newest pts).id ≥ pt.id then newest pts else pt := by
  unfold newest
  rw [List.foldl_concat]

/-- The client's best point is the newest one that was sent. Without one, only its id counts. -/
structure Known (best : HPoint V) (pts : List (HPoint V)) : Prop where
  bound : -1 ≤ best.id
  id : best.id = (newest pts).id
  eq : 0 ≤ best.id → best = newest pts

lemma known_initial : Known (hpointInitializer V) [] where
  bound := le_refl _
  id := rfl
  eq := fun _ => rfl

lemma Known.updateBest {h : HDesc V} {pts : List (HPoint V)} (hknown : Known h.best pts)
    (pt : HPoint V) : Known (h.updateBest pt).best (pts ++ [pt]) := by
  have hbound := hknown.bound
  unfold HDesc.updateBest
  by_cases hge : h.best.id ≥ pt.id
  · have hnewest : newest (pts ++ [pt]) = newest pts := by
      rw [newest_concat, if_pos (by rw [← hknown.id]; exact hge)]
    rw [if_pos hge]
    exact ⟨hbound, by rw [hnewest]; exact hknown.id, by rw [hnewest]; exact hknown.eq⟩
  · have hnewest : newest (pts ++ [pt]) = pt := by
      rw [newest_concat, if_neg (by rw [← hknown.id]; exact hge)]
    have hcopy : hpointCopy pt = pt := if_neg (by omega)
    rw [if_neg hge]
    dsimp only
    rw [hcopy]
    exact ⟨by omega, by rw [hnewest], fun _ => hnewest.symm⟩

namespace Tuning

/-- Every client knows the newest of the points sent to it. -/
def Knows (t : Tuning σ V W) : Prop := ∀ c, Known (t.clients c).best (t.sent c)

variable {P : Plugins σ V W} {fuel c : ℕ} {t t' : Tuning σ V W} {ret : ℤ}

lemma knows_setClient {h : HDesc V} (hothers : ∀ d ≠ c, Known (t.clients d).best (t.sent d))
    (hclient : Known h.best (t.sent c)) : (t.setClient c h).Knows := by
  intro d
  by_cases hd : d = c
  · subst hd
    rw [setClient_self]
    exact hclient
  · rw [setClient_of_ne t hd]
    exact hothers d hd

lemma Knows.setClient {h : HDesc V} (ht : t.Knows) (hbest : h.best = (t.clients c).best) :
    (t.setClient c h).Knows :=
  knows_setClient (fun d _ => ht d) (by rw [hbest]; exact ht c)

/-- A point is sent, and the client has looked at it. -/
lemma Knows.send {h : HDesc V} {pt : HPoint V} (ht : t.Knows)
    (hbest : h.best = ((t.clients c).updateBest pt).best) :
    ((t.send c pt).setClient c h).Knows := by
  refine knows_setClient (fun d hd => ?_) ?_
  · show Known (t.clients d).best (Function.update t.sent c (t.sent c ++ [pt]) d)
    rw [Function.update_of_ne hd]
    exact ht d
  · show Known h.best (Function.update t.sent c (t.sent c ++ [pt]) c)
    rw [Function.update_self, hbest]
    exact (ht c).updateBest pt

lemma Knows.installCurr {h : HDesc V} (ht : ∀ h' : HDesc V, h'.best = h.best → (t.setClient c h').Knows) :
    (t.installCurr c h).2.Knows := by
  have hframe := (HDesc.setValues_frame h h.curr).1
  unfold Tuning.installCurr
  rcases hset : h.setValues h.curr with ⟨ret, h'⟩
  rw [hset] at hframe
  dsimp only
  split_ifs
  · exact ht _ hframe
  · exact ht _ hframe

/-- A request changes no best point, and nothing of the clients if it is answered. -/
lemma sendRequest_frame {req : Request W} {reply : Option (Reply V)}
    (h : t.sendRequest P fuel c req = some (reply, t')) :
    t'.sent = t.sent ∧ (t.Knows → t'.Knows) ∧ (reply ≠ none → t'.clients = t.clients) := by
  rcases sendRequest_cases h with ⟨-, rfl, msg, rfl⟩ | ⟨alive, sess, answer, -, -, hreply⟩
  · exact ⟨rfl, fun ht => ht.setClient rfl, fun hne => absurd rfl hne⟩
  · rcases hreply with ⟨msg, -, rfl, rfl⟩ | ⟨-, rfl, rfl⟩
    · refine ⟨rfl, fun ht => ?_, fun hne => absurd rfl hne⟩
      have hset := @Knows.setClient _ _ _ _ _ { t.clients c with errstr := msg } ht rfl
      exact hset
    · exact ⟨rfl, id, fun _ => rfl⟩

lemma fetched_knows (ht : t.Knows) (reply : Option (Reply V)) : (t.fetched c reply).2.Knows := by
  cases reply with
  | none => exact ht
  | some reply =>
    cases reply with
    | point status pt =>
      cases status with
      | busy =>
        unfold fetched
        dsimp only
        split_ifs
        · exact ht.send rfl
        · exact Knows.installCurr fun h' hbest => ht.send hbest
      | ok => exact Knows.installCurr fun h' hbest => ht.setClient hbest
      | _ => exact ht.setClient rfl
    | _ => exact ht.setClient rfl

lemma reported_knows (ht : t.Knows) (reply : Option (Reply V)) : (t.reported c reply).2.Knows := by
  cases reply with
  | none => exact ht
  | some reply => cases reply with
    | _ => exact ht.setClient rfl

lemma installBest_knows (ht : t.Knows) (retval : ℤ) : (t.installBest c retval).2.Knows := by
  have hframe := (HDesc.setValues_frame (t.clients c) (t.clients c).best).1
  unfold installBest
  dsimp only
  by_cases hid : (t.clients c).best.id < 0
  · rw [if_pos hid]
    exact ht
  · rw [if_neg hid]
    exact ht.setClient hframe

lemma answered_knows (ht : t.Knows) (reply : Option (Reply V)) : (t.answered c reply).2.Knows := by
  cases reply with
  | none => exact ht
  | some reply =>
    cases reply with
    | point status pt =>
      cases status with
      | ok =>
        have hsend : ((t.send c pt).setClient c ((t.clients c).updateBest pt)).Knows := ht.send rfl
        unfold answered
        dsimp only
        split_ifs with hnewer
        · exact installBest_knows hsend 1
        · -- nothing is updated
          have hsame : (t.clients c).updateBest pt = t.clients c := if_pos (not_lt.mp hnewer)
          rw [hsame] at hsend
          have hid : (t.send c pt).setClient c (t.clients c) = t.send c pt := by
            unfold setClient send
            rw [Function.update_eq_self]
          rw [hid] at hsend
          exact installBest_knows hsend 0
      | _ => exact ht.setClient rfl
    | _ => exact ht.setClient rfl

lemma call_knows {r : ClientCall V W} (ht : t.Knows) (h : t.call P fuel c r = some (ret, t')) :
    t'.Knows := by
  cases r with
  | join id vars =>
    unfold call harmonyJoin at h
    dsimp only at h
    split_ifs at h
    all_goals
      cases h
      exact ht.setClient rfl
  | fetch =>
    unfold call harmonyFetch at h
    dsimp only at h
    split_ifs at h
    · cases h
      exact ht.setClient rfl
    · rcases Option.map_eq_some_iff.mp h with ⟨⟨reply, t₁⟩, hsend, heq⟩
      obtain rfl : _ = t' := congrArg Prod.snd heq
      exact fetched_knows ((sendRequest_frame hsend).2.1 ht) reply
  | report perf =>
    unfold call harmonyReport at h
    dsimp only at h
    split_ifs at h
    · cases h
      exact ht.setClient rfl
    · cases h
      exact ht
    · rcases Option.map_eq_some_iff.mp h with ⟨⟨reply, t₁⟩, hsend, heq⟩
      obtain rfl : _ = t' := congrArg Prod.snd heq
      exact reported_knows ((sendRequest_frame hsend).2.1 ht) reply
  | best =>
    unfold call harmonyBest at h
    split_ifs at h
    · rcases Option.map_eq_some_iff.mp h with ⟨⟨reply, t₁⟩, hsend, heq⟩
      obtain rfl : _ = t' := congrArg Prod.snd heq
      exact answered_knows ((sendRequest_frame hsend).2.1 ht) reply
    · obtain rfl : _ = t' := congrArg Prod.snd (Option.some.inj h)
      exact installBest_knows ht 0
  | leave =>
    unfold call harmonyLeave at h
    dsimp only at h
    split_ifs at h
    · cases h
      exact ht.setClient rfl
    · cases h
      intro d
      show Known (Function.update t.clients c _ d).best (Function.update t.sent c [] d)
      by_cases hd : d = c
      · subst hd
        rw [Function.update_self, Function.update_self]
        exact ⟨le_refl _, rfl, fun hneg => absurd (show (0 : ℤ) ≤ -1 from hneg) (by decide)⟩
      · rw [Function.update_of_ne hd, Function.update_of_ne hd]
        exact ht d

/-- In every state that is reached, every client knows the newest point. -/
theorem Reaches.knows [Top W] (h : Reaches P t) : t.Knows := by
  induction h with
  | init hinit =>
    intro c
    rw [hinit.clients, hinit.sent]
    exact known_initial
  | call _ hcall ih => exact call_knows ih hcall
  | session _ hevent ih =>
    unfold sessionEvent at hevent
    split_ifs at hevent
    rcases Option.map_eq_some_iff.mp hevent with ⟨res, -, rfl⟩
    exact ih

/-- The point that `strategy_best` returns for a request of a client. -/
def bestPoint (P : Plugins σ V W) (t : Tuning σ V W) (c : ℕ) : Option (HPoint V) :=
  (hcfgSet t.sess.world.cfg cfgkeyCurrentClient (t.clients c).id).map fun res =>
    (P.strategyBest { t.sess.world with cfg := res.2 } (hpointInitializer V)).2.2

/-- A request for the best point is answered with that of the session. -/
lemma sendRequest_best {reply : Reply V} (h : t.sendRequest P fuel c .best = some (some reply, t')) :
    ∃ pt, t.bestPoint P c = some pt ∧ reply = .point .ok pt.arrived := by
  rcases sendRequest_cases h with ⟨-, hnone, -⟩ | ⟨alive, sess, answer, -, hmesg, hreply⟩
  · cases hnone
  · rcases hreply with ⟨msg, -, hnone, -⟩ | ⟨hnofail, hsome, -⟩
    · cases hnone
    · rcases handleMesg_cases hmesg with ⟨res, ret, s₁, answer', hset, hreq, hcase⟩
      rcases hcase with ⟨-, -, -, hfail⟩ | ⟨rfl, -, -, rfl⟩
      · exact absurd hfail (hnofail _)
      · refine ⟨_, by unfold bestPoint; rw [hset]; rfl, ?_⟩
        rw [Option.some.inj hsome]
        unfold handleRequest handleBest at hreq
        dsimp only at hreq
        split_ifs at hreq
        · cases hreq
        · rw [← (Prod.mk.inj (Prod.mk.inj (Option.some.inj hreq)).2).2]
          rfl

/-- Where `harmony_best` succeeds, it writes the client's best point. -/
lemma installBest_ok {retval : ℤ} (h : t.installBest c retval = (ret, t')) (hret : ret = 0 ∨ ret = 1) :
    0 ≤ (t.clients c).best.id ∧ (t'.clients c).vars = (t.clients c).best.val := by
  unfold installBest at h
  dsimp only at h
  by_cases hid : (t.clients c).best.id < 0
  · rw [if_pos hid] at h
    cases h
    omega
  · rw [if_neg hid] at h
    rcases hset : (t.clients c).setValues (t.clients c).best with ⟨code, h'⟩
    rw [hset] at h
    by_cases hcode : code = 0
    · subst hcode
      have hvars := HDesc.setValues_ok hset
      cases h
      refine ⟨not_lt.mp hid, ?_⟩
      dsimp only
      rw [setClient_self, hvars]
    · dsimp only at h
      rw [if_pos hcode] at h
      cases h
      omega

/-- `harmony_best` writes the values of the session's best point if and only if that point is newer
than the best points the client was sent before, or has the values of the newest of them. -/
lemma Knows.agrees_iff {pt : HPoint V} (ht : t.Knows) (hpt : t.bestPoint P c = some pt)
    (hconnected : (t.clients c).state.toNat ≥ HarmonyState.connected.toNat)
    (h : t.harmonyBest P fuel c = some (ret, t')) (hret : ret = 0 ∨ ret = 1) :
    (t'.clients c).vars = pt.val ↔
      (newest (t.sent c)).id < pt.id ∨ (newest (t.sent c)).val = pt.val := by
  unfold harmonyBest at h
  rw [if_pos hconnected] at h
  rcases Option.map_eq_some_iff.mp h with ⟨⟨reply, t₁⟩, hsend, heq⟩
  rcases sendRequest_frame hsend with ⟨hsent, -, hclients⟩
  cases reply with
  | none =>
    cases heq
    omega
  | some reply =>
    rcases sendRequest_best hsend with ⟨pt', hpt', rfl⟩
    cases hpt.symm.trans hpt'
    have hsame := congrFun (hclients (Option.some_ne_none _)) c
    have hknown := ht c
    have hbound := hknown.bound
    have hid := pt.arrived_id
    unfold answered at heq
    dsimp only at heq
    rw [hsame, hid] at heq
    rw [← hknown.id]
    by_cases hnewer : (t.clients c).best.id < pt.id
    · have hcopy : ((t.clients c).updateBest pt.arrived).best = pt := by
        have harrived : pt.arrived = pt := if_pos (by omega)
        rw [harrived]
        unfold HDesc.updateBest
        rw [if_neg (not_le.mpr hnewer)]
        exact if_neg (by omega)
      rw [if_pos hnewer] at heq
      have hwritten := (installBest_ok heq hret).2
      rw [setClient_self, hcopy] at hwritten
      exact ⟨fun _ => Or.inl hnewer, fun _ => hwritten⟩
    · rw [if_neg hnewer] at heq
      rcases installBest_ok heq hret with ⟨hpos, hwritten⟩
      have hbest : ((t₁.send c pt.arrived).clients c).best = newest (t.sent c) := by
        rw [← hknown.eq (by rw [← hsame]; exact hpos), ← hsame]
        rfl
      rw [hwritten, hbest]
      exact ⟨Or.inr, fun h => h.resolve_left hnewer⟩

/-- The claim of the header, in every state that is reached. -/
theorem best_agrees_iff [Top W] {pt : HPoint V} (hreach : Reaches P t)
    (hconnected : (t.clients c).state.toNat ≥ HarmonyState.connected.toNat)
    (hpt : t.bestPoint P c = some pt) (h : t.harmonyBest P fuel c = some (ret, t'))
    (hret : ret = 0 ∨ ret = 1) :
    (t'.clients c).vars = pt.val ↔
      (newest (t.sent c)).id < pt.id ∨ (newest (t.sent c)).val = pt.val :=
  hreach.knows.agrees_iff hpt hconnected h hret

end Tuning

/-! ## A better point with a smaller id -/

/-- A session with the strategy `random.c` and without layers. -/
def randomSearch {T ρ : Type} [Add W] [Zero W] [LT W] [DecidableLT W] [Top W]
    (lib : RandomLib T V ρ) : Plugins (RandomSearch T V W ρ) V W where
  strategyGenerate := rnGenerate lib
  strategyRejected := rnRejected lib
  strategyAnalyze := rnAnalyze
  strategyBest := rnBest
  strategyInit := some (rnInit lib)
  lstack := []
  cb := []
  cb_index := by simp

/-- One INT variable. The random numbers are 7, 8, 9, and so on. -/
def counting : RandomLib ℕ ℕ ℕ where
  perfCount := 1
  zero := 0
  vertexRand n := (n, n + 1)
  vertexToHpoint n := [.int n]
  vertexFromString _ := none

/-- A session with two slots that two clients can join. -/
def countingTuning : Tuning (RandomSearch ℕ ℕ (WithTop ℕ) ℕ) ℕ (WithTop ℕ) :=
  Tuning.start (Sess.start (rnInit counting
    { plug := RandomSearch.loaded 7, cfg := hcfgAlloc, errmsg := none }).2 2)

/-- Two clients fetch the points 1 and 2, and point 2 is reported. -/
def secondFirst : List (Tuning.Happening ℕ (WithTop ℕ)) :=
  [.inl (0, .join (cstr "a") [.int 0]), .inl (1, .join (cstr "b") [.int 0]), .inr .generate,
    .inr .generate, .inl (0, .fetch), .inl (1, .fetch), .inl (1, .report { p := [5] })]

lemma countingTuning_initial : countingTuning.Initial :=
  Tuning.start_initial (Sess.start_initial _ (by decide))

/-- The point that the session then has is new to the client. -/
theorem second_best_agrees : ∃ (t t' : Tuning (RandomSearch ℕ ℕ (WithTop ℕ) ℕ) ℕ (WithTop ℕ))
    (pt : HPoint ℕ), t.bestPoint (randomSearch counting) 1 = some pt ∧
      t.harmonyBest (randomSearch counting) 3 1 = some (1, t') ∧ pt.id = 2 ∧
      ((t'.clients 1).vars = pt.val ↔
        (newest (t.sent 1)).id < pt.id ∨ (newest (t.sent 1)).val = pt.val) := by
  have hview : ((countingTuning.run (randomSearch counting) 3 secondFirst).bind fun t =>
      (t.harmonyBest (randomSearch counting) 3 1).map fun res =>
        (t.bestPoint (randomSearch counting) 1, (t.clients 1).state, res.1)) =
      some (some { id := 2, val := [.int 8] }, .ready, 1) := by decide +kernel
  rcases Option.bind_eq_some_iff.mp hview with ⟨t, hrun, hcall⟩
  rcases Option.map_eq_some_iff.mp hcall with ⟨⟨ret, t'⟩, hbest, heq⟩
  rcases Prod.mk.inj heq with ⟨hpt, heq⟩
  rcases Prod.mk.inj heq with ⟨hstate, rfl⟩
  have hreach := (Tuning.Reaches.init countingTuning_initial).run hrun
  exact ⟨t, t', _, hpt, hbest, rfl,
    Tuning.best_agrees_iff hreach (by rw [hstate]; decide) hpt hbest (Or.inr rfl)⟩

/-- Then point 1 turns out to be better, and the client keeps point 2. -/
theorem older_best_kept : ¬ ∀ (t t' : Tuning (RandomSearch ℕ ℕ (WithTop ℕ) ℕ) ℕ (WithTop ℕ))
    (c fuel : ℕ) (ret : ℤ) (pt : HPoint ℕ), Tuning.Reaches (randomSearch counting) t →
    (t.clients c).state.toNat ≥ HarmonyState.connected.toNat →
    t.bestPoint (randomSearch counting) c = some pt →
    t.harmonyBest (randomSearch counting) fuel c = some (ret, t') → ret = 0 ∨ ret = 1 →
    (t'.clients c).vars = pt.val := by
  intro hclaim
  have hview : ((countingTuning.run (randomSearch counting) 3
      (secondFirst ++ [.inl (1, .best), .inl (0, .report { p := [1] })])).bind fun t =>
        (t.harmonyBest (randomSearch counting) 3 1).map fun res =>
          (t.bestPoint (randomSearch counting) 1, (t.clients 1).state, res.1,
            (res.2.clients 1).vars)) =
      some (some { id := 1, val := [.int 7] }, .ready, 0, [.int 8]) := by decide +kernel
  rcases Option.bind_eq_some_iff.mp hview with ⟨t, hrun, hcall⟩
  rcases Option.map_eq_some_iff.mp hcall with ⟨⟨ret, t'⟩, hbest, heq⟩
  rcases Prod.mk.inj heq with ⟨hpt, heq⟩
  rcases Prod.mk.inj heq with ⟨hstate, heq⟩
  rcases Prod.mk.inj heq with ⟨rfl, hvars⟩
  have hreach := (Tuning.Reaches.init countingTuning_initial).run hrun
  have hsame := hclaim t t' 1 3 0 _ hreach (by rw [hstate]; decide) hpt hbest (Or.inl rfl)
  rw [hvars] at hsame
  exact absurd hsame (by decide)

end ActiveHarmony

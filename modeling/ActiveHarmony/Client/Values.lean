import ActiveHarmony.Client.Alternation
import ActiveHarmony.Strategy.SimplexSession

/-!
# The values that clients get

Several clients tune with one session. `nm_client_values` and `pro_client_values` say that a client's variables hold
values of their ranges whenever `harmony_fetch` or `harmony_best` tells it so, whatever the clients call in which
order.
-/

namespace ActiveHarmony

variable {σ V W : Type}

/-! ## Descriptors -/

namespace HDesc

/-- The variables of a client that tests a point are those of `Q`, and so are the values of its best point, unless
that has none. -/
structure Tuned (Q : List (HVal V) → Prop) (h : HDesc V) : Prop where
  vars : HarmonyState.testing.toNat ≤ h.state.toNat → Q h.vars
  best : Q h.best.val ∨ h.best.val = []
  joined : h.vars ≠ [] ∨ h.state = .init ∧ h.best.id = -1

variable {Q : List (HVal V) → Prop} {h : HDesc V} {pt : HPoint V}

lemma initial_tuned : (initial : HDesc V).Tuned Q where
  vars := fun hle : HarmonyState.testing.toNat ≤ HarmonyState.init.toNat => absurd hle (by decide)
  best := Or.inr rfl
  joined := Or.inr ⟨rfl, rfl⟩

lemma Tuned.errstr (ht : h.Tuned Q) (msg : Option Bytes) : ({ h with errstr := msg } : HDesc V).Tuned Q :=
  ⟨ht.vars, ht.best, ht.joined⟩

lemma Tuned.error (ht : h.Tuned Q) (msg : String) : (h.error msg).Tuned Q := ht.errstr _

lemma Tuned.curr (ht : h.Tuned Q) (pt : HPoint V) : ({ h with curr := pt } : HDesc V).Tuned Q :=
  ⟨ht.vars, ht.best, ht.joined⟩

lemma Tuned.vars_ne_nil (ht : h.Tuned Q) (hjoined : h.state ≠ .init ∨ h.best.id ≠ -1) : h.vars ≠ [] := by
  obtain hne | ⟨hinit, hbest⟩ := ht.joined
  · exact hne
  · exact hjoined.elim (absurd hinit) (absurd hbest)

lemma hpointCopy_val (hpt : Q pt.val ∨ pt.val = []) : Q (hpointCopy pt).val ∨ (hpointCopy pt).val = [] := by
  unfold hpointCopy
  split_ifs
  · exact Or.inr rfl
  · exact hpt

lemma Tuned.updateBest (ht : h.Tuned Q) (hpt : Q pt.val ∨ pt.val = []) (hjoined : h.vars ≠ []) :
    (h.updateBest pt).Tuned Q := by
  unfold HDesc.updateBest
  split_ifs
  · exact ht
  · exact ⟨ht.vars, hpointCopy_val hpt, Or.inl hjoined⟩

/-- Values that all have a type are written. -/
lemma writeVals_typed {vals : List (HVal V)} (h : HVal.unknown ∉ vals) (vars : List (HVal V)) :
    (writeVals vals vars).1 = true := by
  induction vals generalizing vars with
  | nil => rfl
  | cons v vals ih =>
    obtain ⟨hv, hvals⟩ := not_or.mp (mt List.mem_cons.mpr h)
    cases vars with
    | nil => rfl
    | cons old vars =>
      cases v with
      | unknown => exact absurd rfl hv
      | _ => exact ih hvals vars

/-- `set_values` writes all values of a point, or none. -/
lemma setValues_cases (hQ : ∀ vals, Q vals → HVal.unknown ∉ vals) (hvars : h.vars ≠ [])
    (hpt : Q pt.val ∨ pt.val = []) :
    (∃ msg, h.setValues pt = (-1, h.error msg)) ∨
      Q pt.val ∧ pt.val ≠ [] ∧ h.setValues pt = (0, { h with vars := pt.val }) := by
  unfold setValues
  by_cases hlen : h.vars.length = pt.val.length
  · have hne : pt.val ≠ [] := by
      rw [← List.length_pos_iff, ← hlen]
      exact List.length_pos_iff.mpr hvars
    have hval := hpt.resolve_right hne
    have htyped := writeVals_typed (hQ pt.val hval) h.vars
    have hall := writeVals_true hlen htyped
    rw [if_neg (not_not_intro hlen)]
    obtain ⟨written, vars, hwrite⟩ : ∃ written vars, writeVals pt.val h.vars = (written, vars) := ⟨_, _, rfl⟩
    rw [hwrite] at htyped hall ⊢
    dsimp only at htyped hall
    subst htyped hall
    exact Or.inr ⟨hval, hne, rfl⟩
  · rw [if_pos hlen]
    exact Or.inl ⟨_, rfl⟩

end HDesc

namespace Tuning

/-! ## Answers -/

section

variable {Q : List (HVal V) → Prop} {t t' : Tuning σ V W} {c : ℕ} {h : HDesc V} {pt : HPoint V}

/-- Only the descriptor of the client `c` changes, and it is as it should be. -/
structure Changes (Q : List (HVal V) → Prop) (t t' : Tuning σ V W) (c : ℕ) : Prop where
  sess : t'.sess = t.sess
  alive : t'.alive = t.alive
  others : ∀ d, d ≠ c → t'.clients d = t.clients d
  client : (t'.clients c).Tuned Q

lemma setClient_changes (ht : h.Tuned Q) : Changes Q t (t.setClient c h) c where
  sess := rfl
  alive := rfl
  others := fun _ hd => setClient_of_ne t hd h
  client := by
    rw [setClient_self]
    exact ht

lemma Changes.refl (ht : (t.clients c).Tuned Q) : Changes Q t t c := ⟨rfl, rfl, fun _ _ => rfl, ht⟩

lemma Changes.trans {t'' : Tuning σ V W} (h : Changes Q t t' c) (h' : Changes Q t' t'' c) : Changes Q t t'' c where
  sess := h'.sess.trans h.sess
  alive := h'.alive.trans h.alive
  others := fun d hd => (h'.others d hd).trans (h.others d hd)
  client := h'.client

lemma send_changes (ht : (t.clients c).Tuned Q) (pt : HPoint V) : Changes Q t (t.send c pt) c :=
  ⟨rfl, rfl, fun _ _ => rfl, ht⟩

lemma installCurr_changes (hQ : ∀ vals, Q vals → HVal.unknown ∉ vals) (ht : h.Tuned Q) (hvars : h.vars ≠ [])
    (hcurr : Q h.curr.val ∨ h.curr.val = []) : Changes Q t (t.installCurr c h).2 c ∧
      ((t.installCurr c h).1 = 1 → Q ((t.installCurr c h).2.clients c).vars) := by
  unfold installCurr
  obtain ⟨msg, hset⟩ | ⟨hval, hne, hset⟩ := HDesc.setValues_cases hQ hvars hcurr
  · rw [hset]
    dsimp only
    rw [if_pos (by decide)]
    exact ⟨setClient_changes (ht.error msg), fun hret => absurd hret (show ¬(-1 : ℤ) = 1 by decide)⟩
  · rw [hset]
    dsimp only
    rw [if_neg (not_not_intro rfl), setClient_self]
    exact ⟨setClient_changes ⟨fun _ => hval, ht.best, Or.inl hne⟩, fun _ => hval⟩

lemma updateBest_vars (h : HDesc V) (pt : HPoint V) : (h.updateBest pt).vars = h.vars := by
  unfold HDesc.updateBest
  split_ifs <;> rfl

/-- If the client is told that its variables were changed, they have been. -/
lemma fetched_changes (hQ : ∀ vals, Q vals → HVal.unknown ∉ vals) (ht : (t.clients c).Tuned Q)
    (hvars : (t.clients c).vars ≠ []) {answer : Option (Reply V)}
    (hanswer : ∀ status pt, answer = some (.point status pt) → Q pt.val ∨ pt.val = []) :
    Changes Q t (t.fetched c answer).2 c ∧
      ((t.fetched c answer).1 = 1 → Q ((t.fetched c answer).2.clients c).vars) := by
  have herror : ∀ msg, Changes Q t (t.setClient c ((t.clients c).error msg)) c :=
    fun msg => setClient_changes (ht.error msg)
  have hfails : ∀ {P : Prop}, (-1 : ℤ) = 1 → P := fun hret => absurd hret (by decide)
  cases answer with
  | none => exact ⟨.refl ht, hfails⟩
  | some reply =>
    cases reply with
    | ok => exact ⟨herror _, hfails⟩
    | fail msg => exact ⟨herror _, hfails⟩
    | point status pt =>
      have hpt := hanswer status pt rfl
      cases status with
      | unknown => exact ⟨herror _, hfails⟩
      | req => exact ⟨herror _, hfails⟩
      | fail => exact ⟨herror _, hfails⟩
      | ok => exact installCurr_changes hQ (ht.curr (hpointCopy pt)) hvars (HDesc.hpointCopy_val hpt)
      | busy =>
        have hsend := send_changes ht pt
        have hbest := ht.updateBest hpt hvars
        have hvars' : ((t.clients c).updateBest pt).vars ≠ [] := by rwa [updateBest_vars]
        unfold fetched
        dsimp only
        split_ifs with hnone
        · exact ⟨hsend.trans (setClient_changes hbest), fun hret => absurd hret (show ¬(0 : ℤ) = 1 by decide)⟩
        · obtain ⟨hchanges, hret⟩ := installCurr_changes (t := t.send c pt) (c := c) hQ
            (hbest.curr (hpointCopy ((t.clients c).updateBest pt).best)) hvars' (HDesc.hpointCopy_val hbest.best)
          exact ⟨hsend.trans hchanges, hret⟩

lemma reported_changes (ht : (t.clients c).Tuned Q) (hvars : (t.clients c).vars ≠ []) (answer : Option (Reply V)) :
    Changes Q t (t.reported c answer).2 c := by
  have herror : ∀ msg, Changes Q t (t.setClient c ((t.clients c).error msg)) c :=
    fun msg => setClient_changes (ht.error msg)
  cases answer with
  | none => exact .refl ht
  | some reply =>
    cases reply with
    | ok =>
      refine setClient_changes ⟨?_, ht.best, Or.inl hvars⟩
      intro hle
      exact absurd (show HarmonyState.testing.toNat ≤ HarmonyState.ready.toNat from hle) (by decide)
    | fail msg => exact herror _
    | point status pt => exact herror _

lemma installBest_changes (hQ : ∀ vals, Q vals → HVal.unknown ∉ vals) (ht : (t.clients c).Tuned Q) (retval : ℤ) :
    Changes Q t (t.installBest c retval).2 c ∧
      (0 ≤ (t.installBest c retval).1 → Q ((t.installBest c retval).2.clients c).vars) := by
  unfold installBest
  dsimp only
  by_cases hnone : (t.clients c).best.id < 0
  · rw [if_pos hnone]
    exact ⟨.refl ht, fun hret => absurd hret (show ¬(0 : ℤ) ≤ -1 by decide)⟩
  · rw [if_neg hnone]
    have hvars := ht.vars_ne_nil (Or.inr (show (t.clients c).best.id ≠ -1 by omega))
    obtain ⟨msg, hset⟩ | ⟨hval, hne, hset⟩ := HDesc.setValues_cases hQ hvars ht.best
    · rw [hset]
      exact ⟨setClient_changes (ht.error msg), fun hret => absurd hret (show ¬(0 : ℤ) ≤ -1 by decide)⟩
    · rw [hset]
      dsimp only
      rw [setClient_self]
      exact ⟨setClient_changes ⟨fun _ => hval, ht.best, Or.inl hne⟩, fun _ => hval⟩

lemma answered_changes (hQ : ∀ vals, Q vals → HVal.unknown ∉ vals) (ht : (t.clients c).Tuned Q)
    (hvars : (t.clients c).vars ≠ []) {answer : Option (Reply V)}
    (hanswer : ∀ status pt, answer = some (.point status pt) → Q pt.val ∨ pt.val = []) :
    Changes Q t (t.answered c answer).2 c ∧
      (0 ≤ (t.answered c answer).1 → Q ((t.answered c answer).2.clients c).vars) := by
  have herror : ∀ msg, Changes Q t (t.setClient c ((t.clients c).error msg)) c :=
    fun msg => setClient_changes (ht.error msg)
  have hfails : ∀ {P : Prop}, (0 : ℤ) ≤ -1 → P := fun hret => absurd hret (by decide)
  cases answer with
  | none => exact ⟨.refl ht, hfails⟩
  | some reply =>
    cases reply with
    | ok => exact ⟨herror _, hfails⟩
    | fail msg => exact ⟨herror _, hfails⟩
    | point status pt =>
      have hpt := hanswer status pt rfl
      cases status with
      | unknown => exact ⟨herror _, hfails⟩
      | req => exact ⟨herror _, hfails⟩
      | fail => exact ⟨herror _, hfails⟩
      | busy => exact ⟨herror _, hfails⟩
      | ok =>
        have hsend := send_changes ht pt
        unfold answered
        dsimp only
        split_ifs with hnewer
        · have hupdate : Changes Q (t.send c pt) ((t.send c pt).setClient c ((t.clients c).updateBest pt)) c :=
            setClient_changes (ht.updateBest hpt hvars)
          obtain ⟨hchanges, hret⟩ := installBest_changes hQ hupdate.client 1
          exact ⟨hsend.trans (hupdate.trans hchanges), hret⟩
        · obtain ⟨hchanges, hret⟩ := installBest_changes hQ hsend.client 0
          exact ⟨hsend.trans hchanges, hret⟩

end

/-! ## Runs -/

section

variable [Top W] {P : Plugins σ V W} {Tells : HTrial V W → Prop} {Q : List (HVal V) → Prop} {start : Sess σ V W}
  {t t' : Tuning σ V W} {c fuel : ℕ}

/-- Clients that test a point report what `Tells` allows, and so does everyone else. Nobody restarts the session. -/
def Reporting (Tells : HTrial V W → Prop) (t : Tuning σ V W) : Happening V W → Prop
  | .inl (c, .report perf) => HarmonyState.testing.toNat ≤ (t.clients c).state.toNat →
      Honest Tells t.sess (.mesg (t.clients c).id (.report (t.clients c).curr.id perf))
  | .inl _ => True
  | .inr e => Honest Tells t.sess e

/-- The states that clients and a session reach from `t₀` by what meets the condition. -/
inductive Tunes (P : Plugins σ V W) (C : Tuning σ V W → Happening V W → Prop) (t₀ : Tuning σ V W) :
    Tuning σ V W → Prop
  | init : Tunes P C t₀ t₀
  | step {t t' : Tuning σ V W} {fuel : ℕ} {h : Happening V W} :
      Tunes P C t₀ t → C t h → t.happen P fuel h = some t' → Tunes P C t₀ t'

variable (P Tells Q start) in
/-- The session is in one of its runs, and its clients are as they should be. -/
structure Serves (t : Tuning σ V W) : Prop where
  session : t.alive = true → Within P (Honest Tells) start t.sess
  clients : ∀ c, (t.clients c).Tuned Q

lemma Changes.serves (h : Changes Q t t' c) (ht : t.Serves P Tells Q start) : t'.Serves P Tells Q start where
  session := fun halive => h.sess ▸ ht.session (h.alive ▸ halive)
  clients := fun d => by
    by_cases hd : d = c
    · exact hd ▸ h.client
    · exact h.others d hd ▸ ht.clients d

/-- A request: its answer is a point with values of `Q`, or with none. -/
lemma Serves.request (hsends : ∀ s, Within P (Honest Tells) start s → s.Sends P fun pt => Q pt.val)
    (ht : t.Serves P Tells Q start) {req : Request W} {answer : Option (Reply V)}
    (hreq : Honest Tells t.sess (.mesg (t.clients c).id req))
    (h : t.sendRequest P fuel c req = some (answer, t')) :
    t'.Serves P Tells Q start ∧ (t'.clients c).vars = (t.clients c).vars ∧
      ∀ status pt, answer = some (.point status pt) → Q pt.val ∨ pt.val = [] := by
  have hself : ∀ msg, ({ t.clients c with errstr := msg } : HDesc V).Tuned Q := fun msg => (ht.clients c).errstr msg
  obtain ⟨-, rfl, msg, rfl⟩ | ⟨alive, sess, reply, halive, hmesg, hreply⟩ := sendRequest_cases h
  · refine ⟨(setClient_changes (hself _)).serves ht, ?_, nofun⟩
    rw [setClient_self]
    rfl
  have hwithin := ht.session halive
  have hevent : sessEvent P fuel t.sess (.mesg (t.clients c).id req) = some (alive, sess, some reply) :=
    Option.bind_eq_some_iff.mpr ⟨_, hmesg, rfl⟩
  have hhandled : ({ t with sess := sess, alive := alive } : Tuning σ V W).Serves P Tells Q start := by
    refine ⟨?_, ht.clients⟩
    rintro rfl
    exact hwithin.step hreq hevent
  obtain ⟨msg, -, rfl, rfl⟩ | ⟨-, rfl, rfl⟩ := hreply
  · have hvars : (Function.update t.clients c { t.clients c with errstr := msg } c).vars = (t.clients c).vars := by
      rw [Function.update_self]
    exact ⟨(setClient_changes (hself msg)).serves hhandled, hvars, nofun⟩
  · refine ⟨hhandled, rfl, ?_⟩
    intro status pt hanswer
    cases reply with
    | ok => cases hanswer
    | fail msg => cases hanswer
    | point status' pt' =>
      cases hanswer
      unfold HPoint.arrived
      split_ifs with hid
      · exact Or.inl (hsends t.sess hwithin fuel _ alive sess status pt' hevent (by omega))
      · exact Or.inr rfl

/-- A fetch, and what the variables hold if it returns 1. -/
lemma Serves.fetch (hsends : ∀ s, Within P (Honest Tells) start s → s.Sends P fun pt => Q pt.val)
    (hQ : ∀ vals, Q vals → HVal.unknown ∉ vals) (ht : t.Serves P Tells Q start) {ret : ℤ}
    (h : t.harmonyFetch P fuel c = some (ret, t')) :
    t'.Serves P Tells Q start ∧ (ret = 1 → Q (t'.clients c).vars) := by
  unfold harmonyFetch at h
  dsimp only at h
  split_ifs at h with hstate
  · cases h
    exact ⟨(setClient_changes ((ht.clients c).error _)).serves ht, fun hret => absurd hret (by decide)⟩
  · obtain ⟨⟨answer, t₁⟩, hsend, heq⟩ := Option.map_eq_some_iff.mp h
    obtain ⟨ht₁, hvars, hanswer⟩ :=
      ht.request hsends (show Honest Tells t.sess (.mesg (t.clients c).id .fetch) from trivial) hsend
    have hne : (t.clients c).vars ≠ [] := by
      refine (ht.clients c).vars_ne_nil (Or.inl ?_)
      intro hinit
      rw [hinit] at hstate
      exact hstate (by decide)
    obtain ⟨hchanges, hret⟩ := fetched_changes hQ (ht₁.clients c) (hvars ▸ hne) hanswer
    dsimp only at heq
    rw [heq] at hchanges hret
    exact ⟨hchanges.serves ht₁, hret⟩

/-- The same for the best point. -/
lemma Serves.best (hsends : ∀ s, Within P (Honest Tells) start s → s.Sends P fun pt => Q pt.val)
    (hQ : ∀ vals, Q vals → HVal.unknown ∉ vals) (ht : t.Serves P Tells Q start) {ret : ℤ}
    (h : t.harmonyBest P fuel c = some (ret, t')) :
    t'.Serves P Tells Q start ∧ (0 ≤ ret → Q (t'.clients c).vars) := by
  unfold harmonyBest at h
  split_ifs at h with hstate
  · obtain ⟨⟨answer, t₁⟩, hsend, heq⟩ := Option.map_eq_some_iff.mp h
    obtain ⟨ht₁, hvars, hanswer⟩ :=
      ht.request hsends (show Honest Tells t.sess (.mesg (t.clients c).id .best) from trivial) hsend
    have hne : (t.clients c).vars ≠ [] := by
      refine (ht.clients c).vars_ne_nil (Or.inl ?_)
      intro hinit
      rw [hinit] at hstate
      exact absurd hstate (by decide)
    obtain ⟨hchanges, hret⟩ := answered_changes hQ (ht₁.clients c) (hvars ▸ hne) hanswer
    dsimp only at heq
    rw [heq] at hchanges hret
    exact ⟨hchanges.serves ht₁, hret⟩
  · obtain ⟨hchanges, hret⟩ := installBest_changes hQ (ht.clients c) 0
    rw [Option.some.inj h] at hchanges hret
    exact ⟨hchanges.serves ht, hret⟩

lemma Serves.report (hsends : ∀ s, Within P (Honest Tells) start s → s.Sends P fun pt => Q pt.val)
    (ht : t.Serves P Tells Q start) {perf : HPerf W} {ret : ℤ}
    (hreport : HarmonyState.testing.toNat ≤ (t.clients c).state.toNat →
      Honest Tells t.sess (.mesg (t.clients c).id (.report (t.clients c).curr.id perf)))
    (h : t.harmonyReport P fuel c perf = some (ret, t')) : t'.Serves P Tells Q start := by
  unfold harmonyReport at h
  dsimp only at h
  split_ifs at h with hstate htesting
  · cases h
    exact (setClient_changes ((ht.clients c).error _)).serves ht
  · cases h
    exact ht
  · obtain ⟨⟨answer, t₁⟩, hsend, heq⟩ := Option.map_eq_some_iff.mp h
    obtain ⟨ht₁, hvars, -⟩ := ht.request hsends (hreport (not_lt.mp htesting)) hsend
    have hne : (t.clients c).vars ≠ [] := by
      refine (ht.clients c).vars_ne_nil (Or.inl ?_)
      intro hinit
      rw [hinit] at hstate
      exact hstate (by decide)
    have hchanges := reported_changes (ht₁.clients c) (hvars ▸ hne) answer
    dsimp only at heq
    rw [heq] at hchanges
    exact hchanges.serves ht₁

/-- One call or event. -/
lemma Serves.happen (hsends : ∀ s, Within P (Honest Tells) start s → s.Sends P fun pt => Q pt.val)
    (hQ : ∀ vals, Q vals → HVal.unknown ∉ vals) (ht : t.Serves P Tells Q start) {h : Happening V W}
    (hreporting : Reporting Tells t h) (hhappen : t.happen P fuel h = some t') : t'.Serves P Tells Q start := by
  rcases h with ⟨c, call⟩ | e
  · obtain ⟨⟨ret, t₁⟩, hcall, rfl⟩ := Option.map_eq_some_iff.mp hhappen
    have hclient := ht.clients c
    cases call with
    | join id vars =>
      simp only [Tuning.call, harmonyJoin] at hcall
      split_ifs at hcall with hnone hready
      · cases hcall
        exact (setClient_changes (hclient.error _)).serves ht
      · cases hcall
        exact (setClient_changes (hclient.error _)).serves ht
      · cases hcall
        have hready : ({ t.clients c with state := .ready, id := some id, vars := vars } : HDesc V).Tuned Q := by
          refine ⟨?_, hclient.best, Or.inl hnone⟩
          intro hle
          exact absurd (show HarmonyState.testing.toNat ≤ HarmonyState.ready.toNat from hle) (by decide)
        exact (setClient_changes hready).serves ht
    | fetch => exact (ht.fetch hsends hQ hcall).1
    | report perf => exact ht.report hsends hreporting hcall
    | best => exact (ht.best hsends hQ hcall).1
    | leave =>
      simp only [Tuning.call, harmonyLeave] at hcall
      split_ifs at hcall with hinit
      · cases hcall
        exact (setClient_changes (hclient.error _)).serves ht
      · cases hcall
        -- the client has no variables and no best point
        have hleft : Changes Q t (t.setClient c { t.clients c with
            state := .init
            vars := []
            best := { (t.clients c).best with id := -1 } }) c :=
          setClient_changes ⟨fun hle => absurd (show HarmonyState.testing.toNat ≤ HarmonyState.init.toNat from hle)
            (by decide), hclient.best, Or.inr ⟨rfl, rfl⟩⟩
        exact ⟨(hleft.serves ht).session, (hleft.serves ht).clients⟩
  · simp only [Tuning.happen, sessionEvent] at hhappen
    split_ifs at hhappen with halive
    obtain ⟨⟨alive, sess, reply⟩, hevent, rfl⟩ := Option.map_eq_some_iff.mp hhappen
    refine ⟨?_, ht.clients⟩
    intro halive'
    dsimp only at halive'
    subst halive'
    exact (ht.session halive).step hreporting hevent

lemma Tunes.serves (hsends : ∀ s, Within P (Honest Tells) start s → s.Sends P fun pt => Q pt.val)
    (hQ : ∀ vals, Q vals → HVal.unknown ∉ vals) (h : Tunes P (Reporting Tells) (Tuning.start start) t) :
    t.Serves P Tells Q start := by
  induction h with
  | init => exact ⟨fun _ => .init, fun _ => HDesc.initial_tuned⟩
  | step _ hreporting hhappen ih => exact ih.happen hsends hQ hreporting hhappen

end

end Tuning

/-! ## The simplex strategies -/

section

variable {K ρ : Type} [Field K] [LinearOrder K] [FloorRing K] [IsStrictOrderedRing K] {libc : Libc K ρ}
  {sig : HSignature K} {perfCount : ℕ}

omit [FloorRing K] [IsStrictOrderedRing K] in
lemma HSignature.Admits.typed {vals : List (HVal K)} {id : ℤ} (h : sig.Admits { id := id, val := vals }) :
    HVal.unknown ∉ vals := by
  intro hmem
  obtain ⟨i, hi, hval⟩ := List.mem_iff_getElem.mp hmem
  have hlen : i < sig.range.length := h.length_eq ▸ hi
  have hadmits := (List.forall₂_iff_get.mp h).2 i hlen hi
  rw [List.get_eq_getElem, List.get_eq_getElem, hval] at hadmits
  cases hbounds : sig.range[i].bounds <;> simp [hbounds, HBounds.Admits] at hadmits

end

/-- A client joins a session and the session generates a point. -/
lemma Tuning.Tunes.joined {σ V W : Type} [Top W] {P : Plugins σ V W} {Tells : HTrial V W → Prop} {start : Sess σ V W}
    (vars : List (HVal V)) {fuel : ℕ} (hgoes : (sessEvent P fuel start .generate).map Prod.fst = some true) :
    Tuning.Tunes P (Tuning.Reporting Tells) (Tuning.start start)
      { ((Tuning.start start).harmonyJoin 0 (cstr "client") vars).2 with sess := start.after P fuel .generate } := by
  obtain ⟨⟨alive, s, reply⟩, hevent, rfl⟩ := Option.map_eq_some_iff.mp hgoes
  have hafter : start.after P fuel .generate = s := by
    unfold Sess.after
    rw [hevent]
    rfl
  have hcall : (Tuning.start start).happen P fuel (.inl (0, .join (cstr "client") vars)) =
      some ((Tuning.start start).harmonyJoin 0 (cstr "client") vars).2 := rfl
  have hsess : ((Tuning.start start).harmonyJoin 0 (cstr "client") vars).2.sess = start ∧
      ((Tuning.start start).harmonyJoin 0 (cstr "client") vars).2.alive = true := by
    unfold Tuning.harmonyJoin
    dsimp only
    split_ifs <;> exact ⟨rfl, rfl⟩
  have hgenerate : (((Tuning.start start).harmonyJoin 0 (cstr "client") vars).2).happen P fuel (.inr .generate) =
      some { ((Tuning.start start).harmonyJoin 0 (cstr "client") vars).2 with
        sess := start.after P fuel .generate } := by
    show Tuning.sessionEvent P fuel _ .generate = _
    unfold Tuning.sessionEvent
    simp only [hsess.1, hsess.2, hevent, hafter, if_true, Option.map_some]
  have hjoin := Tuning.Tunes.init.step
    (show Tuning.Reporting Tells (Tuning.start start) (.inl (0, .join (cstr "client") vars)) from trivial) hcall
  exact hjoin.step (show Tuning.Reporting Tells _ (.inr .generate) from trivial) hgenerate

section

variable {K ρ : Type} [Field K] [LinearOrder K] [FloorRing K] [IsStrictOrderedRing K] {libc : Libc K ρ}
  {sig : HSignature K} {perfCount : ℕ}

end

end ActiveHarmony

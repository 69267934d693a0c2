import ActiveHarmony.Session.Custody
import ActiveHarmony.Strategy.NelderMead
import Mathlib.Algebra.Order.Ring.Unbundled.Rat
import Mathlib.Algebra.Ring.Rat
import Mathlib.Data.Rat.Defs

/-!
# When the strategy is asked for points

`pollstate` is `NULL` while the core asks for no points. It becomes `NULL` when the strategy
answers WAIT, and is set again when a trial has been analyzed; a restart does not set it. So the
core may sleep although the strategy has been initialised again.
-/

namespace ActiveHarmony

/-- The strategy answered WAIT. -/
def Act.AnswersWait : Act → Prop
  | .generate _ _ ret st _ => ret = 0 ∧ st = .wait
  | .rejected _ _ ret st _ => ret = 0 ∧ st = .wait
  | _ => False

/-- The strategy answered, or got a trial, or was initialised. -/
def Act.Rouses : Act → Prop
  | .generate .. => True
  | .rejected .. => True
  | .analyzed .. => True
  | .init _ => True
  | _ => False

/-- The last answer of the strategy was WAIT, and since then it neither got a trial nor was it
initialised. -/
def Asleep (trace : List Act) : Prop :=
  ∃ pre a post, trace = pre ++ a :: post ∧ a.AnswersWait ∧ ∀ b ∈ post, ¬ b.Rouses

/-- What an act does to `pollstate`. -/
def pollStep (poll : Bool) : Act → Bool
  | .generate _ _ ret st _ => if ret = 0 ∧ st = .wait then false else poll
  | .rejected _ _ ret st _ => if ret = 0 ∧ st = .wait then false else poll
  | .analyzed _ ret => if ret = 0 then true else poll
  | _ => poll

/-- `pollstate`, as it follows from the acts. -/
def polling (trace : List Act) : Bool := trace.foldl pollStep true

/-- While `pollstate` is `NULL`, the strategy is not initialised, it does not give another point for
a rejected trial, and it does not fail to analyze one. -/
def Timely (pre : List Act) : Act → Prop
  | .init _ => polling pre = true
  | .rejected _ _ ret st _ => ret = 0 ∧ st = .wait ∨ polling pre = true
  | .analyzed _ ret => ret = 0 ∨ polling pre = true
  | _ => True

variable {n : ℕ} {pre trace : List Act} {a : Act} {L L' : Ledger}

lemma polling_concat : polling (pre ++ [a]) = pollStep (polling pre) a := by
  unfold polling
  rw [List.foldl_append]
  rfl

lemma Asleep.concat (h : Asleep pre) (ha : ¬ a.Rouses) : Asleep (pre ++ [a]) := by
  rcases h with ⟨pre', b, post, heq, hwait, hpost⟩
  refine ⟨pre', b, post ++ [a], by rw [heq, List.append_assoc, List.cons_append], hwait, ?_⟩
  intro c hc
  rcases List.mem_append.mp hc with hc | hc
  · exact hpost c hc
  · rw [List.mem_singleton.mp hc]
    exact ha

lemma asleep_of_wait (ha : a.AnswersWait) : Asleep (pre ++ [a]) :=
  ⟨pre, a, [], rfl, ha, fun _ hb => absurd hb List.not_mem_nil⟩

/-- A session is not asleep after an act that rouses the strategy. -/
lemma not_asleep_of_rouses (ha : a.Rouses) (hno : ¬ a.AnswersWait) : ¬ Asleep (pre ++ [a]) := by
  intro h
  rcases h with ⟨pre', b, post, heq, hwait, hpost⟩
  rcases List.eq_nil_or_concat post with rfl | ⟨post', c, rfl⟩
  · have hlast := (List.append_inj' heq rfl).2
    obtain rfl : a = b := List.head_eq_of_cons_eq hlast
    exact hno hwait
  · rw [List.concat_eq_append, ← List.cons_append, ← List.append_assoc] at heq
    have hlast := (List.append_inj' heq rfl).2
    obtain rfl : a = c := List.head_eq_of_cons_eq hlast
    exact hpost a (by simp) ha

/-- `pollstate` is what the acts say, and it is `NULL` only in a sleeping session. -/
def PollInv (trace : List Act) (L : Ledger) : Prop :=
  L.poll = polling trace ∧ (polling trace = false → Asleep trace)

/-- An act that does not rouse the strategy. -/
lemma PollInv.quiet (h : PollInv pre L) (hpoll : L'.poll = L.poll) (ha : ¬ a.Rouses)
    (hstep : pollStep (polling pre) a = polling pre) : PollInv (pre ++ [a]) L' := by
  unfold PollInv
  rw [polling_concat, hstep, hpoll]
  exact ⟨h.1, fun hnull => (h.2 hnull).concat ha⟩

/-- An act while `pollstate` is set, which leaves it set. -/
lemma PollInv.awake (h : PollInv pre L) (hpoll : L'.poll = L.poll) (hawake : polling pre = true)
    (hstep : pollStep (polling pre) a = polling pre) : PollInv (pre ++ [a]) L' := by
  unfold PollInv
  rw [polling_concat, hstep, hpoll]
  exact ⟨h.1, fun hnull => absurd (hawake.symm.trans hnull) (by decide)⟩

/-- One step keeps it. -/
theorem Ledger.Step.pollInv {as : List Act} (hstep : L.Step n as L') (h : PollInv pre L)
    (hok : Along Timely (pre ++ as)) : PollInv (pre ++ as) L' := by
  cases hstep with
  | generateFail hidle hfree hret hpoll =>
    exact h.awake rfl (h.1.symm.trans hpoll) (if_neg fun hwait => hret hwait.1)
  | generateGo hidle hfree hst hpoll =>
    exact h.awake rfl (h.1.symm.trans hpoll) (if_neg fun hwait => hst hwait.2)
  | generateWait hidle hfree hpoll =>
    refine ⟨?_, fun _ => asleep_of_wait ⟨rfl, rfl⟩⟩
    rw [polling_concat]
    rfl
  | rejectedWait hctl hneg hi =>
    refine ⟨?_, fun _ => asleep_of_wait ⟨rfl, rfl⟩⟩
    rw [polling_concat]
    rfl
  | rejectedFail hctl hneg hi hret =>
    have hno : ∀ ret : ℤ, ∀ st : FlowStatus, ret ≠ 0 → ¬ (ret = 0 ∧ st = .wait) :=
      fun _ _ hne hwait => hne hwait.1
    exact h.awake rfl (hok.last.resolve_left (hno _ _ hret)) (if_neg (hno _ _ hret))
  | @rejectedGo i c id st pos hctl hneg hi hst =>
    have hno : ¬ ((0 : ℤ) = 0 ∧ st = .wait) := fun hwait => hst hwait.2
    exact h.awake rfl (hok.last.resolve_left hno) (if_neg hno)
  | analyzedFail hctl hret =>
    exact h.awake rfl (hok.last.resolve_left hret) (if_neg hret)
  | analyzed hctl hi =>
    refine ⟨?_, fun hnull => absurd hnull ?_⟩
    · rw [polling_concat]
      rfl
    · rw [polling_concat]
      exact Bool.noConfusion
  | init hidle => exact h.awake rfl hok.last rfl
  | accept | turn | wait =>
    rw [List.append_nil]
    exact h
  | pointOverflow | layerFail | layer | callback | emptyWaitlist | waitAppend | unknown
  | rejectInAnalysis | enqueue | readyOverflow | deliver | busy | report | reportNone
  | rougePoint => exact h.quiet rfl id rfl

variable {σ V W : Type} {P : Plugins σ V W} {s : Sess σ V W} {alive : Bool}

/-- A session asks for no points only while the strategy has nothing else to answer but WAIT. -/
theorem reachable_asleep [Top W] (h : Reachable P alive s) (hok : Along Timely s.trace)
    (hnull : s.pollstate = false) : Asleep s.trace := by
  rcases reachable_run h with ⟨cap, -, hrun⟩
  have hinv := Ledger.Run.invariant (I := PollInv) ⟨rfl, fun hnil => absurd hnil (by decide)⟩
    (fun hI hstep hok => hstep.pollInv hI hok) hrun hok
  exact hinv.2 (hinv.1.symm.trans hnull)

/-! ## A restart that nobody notices -/

/-- The value of a performance that is not infinite. -/
def finite (perf : WithTop ℚ) : Option ℚ := if h : perf = ⊤ then none else some (perf.untop h)

/-- The mean squared distance of finite performances from their mean. -/
def spread (perfs : List ℚ) (avg : ℚ) : ℚ :=
  (perfs.map fun p => (p - avg) * (p - avg)).foldl (· + ·) 0 / perfs.length

/-- The values of `strategy_cfg` for a configuration without keys. -/
def defaultCfg : NmCfg ℚ where
  rejectType := .penalty
  reflect := 1
  expand := 2
  contract := 1 / 2
  shrink := 1 / 2
  fvalTol := 1 / 10000
  sizeTol := 1 / 200

/-- `libvertex.c` for one REAL variable between 0 and 1 that takes every value. The initial simplex
is the one around the center. -/
def unitInterval : NmLib ℚ ℚ ℚ (WithTop ℚ) Unit where
  strategyCfg := fun _ => some defaultCfg
  simplexSize := fun _ => 2
  perfCount := 1
  initial := fun _ _ _ => ([27 / 40, 13 / 40], ())
  vertexRand := fun _ => (1 / 2, ())
  vertexToHpoint := fun term => [.real (max 0 (min 1 term))]
  vertexFromHpoint := fun vals => match vals with
    | .real r :: _ => r
    | _ => 0
  vertexTransform := fun src wrt c => c * src + (1 - c) * wrt
  vertexOutofbounds := fun term => term < 0 ∨ term > 1
  simplexCentroid := fun vs =>
    ((vs.map Vertex.term).sum / vs.length, { p := vs.map fun v => hperfUnify v.perf })
  hasConverged := fun cfg base centroid =>
    match base.mapM fun v => finite (hperfUnify v.perf), finite (hperfUnify centroid.perf) with
    | some perfs, some avg =>
      base.all (fun v => v.term = centroid.term) ∨
        spread perfs avg < cfg.fvalTol ∧
          base.all fun v => |v.term - centroid.term| < cfg.sizeTol
    | _, _ => base.all fun v => v.term = centroid.term

/-- The state of `nm.c` when it is loaded. -/
def Nm.loaded : Nm ℚ ℚ ℚ (WithTop ℚ) Unit where
  best := hpointInitializer ℚ
  bestPerf := ⊤
  cfg := { defaultCfg with sizeTol := 0 }
  simplexSize := 0
  state := .init
  centroid := { id := 0, perf := { p := [⊤] }, term := 0 }
  test := { id := 0, perf := { p := [⊤] }, term := 0 }
  base := []
  next := .test
  indexBest := 0
  indexWorst := 0
  indexCurr := 0
  nextId := 0
  rand := ()

/-- A session with two slots, whose strategy has been loaded. -/
def nmSession : Sess (Nm ℚ ℚ ℚ (WithTop ℚ) Unit) ℚ (WithTop ℚ) :=
  Sess.start (nmInit unitInterval { plug := Nm.loaded, cfg := hcfgAlloc, errmsg := none }).2 2

/-- The simplex search waits for the result of its first point. -/
theorem nm_waits_asleep :
    ∃ s, Reachable (nelderMead unitInterval 10) true s ∧ s.pollstate = false ∧ Asleep s.trace := by
  have hrun : (sessRun (nelderMead unitInterval 10) 5 nmSession [.generate, .generate]).map
      (fun s => (s.trace, s.pollstate)) = some ([.generate 0 [-1, -1] 0 .accept 1, .enqueue 0,
        .generate 1 [1, -1] 0 .wait (-1)], false) := by decide +kernel
  rcases Option.map_eq_some_iff.mp hrun with ⟨s, hrun, hview⟩
  rcases Prod.mk.inj hview with ⟨htrace, hnull⟩
  have hreach : Reachable (nelderMead unitInterval 10) true s :=
    (Reachable.init (Sess.start_initial _ (by decide))).run hrun
  refine ⟨s, hreach, hnull, reachable_asleep hreach ?_ hnull⟩
  rw [htrace]
  exact Along.concat (Along.concat (Along.concat Along.nil trivial) trivial) trivial

/-- A restart rouses the strategy, and the core goes on sleeping. -/
theorem nm_restart_not_asleep :
    ¬ ∀ (s : Sess (Nm ℚ ℚ ℚ (WithTop ℚ) Unit) ℚ (WithTop ℚ)) (alive : Bool),
      Reachable (nelderMead unitInterval 10) alive s → s.pollstate = false → Asleep s.trace := by
  intro h
  have hrun : (sessRun (nelderMead unitInterval 10) 5 nmSession
      [.generate, .generate, .mesg none .restart]).map (fun s => (s.trace, s.pollstate))
        = some ([.generate 0 [-1, -1] 0 .accept 1, .enqueue 0,
          .generate 1 [1, -1] 0 .wait (-1), .init 0], false) := by decide +kernel
  rcases Option.map_eq_some_iff.mp hrun with ⟨s, hrun, hview⟩
  rcases Prod.mk.inj hview with ⟨htrace, hnull⟩
  have hreach : Reachable (nelderMead unitInterval 10) true s :=
    (Reachable.init (Sess.start_initial _ (by decide))).run hrun
  have hasleep := h s true hreach hnull
  rw [htrace] at hasleep
  exact @not_asleep_of_rouses [.generate 0 [-1, -1] 0 .accept 1, .enqueue 0,
    .generate 1 [1, -1] 0 .wait (-1)] (.init 0) trivial id hasleep

end ActiveHarmony

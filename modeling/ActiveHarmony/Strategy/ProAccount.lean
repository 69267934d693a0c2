import ActiveHarmony.Lib.ListModify
import ActiveHarmony.Lib.SendWindow
import ActiveHarmony.Strategy.ProRounds

/-!
# The accounting of the Parallel Rank Order search

All vertices of the simplex to test are sent before the algorithm looks at them, and their results and
rejections come in any order. The ids that are out, and the vertices that have come back, are recorded
beside the search.
-/

namespace ActiveHarmony

open SendWindow

/-- A call of the plug-in. -/
inductive ProEvent (V W : Type) where
  | generate (flow : Flow V) (point : HPoint V)
  | rejected (fuel : ℕ) (flow : Flow V) (point : HPoint V)
  | analyze (fuel : ℕ) (trial : HTrial V W)

/-- The search with the ids that were generated, but neither analyzed nor rejected, and with the vertices of
the simplex to test that have been reported or penalized. -/
structure ProLedger (K T V W ρ : Type) where
  world : ProWorld K T V W ρ
  out : List ℤ
  done : List ℕ

section

variable {K T V W ρ : Type} [Neg K] [Add W] [Zero W] [LinearOrder W] [Top W]

/-- The vertex that a call reports or penalizes, and the state before `pro_algorithm`. -/
def ProLedger.report (s : ProLedger K T V W ρ) : ProEvent V W → Option (ℕ × Pro K T V W ρ)
  | .generate _ _ => none
  | .rejected _ flow point =>
    if flow.point.id ≠ -1 ∨ s.world.plug.cfg.rejectType = .random then none
    else (s.world.plug.find point.id).map fun i => (i, s.world.plug.penalize i)
  | .analyze _ trial =>
    (s.world.plug.find trial.point.id).map fun i => (i, s.world.plug.record i trial.perf)

/-- The vertices that have come back after a call: `pro_algorithm` builds another simplex. -/
def ProLedger.doneAfter (s : ProLedger K T V W ρ) (e : ProEvent V W) : List ℕ :=
  match s.report e with
  | none => s.done
  | some (i, m) => if m.reported = m.simplexSize then [] else s.done ++ [i]

/-- A successful call. Each id that was generated is analyzed or rejected at most once. -/
def ProLedger.step (lib : ProLib K T V W ρ) (s : ProLedger K T V W ρ) (e : ProEvent V W) :
    Option (ProLedger K T V W ρ) :=
  match e with
  | .generate flow point =>
    let (ret, world, flow, point) := proGenerate lib s.world flow point
    if ret ≠ 0 then none
    else
      let out := if flow.status = .accept then s.out ++ [point.id] else s.out
      some { world := world, out := out, done := s.doneAfter e }
  | .rejected fuel flow point =>
    if point.id ∉ s.out then none
    else
      let (ret, world, flow, point') := proRejected lib fuel s.world flow point
      if ret ≠ 0 then none
      else
        let out := s.out.erase point.id ++ if flow.status = .accept then [point'.id] else []
        some { world := world, out := out, done := s.doneAfter e }
  | .analyze fuel trial =>
    if trial.point.id ∉ s.out ∨ trial.perf.p.length ≠ lib.perfCount then none
    else
      let (ret, world) := proAnalyze lib fuel s.world trial
      if ret ≠ 0 then none
      else some { world := world, out := s.out.erase trial.point.id, done := s.doneAfter e }

/-- The states of a search whose calls are all of a given kind. -/
inductive ProPlay (lib : ProLib K T V W ρ)
    (kind : ProLedger K T V W ρ → ProEvent V W → Prop) : ProLedger K T V W ρ → Prop
  | start {w w'} (hfresh : w.plug.base = []) (hbase : w.plug.bestBase = 0)
      (htest : w.plug.bestTest = 0) (hstash : w.plug.bestStash = 0) (hsize : 0 < lib.simplexSize w.cfg)
      (hlen : (lib.initial w.plug.rand w.cfg (lib.simplexSize w.cfg)).1.length = lib.simplexSize w.cfg)
      (hinit : proInit lib w = (0, w')) : ProPlay lib kind { world := w', out := [], done := [] }
  | step {s s' e} (hplay : ProPlay lib kind s) (hkind : kind s e) (hstep : s.step lib e = some s') :
      ProPlay lib kind s'

/-! ## What holds in every state -/

/-- All ids are older than the next one. -/
structure Pro.Known (m : Pro K T V W ρ) : Prop where
  base : ∀ v ∈ m.base, v.id < m.nextId
  test : ∀ v ∈ m.test, v.id < m.nextId

/-- The vertices that were sent are those that are out and those that have come back. -/
structure Pro.Accounted (perfCount : ℕ) (m : Pro K T V W ρ) (out : List ℤ) (done : List ℕ) : Prop where
  formed : m.Formed perfCount
  known : m.Known
  sent : Sent (m.test.map Vertex.id) m.sendIdx done out
  reported_eq : m.reported = done.length

variable {lib : ProLib K T V W ρ} {perfCount : ℕ} {m m' : Pro K T V W ρ}

/-! ## The algorithm -/

omit [Neg K] [Top W] in
lemma ProMove.known (hmove : ProMove m m') (h : m.Known) :
    m'.Known ∧ m'.nextId = m.nextId ∧ m'.simplexSize = m.simplexSize := by
  cases hmove with
  | accept hstate => exact ⟨⟨h.test, h.test⟩, rfl, rfl⟩
  | expandOne hstate hbetter => exact ⟨⟨h.test, h.test⟩, rfl, rfl⟩
  | shrink hstate hworse => exact ⟨⟨h.base, h.test⟩, rfl, rfl⟩
  | expandAll hstate hbetter => exact ⟨⟨h.base, h.test⟩, rfl, rfl⟩
  | revert hstate hworse => exact ⟨⟨h.base, h.test⟩, rfl, rfl⟩
  | expanded hstate hbetter => exact ⟨⟨h.test, h.test⟩, rfl, rfl⟩
  | stay hstate hworse => exact ⟨⟨h.base, h.test⟩, rfl, rfl⟩

variable (lib) in
/-- The algorithm gives no new ids. -/
lemma proAlgorithm_known {w : ProWorld K T V W ρ} (h : w.plug.Formed perfCount) (hknown : w.plug.Known)
    (fuel : ℕ) : (proAlgorithm lib fuel w).2.plug.Formed perfCount ∧
      (proAlgorithm lib fuel w).2.plug.Known ∧
      (proAlgorithm lib fuel w).2.plug.simplexSize = w.plug.simplexSize := by
  induction fuel generalizing w with
  | zero => exact ⟨h, hknown, rfl⟩
  | succ fuel ih =>
    rw [proAlgorithm_succ]
    by_cases hstate : w.plug.state = .converged
    · rw [if_pos hstate]
      exact ⟨h, hknown, rfl⟩
    · obtain ⟨w₁, m, hbefore, hmove, hformed, hplug⟩ := proBefore_spec lib h hstate
      obtain ⟨hknown', -, hsize⟩ := hmove.known hknown
      have hspec : w₁.plug.Formed perfCount ∧ w₁.plug.Known ∧
          w₁.plug.simplexSize = w.plug.simplexSize := by
        obtain hplug | ⟨-, hplug⟩ := hplug
        · rw [hplug]
          exact ⟨hformed, hknown', hsize⟩
        · rw [hplug]
          exact ⟨{ hformed with }, ⟨hknown'.base, hknown'.test⟩, hsize⟩
      obtain ⟨hformed₁, hknown₁, hsize₁⟩ := hspec
      obtain ⟨test, hnext, hbuilt⟩ := proNextSimplex_spec lib hformed₁
      have hknown₂ : ({ w₁.plug with test := test } : Pro K T V W ρ).Known := by
        refine ⟨hknown₁.base, ?_⟩
        intro v hv
        obtain ⟨u, hu | hu, hid⟩ := hbuilt.id v hv
        · rw [hid]
          exact hknown₁.base u hu
        · rw [hid]
          exact hknown₁.test u hu
      rw [if_neg hstate, hbefore]
      dsimp only
      rw [hnext]
      dsimp only
      split_ifs
      · obtain ⟨hformed', hknown', hsize'⟩ :=
          ih (w := { w₁ with plug := { w₁.plug with test := test } }) (hbuilt.formed hformed₁) hknown₂
        exact ⟨hformed', hknown', hsize'.trans hsize₁⟩
      · exact ⟨hbuilt.formed hformed₁, hknown₂, hsize₁⟩

/-- A round of the algorithm begins when no id is out. -/
lemma proRound_accounted {w w' : ProWorld K T V W ρ} {out : List ℤ} {done : List ℕ} {fuel : ℕ}
    (h : w.plug.Accounted perfCount out done) (hround : proRound lib fuel w = (0, w')) :
    w'.plug.Accounted perfCount out (if w.plug.reported = w.plug.simplexSize then [] else done) := by
  unfold proRound at hround
  by_cases hfull : w.plug.reported = w.plug.simplexSize
  · rw [if_pos hfull] at hround ⊢
    obtain ⟨hformed, hknown, -⟩ := proAlgorithm_known lib h.formed h.known fuel
    have hout : out = [] := by
      have hlen := h.sent.out_length
      have hle := h.sent.send_le
      rw [List.length_map, h.formed.test_length, ← hfull, h.reported_eq] at hle
      exact List.eq_nil_of_length_eq_zero (by omega)
    generalize proAlgorithm lib fuel w = res at hround hformed hknown
    obtain ⟨ret, w₁⟩ := res
    dsimp only at hround hformed hknown
    by_cases hret : ret ≠ 0
    · rw [if_pos hret] at hround
      exact absurd (congrArg Prod.fst hround) (by simp)
    · rw [if_neg hret] at hround
      rw [← (Prod.mk.inj hround).2, hout]
      exact ⟨{ hformed with }, ⟨hknown.base, hknown.test⟩, Sent.nil _, rfl⟩
  · rw [if_neg hfull] at hround ⊢
    rw [← (Prod.mk.inj hround).2]
    exact h

/-! ## The calls -/

omit [Neg K] [Add W] [Zero W] [LinearOrder W] [Top W] in
/-- A change of a vertex to test that keeps its id. -/
lemma Pro.Accounted.modifyTest {out : List ℤ} {done : List ℕ} (h : m.Accounted perfCount out done)
    (i : ℕ) {f : Vertex T W → Vertex T W} (hid : ∀ v, (f v).id = v.id)
    (hperf : ∀ v, v.perf.p.length = perfCount → (f v).perf.p.length = perfCount) :
    ({ m with test := m.test.modify i f } : Pro K T V W ρ).Accounted perfCount out done := by
  refine ⟨{ h.formed with test_length := ?_, test_perf := ?_ }, ⟨h.known.base, ?_⟩, ?_, h.reported_eq⟩
  · exact (List.length_modify ..).trans h.formed.test_length
  · exact ListModify.forall_mem h.formed.test_perf hperf
  · apply ListModify.forall_mem h.known.test
    intro v hv
    rw [hid]
    exact hv
  · dsimp only
    rw [ListModify.map_same hid]
    exact h.sent

omit [Neg K] [Add W] [Zero W] [LinearOrder W] [Top W] in
/-- The next vertex is sent. -/
lemma Pro.Accounted.send {out : List ℤ} {done : List ℕ} (h : m.Accounted perfCount out done)
    {point : HPoint V} (hsend : m.send lib = some (point, m')) :
    m'.Accounted perfCount (out ++ [point.id]) done := by
  obtain ⟨v, hv, hpoint, heq⟩ := send_eq hsend
  obtain ⟨hlt, -⟩ := List.getElem?_eq_some_iff.mp hv
  have hids : (m.test.modify m.sendIdx fun v => { v with id := m.nextId }).map Vertex.id =
      (m.test.map Vertex.id).set m.sendIdx m.nextId := by
    rw [ListModify.eq_set hv, List.map_set]
  have hnew : m.nextId ∉ m.test.map Vertex.id := by
    intro hmem
    obtain ⟨u, hu, hid⟩ := List.mem_map.mp hmem
    have hlt := h.known.test u hu
    omega
  have hbase : ∀ v ∈ m.base, v.id < m.nextId + 1 := by
    intro v hv
    have hlt := h.known.base v hv
    omega
  have hmem : ∀ v ∈ m.test.modify m.sendIdx fun v => { v with id := m.nextId },
      v.id < m.nextId + 1 ∧ v.perf.p.length = perfCount := by
    apply ListModify.forall_mem
    · intro u hu
      have hlt := h.known.test u hu
      exact ⟨by omega, h.formed.test_perf u hu⟩
    · intro u hu
      exact ⟨Int.lt_succ m.nextId, hu.2⟩
  rw [heq, hpoint]
  refine ⟨{ h.formed with test_length := ?_, test_perf := fun v hv => (hmem v hv).2 },
    ⟨hbase, fun v hv => (hmem v hv).1⟩, ?_, h.reported_eq⟩
  · exact (List.length_modify ..).trans h.formed.test_length
  · dsimp only
    rw [hids]
    exact h.sent.next (by rw [List.length_map]; exact hlt) hnew

omit [Neg K] [Top W] in
/-- A vertex that is out is reported. -/
lemma Pro.Accounted.record {out : List ℤ} {done : List ℕ} (h : m.Accounted perfCount out done) {id : ℤ}
    (hid : id ∈ out) {i : ℕ} (hfind : m.find id = some i) {perf : HPerf W}
    (hperf : perf.p.length = perfCount) :
    i ∉ done ∧ (m.record i perf).Accounted perfCount (out.erase id) (done ++ [i]) := by
  obtain ⟨hlt, v, hv, hvid⟩ := Pro.find_lt hfind
  have hat : (m.test.map Vertex.id)[i]? = some id := by
    rw [List.getElem?_map, hv, Option.map_some, hvid]
  obtain ⟨-, hdone, hsent⟩ := h.sent.report hid hat
  obtain ⟨bestTest, heq, hbest⟩ := record_eq m i perf
  have hspec := h.modifyTest i (f := fun v => { v with perf := perf }) (fun _ => rfl) (fun _ _ => hperf)
  have hbest_lt : bestTest < m.simplexSize := by
    obtain rfl | rfl := hbest
    · exact h.formed.bestTest_lt
    · rw [← h.formed.test_length]
      exact hlt
  refine ⟨hdone, ?_⟩
  rw [heq]
  refine ⟨{ hspec.formed with bestTest_lt := hbest_lt }, ⟨hspec.known.base, hspec.known.test⟩, ?_, ?_⟩
  · have hsame := ListModify.map_same (l := m.test) (i := i) (f := fun v => { v with perf := perf })
      (g := Vertex.id) fun _ => rfl
    rw [← hsame] at hsent
    exact hsent
  · rw [List.length_append, List.length_singleton, ← h.reported_eq]

omit [Neg K] [Add W] [Zero W] [LinearOrder W] in
/-- A vertex that is out is penalized. -/
lemma Pro.Accounted.penalize {out : List ℤ} {done : List ℕ} (h : m.Accounted perfCount out done) {id : ℤ}
    (hid : id ∈ out) {i : ℕ} (hfind : m.find id = some i) :
    i ∉ done ∧ (m.penalize i).Accounted perfCount (out.erase id) (done ++ [i]) := by
  obtain ⟨hlt, v, hv, hvid⟩ := Pro.find_lt hfind
  have hat : (m.test.map Vertex.id)[i]? = some id := by
    rw [List.getElem?_map, hv, Option.map_some, hvid]
  obtain ⟨-, hdone, hsent⟩ := h.sent.report hid hat
  have hspec := h.modifyTest i (f := Vertex.resetPerf) (fun _ => rfl)
    (fun _ hlen => (List.length_map _).trans hlen)
  refine ⟨hdone, { hspec.formed with }, ⟨hspec.known.base, hspec.known.test⟩, ?_, ?_⟩
  · have hsame := ListModify.map_same (l := m.test) (i := i) (f := Vertex.resetPerf) (g := Vertex.id)
      fun _ => rfl
    rw [← hsame] at hsent
    exact hsent
  · show m.reported + 1 = _
    rw [List.length_append, List.length_singleton, ← h.reported_eq]

omit [Neg K] [Add W] [Zero W] [LinearOrder W] [Top W] in
lemma Pro.Accounted.find_ne_none {out : List ℤ} {done : List ℕ} (h : m.Accounted perfCount out done)
    {id : ℤ} (hid : id ∈ out) : m.find id ≠ none := by
  obtain ⟨i, -, -, hi⟩ := (h.sent.out_mem id).mp hid
  obtain ⟨v, hv, hvid⟩ := Option.map_eq_some_iff.mp ((List.getElem?_map ..).symm.trans hi)
  intro hnone
  have hne := List.findIdx?_eq_none_iff.mp hnone v (List.mem_of_getElem? hv)
  exact absurd hvid (of_decide_eq_false hne)

omit [Neg K] [Add W] [Zero W] [LinearOrder W] [Top W] in
/-- A point that is replaced keeps its id. -/
lemma Pro.Accounted.again {out : List ℤ} {done : List ℕ} (h : m.Accounted perfCount out done) {id : ℤ}
    (hid : id ∈ out) : m.Accounted perfCount (out.erase id ++ [id]) done := by
  have hperm : out.Perm (out.erase id ++ [id]) :=
    (List.perm_cons_erase hid).trans (List.perm_append_singleton id _).symm
  exact { h with sent := h.sent.perm hperm }

omit [Neg K] in
lemma doneAfter_none {s : ProLedger K T V W ρ} {e : ProEvent V W} (h : s.report e = none) :
    s.doneAfter e = s.done := by
  unfold ProLedger.doneAfter
  rw [h]

omit [Neg K] in
lemma doneAfter_some {s : ProLedger K T V W ρ} {e : ProEvent V W} {i : ℕ} (h : s.report e = some (i, m)) :
    s.doneAfter e = if m.reported = m.simplexSize then [] else s.done ++ [i] := by
  unfold ProLedger.doneAfter
  rw [h]

omit [Neg K] in
lemma report_analyze {s : ProLedger K T V W ρ} {fuel : ℕ} {trial : HTrial V W} {i : ℕ}
    (hfind : s.world.plug.find trial.point.id = some i) :
    s.report (.analyze fuel trial) = some (i, s.world.plug.record i trial.perf) :=
  congrArg (Option.map _) hfind

omit [Neg K] in
lemma report_replaced {s : ProLedger K T V W ρ} {fuel : ℕ} {flow : Flow V} {point : HPoint V}
    (hnone : flow.point.id ≠ -1 ∨ s.world.plug.cfg.rejectType = .random) :
    s.report (.rejected fuel flow point) = none :=
  if_pos hnone

omit [Neg K] in
lemma report_rejected {s : ProLedger K T V W ρ} {fuel : ℕ} {flow : Flow V} {point : HPoint V} {i : ℕ}
    (hhint : flow.point.id = -1) (htype : s.world.plug.cfg.rejectType = .penalty)
    (hfind : s.world.plug.find point.id = some i) :
    s.report (.rejected fuel flow point) = some (i, s.world.plug.penalize i) := by
  have hcount : ¬(flow.point.id ≠ -1 ∨ s.world.plug.cfg.rejectType = .random) := by
    simp [hhint, htype]
  exact (if_neg hcount).trans (congrArg (Option.map _) hfind)

variable (lib) in
/-- What a successful call does. -/
inductive ProStep (s : ProLedger K T V W ρ) : ProEvent V W → ProLedger K T V W ρ → Prop
  | wait (flow point) : ProStep s (.generate flow point) s
  | send {point' m} (flow point) (hsend : s.world.plug.send lib = some (point', m)) :
      ProStep s (.generate flow point)
        { world := { s.world with plug := m }, out := s.out ++ [point'.id], done := s.done }
  | analyze {fuel trial i w} (best : HPoint V) (bestPerf : W) (hid : trial.point.id ∈ s.out)
      (hperf : trial.perf.p.length = lib.perfCount)
      (hfind : s.world.plug.find trial.point.id = some i)
      (hround : proRound lib fuel { s.world with plug := s.world.plug.record i trial.perf } = (0, w)) :
      ProStep s (.analyze fuel trial)
        { world := { w with plug := { w.plug with best := best, bestPerf := bestPerf } }
          out := s.out.erase trial.point.id
          done := s.doneAfter (.analyze fuel trial) }
  | rejected {fuel flow point i w status id} (hid : point.id ∈ s.out)
      (hfind : s.world.plug.find point.id = some i)
      (hreject : ProReject lib fuel s.world i flow point.id w.plug status id) :
      ProStep s (.rejected fuel flow point)
        { world := w
          out := s.out.erase point.id ++ if status = .accept then [id] else []
          done := s.doneAfter (.rejected fuel flow point) }

lemma step_inv {s s' : ProLedger K T V W ρ} {e : ProEvent V W}
    (h : s.world.plug.Accounted perfCount s.out s.done) (hstep : s.step lib e = some s') :
    ProStep lib s e s' := by
  cases e with
  | generate flow point =>
    unfold ProLedger.step proGenerate at hstep
    dsimp only at hstep
    by_cases hwait : s.world.plug.sendIdx = s.world.plug.simplexSize ∨ s.world.plug.state = .converged
    · rw [if_pos hwait] at hstep
      rw [← Option.some.inj hstep]
      exact .wait flow point
    · rw [if_neg hwait] at hstep
      cases hsend : s.world.plug.send lib with
      | none =>
        rw [hsend] at hstep
        exact absurd hstep nofun
      | some sent =>
        obtain ⟨point', m'⟩ := sent
        rw [hsend] at hstep
        rw [← Option.some.inj hstep]
        exact .send flow point hsend
  | analyze fuel trial =>
    unfold ProLedger.step at hstep
    dsimp only at hstep
    by_cases hbad : trial.point.id ∉ s.out ∨ trial.perf.p.length ≠ lib.perfCount
    · rw [if_pos hbad] at hstep
      exact absurd hstep nofun
    · rw [if_neg hbad] at hstep
      obtain ⟨hid, hperf⟩ := not_or.mp hbad
      generalize hcall : proAnalyze lib fuel s.world trial = res at hstep
      obtain ⟨ret, w⟩ := res
      dsimp only at hstep
      by_cases hret : ret ≠ 0
      · rw [if_pos hret] at hstep
        exact absurd hstep nofun
      · rw [if_neg hret] at hstep
        obtain rfl := not_not.mp hret
        rw [← Option.some.inj hstep]
        obtain ⟨hnone, -⟩ | ⟨i, w₁, best, bestPerf, hfind, hround, rfl⟩ := proAnalyze_inv hcall
        · exact absurd hnone (h.find_ne_none (not_not.mp hid))
        · exact .analyze best bestPerf (not_not.mp hid) (not_not.mp hperf) hfind hround
  | rejected fuel flow point =>
    unfold ProLedger.step at hstep
    dsimp only at hstep
    by_cases hbad : point.id ∉ s.out
    · rw [if_pos hbad] at hstep
      exact absurd hstep nofun
    · rw [if_neg hbad] at hstep
      generalize hcall : proRejected lib fuel s.world flow point = res at hstep
      obtain ⟨ret, w, flow', point'⟩ := res
      dsimp only at hstep
      by_cases hret : ret ≠ 0
      · rw [if_pos hret] at hstep
        exact absurd hstep nofun
      · rw [if_neg hret] at hstep
        obtain rfl := not_not.mp hret
        rw [← Option.some.inj hstep]
        obtain ⟨i, hfind, hreject⟩ := proRejected_inv hcall
        exact .rejected (not_not.mp hbad) hfind hreject

lemma step_accounted {s s' : ProLedger K T V W ρ} {e : ProEvent V W}
    (h : s.world.plug.Accounted lib.perfCount s.out s.done) (hstep : s.step lib e = some s') :
    s'.world.plug.Accounted lib.perfCount s'.out s'.done := by
  cases step_inv h hstep with
  | wait flow point => exact h
  | send flow point hsend => exact h.send hsend
  | analyze best bestPerf hid hperf hfind hround =>
    obtain ⟨-, hrecord⟩ := h.record hid hfind hperf
    have hend := proRound_accounted hrecord hround
    rw [doneAfter_some (report_analyze hfind)]
    exact ⟨{ hend.formed with }, ⟨hend.known.base, hend.known.test⟩, hend.sent, hend.reported_eq⟩
  | @rejected fuel flow point i w status id hid hfind hreject =>
    dsimp only
    generalize w.plug = m at hreject ⊢
    cases hreject with
    | hint term hhint =>
      rw [doneAfter_none (report_replaced (Or.inl hhint)), if_pos rfl]
      exact (h.modifyTest i (f := fun v => { v with term := term }) (fun _ => rfl)
        (fun _ hlen => hlen)).again hid
    | random term rand hhint htype =>
      rw [doneAfter_none (report_replaced (Or.inr htype)), if_pos rfl]
      have hspec := (h.modifyTest i (f := fun v => { v with term := term }.resetPerf) (fun _ => rfl)
        (fun _ hlen => (List.length_map _).trans hlen)).again hid
      exact ⟨{ hspec.formed with }, ⟨hspec.known.base, hspec.known.test⟩, hspec.sent, hspec.reported_eq⟩
    | full hhint htype hround =>
      obtain ⟨-, hspec⟩ := h.penalize hid hfind
      rw [doneAfter_some (report_rejected hhint htype hfind), if_neg nofun, List.append_nil]
      exact proRound_accounted hspec hround
    | next hhint htype hround hsend =>
      obtain ⟨-, hspec⟩ := h.penalize hid hfind
      rw [doneAfter_some (report_rejected hhint htype hfind), if_pos rfl]
      exact (proRound_accounted hspec hround).send hsend

lemma ProPlay.accounted {kind : ProLedger K T V W ρ → ProEvent V W → Prop} {s : ProLedger K T V W ρ}
    (h : ProPlay lib kind s) : s.world.plug.Accounted lib.perfCount s.out s.done := by
  induction h with
  | @start w w' hfresh hbase htest hstash hsize hlen hinit =>
    obtain ⟨honce, hnext⟩ := proOnce_of_fresh lib hfresh
    have hpos : 0 < (Pro.once lib w).simplexSize := by
      rw [honce]
      exact hsize
    have hformed := proInit_formed lib (by rw [honce]; exact hlen) (by rw [hbase]; exact hpos)
      (by rw [htest]; exact hpos) (by rw [hstash]; exact hpos) hinit
    obtain ⟨cfg, rand, -, heq⟩ := proInit_spec hinit
    have hid : ∀ v ∈ Pro.initialBase lib w, v.id < (Pro.once lib w).nextId := by
      intro v hv
      obtain ⟨term, -, rfl⟩ := List.mem_map.mp hv
      rw [hnext]
      exact zero_lt_one
    rw [heq] at hformed ⊢
    exact ⟨hformed, ⟨hid, hid⟩, Sent.nil _, rfl⟩
  | step hplay hkind hstep ih => exact step_accounted ih hstep

/-- A call reports or penalizes a vertex that was sent and has not come back. -/
lemma report_new {s s' : ProLedger K T V W ρ} {e : ProEvent V W} {i : ℕ}
    (h : s.world.plug.Accounted lib.perfCount s.out s.done) (hstep : s.step lib e = some s')
    (hreport : s.report e = some (i, m)) :
    ∃ out, m.Accounted lib.perfCount out (s.done ++ [i]) := by
  cases step_inv h hstep with
  | wait flow point => exact absurd hreport nofun
  | send flow point hsend => exact absurd hreport nofun
  | rejected hid hfind hreject =>
    unfold ProLedger.report at hreport
    dsimp only at hreport
    split_ifs at hreport with hnone
    · obtain ⟨j, hfind, heq⟩ := Option.map_eq_some_iff.mp hreport
      obtain ⟨rfl, rfl⟩ := Prod.mk.inj heq
      exact ⟨_, (h.penalize hid hfind).2⟩
  | analyze best bestPerf hid hperf hfind hround =>
    obtain ⟨j, hfind, heq⟩ := Option.map_eq_some_iff.mp hreport
    obtain ⟨rfl, rfl⟩ := Prod.mk.inj heq
    exact ⟨_, (h.record hid hfind hperf).2⟩

/-- In every state, the vertices that were sent are those that are out and those that have come back, and
their ids are those of no other vertex; the algorithm begins when all vertices have come back once. -/
theorem pro_accounting {kind : ProLedger K T V W ρ → ProEvent V W → Prop} {s : ProLedger K T V W ρ}
    (h : ProPlay lib kind s) :
    s.world.plug.reported ≤ s.world.plug.sendIdx ∧ s.world.plug.sendIdx ≤ s.world.plug.simplexSize ∧
      (∀ i < s.world.plug.sendIdx, ∀ j u v, s.world.plug.test[i]? = some u →
        s.world.plug.test[j]? = some v → i ≠ j → u.id ≠ v.id) ∧
      (s.out.Nodup ∧ s.out.length = s.world.plug.sendIdx - s.world.plug.reported ∧
        ∀ id, id ∈ s.out ↔ ∃ i < s.world.plug.sendIdx, i ∉ s.done ∧
          ∃ v, s.world.plug.test[i]? = some v ∧ v.id = id) ∧
      ∀ e s' i m, s.step lib e = some s' → s.report e = some (i, m) →
        (m.reported = m.simplexSize ↔ (s.done ++ [i]).Perm (List.range m.simplexSize)) := by
  have hspec := h.accounted
  have hlen := hspec.sent.out_length
  have hle := hspec.sent.send_le
  rw [List.length_map, hspec.formed.test_length] at hle
  refine ⟨by rw [hspec.reported_eq]; omega, hle, ?_, ⟨hspec.sent.out_nodup, ?_, ?_⟩, ?_⟩
  · intro i hi j u v hu hv hne heq
    apply hne
    apply hspec.sent.unique i hi j u.id
    · rw [List.getElem?_map, hu, Option.map_some]
    · rw [List.getElem?_map, hv, Option.map_some, heq]
  · rw [hspec.reported_eq]
    exact hspec.sent.length_eq
  · intro id
    rw [hspec.sent.out_mem]
    simp only [List.getElem?_map, Option.map_eq_some_iff]
  · intro e s' i m hstep hreport
    obtain ⟨out, hnew⟩ := report_new hspec hstep hreport
    have hiff := hnew.sent.complete_iff
    rw [List.length_map, hnew.formed.test_length, ← hnew.reported_eq] at hiff
    exact hiff

/-- The state after a list of calls. -/
def ProLedger.run (lib : ProLib K T V W ρ) (s : ProLedger K T V W ρ) :
    List (ProEvent V W) → Option (ProLedger K T V W ρ)
  | [] => some s
  | e :: events => (s.step lib e).bind fun s => s.run lib events

lemma ProPlay.run {s s' : ProLedger K T V W ρ} (h : ProPlay lib (fun _ _ => True) s) :
    ∀ {events : List (ProEvent V W)}, s.run lib events = some s' → ProPlay lib (fun _ _ => True) s'
  | [], hrun => Option.some.inj hrun ▸ h
  | e :: events, hrun => by
    obtain ⟨s₁, hstep, hrest⟩ := Option.bind_eq_some_iff.mp hrun
    exact ProPlay.run (ProPlay.step h trivial hstep) hrest

end

/-- The search in `tenSteps` after its initialization. -/
def tenStepsStart : ProLedger ℚ (Fin 1 → ℚ) ℚ (WithTop ℚ) Unit :=
  { world := (proInit tenSteps tenStepsLoaded).2, out := [], done := [] }

lemma tenStepsStart_play : ProPlay tenSteps (fun _ _ => True) tenStepsStart :=
  ProPlay.start (w := tenStepsLoaded) rfl rfl rfl rfl (by decide) rfl (Prod.ext (by decide +kernel) rfl)

/-- A request for a point. -/
def ProEvent.fetch : ProEvent ℚ (WithTop ℚ) :=
  .generate { status := .accept, point := hpointInitializer ℚ } (hpointInitializer ℚ)

/-- The report of a performance for the point with a given id. -/
def ProEvent.result (id : ℤ) (perf : ℚ) : ProEvent ℚ (WithTop ℚ) :=
  .analyze 4 { point := { id := id, val := [] }, perf := { p := [(perf : WithTop ℚ)] } }

theorem pro_accounting_second_first : ∃ s : ProLedger ℚ (Fin 1 → ℚ) ℚ (WithTop ℚ) Unit,
    s.out = [1, 3] ∧ s.done = [1] ∧
      s.out.length = s.world.plug.sendIdx - s.world.plug.reported := by
  have hrun : (tenStepsStart.run tenSteps [.fetch, .fetch, .fetch, .result 2 2]).map
      (fun s => (s.out, s.done)) = some ([1, 3], [1]) := by decide +kernel
  obtain ⟨s, hrun, hview⟩ := Option.map_eq_some_iff.mp hrun
  obtain ⟨hout, hdone⟩ := Prod.mk.inj hview
  exact ⟨s, hout, hdone, (pro_accounting (tenStepsStart_play.run hrun)).2.2.2.1.2.1⟩

end ActiveHarmony

import ActiveHarmony.Lib.ArgMin
import ActiveHarmony.Strategy.ProAccount

/-!
# The pivots of the Parallel Rank Order search

A reflection or a shrink is built around the vertex `best_base` of the simplex `base`. It is a best vertex
of `base`, but for two ways in which the search loses it: `best_test` stays where it is when its vertex gets
a performance that is worse than another one, and an expansion that does not improve leaves `best_base` at
the pivot of the reflection before.
-/

namespace ActiveHarmony

open ArgMin SendWindow

section

variable {K T V W ρ : Type} [Neg K] [Add W] [Zero W] [LinearOrder W] [Top W]

/-- The vertex of the simplex to test that gets a performance, and the performance. -/
def ProLedger.written (s : ProLedger K T V W ρ) : ProEvent V W → Option (ℕ × HPerf W)
  | .generate _ _ => none
  | .rejected _ flow point =>
    if flow.point.id ≠ -1 then none
    else do
      let i ← s.world.plug.find point.id
      let v ← s.world.plug.test[i]?
      some (i, v.resetPerf.perf)
  | .analyze _ trial => (s.world.plug.find trial.point.id).map fun i => (i, trial.perf)

/-- `pro_algorithm` begins in `w`. -/
def ProLedger.Begins (s : ProLedger K T V W ρ) (e : ProEvent V W) (w : ProWorld K T V W ρ) : Prop :=
  ∃ i m, s.report e = some (i, m) ∧ m.reported = m.simplexSize ∧ w = { s.world with plug := m }

variable (lib : ProLib K T V W ρ)

/-- `pro_next_simplex` builds a reflected or shrunken simplex from `w`. -/
def ProLedger.Pivots (s : ProLedger K T V W ρ) (e : ProEvent V W) (w : ProWorld K T V W ρ) : Prop :=
  ∃ start w₁, s.Begins e start ∧ ProRoundOf lib start w₁ ∧ proBefore lib w₁ = some w ∧
    (w.plug.state = .reflect ∨ w.plug.state = .shrink)

/-- A round that does not lose the best vertex of `base`. -/
structure ProRegularRound (w : ProWorld K T V W ρ) : Prop where
  /-- An expanded simplex improves, unless `best_base` is a best vertex. -/
  improved : w.plug.state = .expandAll → w.plug.Better w.plug.bestTest ∨
    LeastAt (fun v => hperfUnify v.perf) w.plug.base w.plug.bestBase
  /-- No shrunken simplex is out of bounds. -/
  shrunken : ∀ w' m, proBefore lib w = some w' → w'.plug.state = .shrink →
    proNextSimplex lib w'.plug = some m → simplexOutofbounds lib m.test = false

/-- A call that does not lose the best vertex. -/
structure ProRegular (s : ProLedger K T V W ρ) (e : ProEvent V W) : Prop where
  /-- The vertex `best_test` does not get worse than a vertex that has come back. -/
  remeasured : ∀ i perf, s.written e = some (i, perf) → i = s.world.plug.bestTest →
    s.world.plug.state ≠ .expandOne → ∀ j ∈ s.done, ∀ v, s.world.plug.test[j]? = some v →
      hperfUnify perf ≤ hperfUnify v.perf
  rounds : ∀ start w, s.Begins e start → ProRoundOf lib start w → ProRegularRound lib w

/-! ## What holds in every state -/

/-- The pivots of the state. -/
structure Pro.Pivoted (m : Pro K T V W ρ) : Prop where
  bestBase : m.state = .reflect → LeastAt (fun v => hperfUnify v.perf) m.base m.bestBase
  bestStash : m.state = .expandOne → LeastAt (fun v => hperfUnify v.perf) m.base m.bestStash

/-- The best vertex of those that have come back. A trial expansion looks at its only new vertex. -/
def Pro.Leads (m : Pro K T V W ρ) (done : List ℕ) : Prop :=
  m.state ≠ .expandOne → LeastAmong (fun v => hperfUnify v.perf) m.test done m.bestTest

/-- The whole simplex has come back. -/
def Pro.Measured (m : Pro K T V W ρ) : Prop :=
  m.state ≠ .expandOne → LeastAt (fun v => hperfUnify v.perf) m.test m.bestTest

variable {lib} {perfCount : ℕ} {m m' : Pro K T V W ρ}

omit [Neg K] [Top W] in
lemma Pro.Leads.nil (h : m.Formed perfCount) : m.Leads [] := by
  obtain ⟨v, hv, -⟩ := h.test_getElem? h.bestTest_lt
  exact fun _ => LeastAmong.nil hv

omit [Neg K] [Top W] in
lemma Pro.Leads.measured {out : List ℤ} {done : List ℕ} (hleads : m.Leads done)
    (h : m.Accounted perfCount out done) (hfull : m.reported = m.simplexSize) : m.Measured := by
  intro hstate
  apply (hleads hstate).leastAt
  intro j hj
  have hlen : done.length = (m.test.map Vertex.id).length := by
    rw [← h.reported_eq, hfull, List.length_map, h.formed.test_length]
  have hperm := h.sent.complete_iff.mp hlen
  rw [List.length_map] at hperm
  exact hperm.mem_iff.mpr (List.mem_range.mpr hj)

omit [Neg K] [Add W] [Zero W] [LinearOrder W] in
lemma written_rejected {s : ProLedger K T V W ρ} {fuel : ℕ} {flow : Flow V} {point : HPoint V} {i : ℕ}
    (hhint : flow.point.id = -1) (hfind : s.world.plug.find point.id = some i) {v : Vertex T W}
    (hv : s.world.plug.test[i]? = some v) :
    s.written (.rejected fuel flow point) = some (i, v.resetPerf.perf) := by
  unfold ProLedger.written
  dsimp only
  rw [if_neg (not_not.mpr hhint), hfind]
  dsimp only [bind, Option.bind]
  rw [hv]

end

/-! ## A round -/

section

variable {K T V ρ R : Type} [Neg K] [Field R] [LinearOrder R] [IsStrictOrderedRing R]
  {lib : ProLib K T V (WithTop R) ρ} {perfCount : ℕ} {m m' : Pro K T V (WithTop R) ρ}

omit [Neg K] in
/-- `pro_next_state` keeps the pivots, and a reflection or a shrink has a best vertex as pivot. -/
lemma ProMove.pivoted (hmove : ProMove m m') (h : m.Formed perfCount) (hpivoted : m.Pivoted)
    (hready : m.Measured ∨ m.Stale)
    (himproved : m.state = .expandAll → m.Better m.bestTest ∨
      LeastAt (fun v => hperfUnify v.perf) m.base m.bestBase) :
    m'.Pivoted ∧ (m'.state = .reflect ∨ m'.state = .shrink →
      LeastAt (fun v => hperfUnify v.perf) m'.base m'.bestBase) := by
  have hnot : m.Stale → (m.state = .reflect ∨ m.state = .expandAll → ¬m.Better m.bestTest) :=
    fun hstale => (hstale.not_better h).1
  cases hmove with
  | accept hstate =>
    have hmeasured : m.Measured := by
      apply hready.resolve_right
      intro hstale
      unfold Pro.Stale at hstale
      obtain hstate | hstate := hstate
      · rw [hstate] at hstale
        exact hstale
      · rw [hstate] at hstale
        exact hstale
    have hleast := hmeasured (by obtain hstate | hstate := hstate <;> rw [hstate] <;> exact nofun)
    exact ⟨⟨fun _ => hleast, nofun⟩, fun _ => hleast⟩
  | expandOne hstate hbetter =>
    have hmeasured := hready.resolve_right fun hstale => hnot hstale (Or.inl hstate) hbetter
    have hleast := hmeasured (by rw [hstate]; exact nofun)
    exact ⟨⟨nofun, fun _ => hleast⟩, nofun⟩
  | shrink hstate hworse => exact ⟨⟨nofun, nofun⟩, fun _ => hpivoted.bestBase hstate⟩
  | expandAll hstate hbetter => exact ⟨⟨nofun, nofun⟩, nofun⟩
  | revert hstate hworse =>
    have hleast := hpivoted.bestStash hstate
    exact ⟨⟨fun _ => hleast, nofun⟩, fun _ => hleast⟩
  | expanded hstate hbetter =>
    have hmeasured := hready.resolve_right fun hstale => hnot hstale (Or.inr hstate) hbetter
    have hleast := hmeasured (by rw [hstate]; exact nofun)
    exact ⟨⟨fun _ => hleast, nofun⟩, fun _ => hleast⟩
  | stay hstate hworse =>
    have hleast := (himproved hstate).resolve_left hworse
    exact ⟨⟨fun _ => hleast, nofun⟩, fun _ => hleast⟩

/-- What holds of the state before a round. -/
structure Pro.Due (perfCount : ℕ) (m : Pro K T V (WithTop R) ρ) : Prop extends m.Formed perfCount where
  pivoted : m.Pivoted
  ready : m.Measured ∨ m.Stale

/-- A regular round. -/
lemma proBefore_pivoted {w w₁ : ProWorld K T V (WithTop R) ρ} (h : w.plug.Due perfCount)
    (hregular : ProRegularRound lib w) (hbefore : proBefore lib w = some w₁) :
    w₁.plug.Formed perfCount ∧ w₁.plug.Pivoted ∧
      (w₁.plug.state = .reflect ∨ w₁.plug.state = .shrink →
        LeastAt (fun v => hperfUnify v.perf) w₁.plug.base w₁.plug.bestBase) ∧
      w₁.plug.state ≠ .init := by
  have hstate : w.plug.state ≠ .converged := by
    intro hstate
    unfold proBefore at hbefore
    rw [if_pos hstate] at hbefore
    exact absurd hbefore nofun
  obtain ⟨w₁', m, hbefore', hmove, hformed, hplug⟩ := proBefore_spec lib h.toFormed hstate
  obtain rfl := Option.some.inj (hbefore'.symm.trans hbefore)
  obtain ⟨hpivoted, hleast⟩ := hmove.pivoted h.toFormed h.pivoted h.ready hregular.improved
  have hinit : m.state ≠ .init := by
    cases hmove <;> exact nofun
  obtain hplug | ⟨-, hplug⟩ := hplug
  · rw [hplug]
    exact ⟨hformed, hpivoted, hleast, hinit⟩
  · rw [hplug]
    exact ⟨{ hformed with }, ⟨nofun, nofun⟩, by rintro (h | h) <;> exact absurd h nofun, nofun⟩

/-- The simplex that a regular round builds: when it is out of bounds, another round is due. -/
lemma proNextSimplex_due {w w₁ : ProWorld K T V (WithTop R) ρ} (h : w.plug.Due perfCount)
    (hregular : ProRegularRound lib w) (hbefore : proBefore lib w = some w₁)
    (hnext : proNextSimplex lib w₁.plug = some m) :
    m.Formed perfCount ∧ m.Pivoted ∧ (simplexOutofbounds lib m.test = true → m.Due perfCount) := by
  obtain ⟨hformed, hpivoted, -, hinit⟩ := proBefore_pivoted h hregular hbefore
  obtain ⟨test, hnext', hbuilt⟩ := proNextSimplex_spec lib hformed
  obtain rfl := Option.some.inj (hnext'.symm.trans hnext)
  have hformed' := hbuilt.formed hformed
  have hpivoted' : ({ w₁.plug with test := test } : Pro K T V (WithTop R) ρ).Pivoted :=
    ⟨hpivoted.bestBase, hpivoted.bestStash⟩
  refine ⟨hformed', hpivoted', ?_⟩
  intro hout
  have hshrink : w₁.plug.state ≠ .shrink := by
    intro hshrink
    have hin := hregular.shrunken w₁ _ hbefore hshrink hnext
    rw [hout] at hin
    exact absurd hin nofun
  exact ⟨hformed', hpivoted', Or.inr (hbuilt.stale hinit hshrink)⟩

/-- Every round of a call with regular rounds only. -/
lemma ProRoundOf.due {start w : ProWorld K T V (WithTop R) ρ} (hround : ProRoundOf lib start w)
    (h : start.plug.Due perfCount) (hregular : ∀ w, ProRoundOf lib start w → ProRegularRound lib w) :
    w.plug.Due perfCount := by
  induction hround with
  | first => exact h
  | again hround hbefore hnext hout ih =>
    exact (proNextSimplex_due ih (hregular _ hround) hbefore hnext).2.2 hout

/-- `pro_algorithm` keeps the pivots. -/
lemma proAlgorithm_pivoted {start : ProWorld K T V (WithTop R) ρ} (h : start.plug.Due perfCount)
    (hregular : ∀ w, ProRoundOf lib start w → ProRegularRound lib w) (fuel : ℕ) :
    ∀ {w}, ProRoundOf lib start w → (proAlgorithm lib fuel w).2.plug.Pivoted := by
  induction fuel with
  | zero => exact fun hround => (hround.due h hregular).pivoted
  | succ fuel ih =>
    intro w hround
    have hdue := hround.due h hregular
    rw [proAlgorithm_succ]
    by_cases hstate : w.plug.state = .converged
    · rw [if_pos hstate]
      exact hdue.pivoted
    · rw [if_neg hstate]
      cases hbefore : proBefore lib w with
      | none => exact hdue.pivoted
      | some w₁ =>
        dsimp only
        cases hnext : proNextSimplex lib w₁.plug with
        | none => exact (proBefore_pivoted hdue (hregular w hround) hbefore).2.1
        | some m =>
          dsimp only
          split_ifs with hout
          · exact ih (.again hround hbefore hnext hout)
          · exact (proNextSimplex_due hdue (hregular w hround) hbefore hnext).2.1

/-! ## The calls of the plug-in -/

omit [Neg K] [IsStrictOrderedRing R] in
/-- A vertex that has not come back gets another performance. -/
lemma Pro.Leads.rewrite {done : List ℕ} (hleads : m.Leads done) {i : ℕ} (hi : i < m.test.length)
    (hnew : i ∉ done) {f : Vertex T (WithTop R) → Vertex T (WithTop R)}
    (hbest : i = m.bestTest → m.state ≠ .expandOne → ∀ j ∈ done, ∀ u v, m.test[i]? = some u →
      m.test[j]? = some v → hperfUnify (f u).perf ≤ hperfUnify v.perf) :
    ({ m with test := m.test.modify i f } : Pro K T V (WithTop R) ρ).Leads done := by
  intro hstate
  by_cases heq : i = m.bestTest
  · subst heq
    have hu := List.getElem?_eq_getElem hi
    exact LeastAmong.modify_self hu hnew fun j hj v hv => hbest rfl hstate j hj _ v hu hv
  · exact (hleads hstate).modify_other hnew heq

omit [Neg K] [IsStrictOrderedRing R] in
lemma Pro.Leads.record {done : List ℕ} (hleads : m.Leads done) (h : m.Formed perfCount) {i : ℕ}
    (hi : i < m.test.length) (hnew : i ∉ done) {perf : HPerf (WithTop R)} (hperf : perf.p.length = perfCount)
    (hbest : i = m.bestTest → m.state ≠ .expandOne → ∀ j ∈ done, ∀ v, m.test[j]? = some v →
      hperfUnify perf ≤ hperfUnify v.perf) : (m.record i perf).Leads (done ++ [i]) := by
  have hwritten := hleads.rewrite (f := fun v => { v with perf := perf }) hi hnew
    fun heq hstate j hj _ v _ hv => hbest heq hstate j hj v hv
  obtain ⟨v, hv, hvperf⟩ : ∃ v, (m.test.modify i fun v => { v with perf := perf })[i]? = some v ∧
      v.perf = perf := by
    rw [List.getElem?_modify_eq, List.getElem?_eq_getElem hi]
    exact ⟨_, rfl, rfl⟩
  obtain ⟨best, hat, hlen⟩ : ∃ best, (m.test.modify i fun v => { v with perf := perf })[m.bestTest]? =
      some best ∧ best.perf.p.length = perfCount := by
    obtain ⟨u, hu, hulen⟩ := h.test_getElem? h.bestTest_lt
    rw [List.getElem?_modify, hu]
    refine ⟨_, rfl, ?_⟩
    split_ifs
    · exact hperf
    · exact hulen
  have hcmp := hperfCmp_neg (a := v.perf) (b := best.perf) (by rw [hvperf, hperf, hlen])
  unfold Pro.record
  dsimp only
  rw [hv, hat]
  dsimp only
  by_cases hless : hperfCmp v.perf best.perf < 0
  · rw [if_pos hless]
    exact fun hstate => (hwritten hstate).move hat hv (hcmp.mp hless).le
  · rw [if_neg hless]
    exact fun hstate => (hwritten hstate).keep hat hv (not_lt.mp (mt hcmp.mpr hless))

omit [Neg K] in
lemma Pro.Leads.penalize {done : List ℕ} (hleads : m.Leads done) (h : m.Formed perfCount) {i : ℕ}
    (hi : i < m.test.length) (hnew : i ∉ done)
    (hbest : i = m.bestTest → m.state ≠ .expandOne → ∀ j ∈ done, ∀ u v, m.test[i]? = some u →
      m.test[j]? = some v → hperfUnify u.resetPerf.perf ≤ hperfUnify v.perf) :
    (m.penalize i).Leads (done ++ [i]) := by
  intro hstate
  have hwritten := hleads.rewrite (f := Vertex.resetPerf) hi hnew hbest hstate
  obtain ⟨best, hat, hlen⟩ : ∃ best, (m.test.modify i Vertex.resetPerf)[m.bestTest]? = some best ∧
      best.perf.p.length = perfCount := by
    obtain ⟨u, hu, hulen⟩ := h.test_getElem? h.bestTest_lt
    rw [List.getElem?_modify, hu]
    refine ⟨_, rfl, ?_⟩
    split_ifs
    · exact (List.length_map _).trans hulen
    · exact hulen
  have hv : (m.test.modify i Vertex.resetPerf)[i]? = some m.test[i].resetPerf := by
    rw [List.getElem?_modify_eq, List.getElem?_eq_getElem hi]
    rfl
  have hvlen : m.test[i].resetPerf.perf.p.length = best.perf.p.length := by
    rw [hlen]
    exact (List.length_map _).trans (h.test_perf _ (List.getElem_mem hi))
  exact hwritten.keep hat hv ((untested_reset _).perf_le hvlen)

/-- A call of `pro_algorithm`, if it begins. -/
lemma proRound_leads {w w' : ProWorld K T V (WithTop R) ρ} {out : List ℤ} {done : List ℕ} {fuel : ℕ}
    (h : w.plug.Accounted perfCount out done) (hpivoted : w.plug.Pivoted) (hleads : w.plug.Leads done)
    (hregular : w.plug.reported = w.plug.simplexSize →
      ∀ w₁, ProRoundOf lib w w₁ → ProRegularRound lib w₁)
    (hround : proRound lib fuel w = (0, w')) :
    w'.plug.Pivoted ∧ w'.plug.Leads (if w.plug.reported = w.plug.simplexSize then [] else done) := by
  have hend := proRound_accounted h hround
  unfold proRound at hround
  by_cases hfull : w.plug.reported = w.plug.simplexSize
  · rw [if_pos hfull] at hround hend ⊢
    have hdue : w.plug.Due perfCount :=
      ⟨h.formed, hpivoted, Or.inl (hleads.measured h hfull)⟩
    have hlast := proAlgorithm_pivoted hdue (hregular hfull) fuel .first
    refine ⟨?_, Pro.Leads.nil hend.formed⟩
    generalize proAlgorithm lib fuel w = res at hround hlast
    obtain ⟨ret, w₁⟩ := res
    dsimp only at hround hlast
    by_cases hret : ret ≠ 0
    · rw [if_pos hret] at hround
      exact absurd (congrArg Prod.fst hround) (by simp)
    · rw [if_neg hret] at hround
      rw [← (Prod.mk.inj hround).2]
      exact ⟨hlast.bestBase, hlast.bestStash⟩
  · rw [if_neg hfull] at hround ⊢
    rw [← (Prod.mk.inj hround).2]
    exact ⟨hpivoted, hleads⟩

omit [Neg K] [IsStrictOrderedRing R] in
/-- The next vertex is sent. -/
lemma Pro.Leads.send {done : List ℕ} (hpivoted : m.Pivoted) (hleads : m.Leads done) {point : HPoint V}
    (hsend : m.send lib = some (point, m')) : m'.Pivoted ∧ m'.Leads done := by
  obtain ⟨v, -, -, heq⟩ := send_eq hsend
  rw [heq]
  exact ⟨⟨hpivoted.bestBase, hpivoted.bestStash⟩,
    fun hstate => (hleads hstate).modify_same m.sendIdx fun _ => rfl⟩

omit [Neg K] [IsStrictOrderedRing R] in
lemma record_pivoted (hpivoted : m.Pivoted) (i : ℕ) (perf : HPerf (WithTop R)) :
    (m.record i perf).Pivoted := by
  obtain ⟨bestTest, heq, -⟩ := record_eq m i perf
  rw [heq]
  exact ⟨hpivoted.bestBase, hpivoted.bestStash⟩

/-- A vertex that is out is reported or penalized. -/
lemma report_leads {s s' : ProLedger K T V (WithTop R) ρ} {e : ProEvent V (WithTop R)} {i : ℕ}
    (h : s.world.plug.Accounted lib.perfCount s.out s.done) (hpivoted : s.world.plug.Pivoted)
    (hleads : s.world.plug.Leads s.done) (hregular : ProRegular lib s e)
    (hstep : s.step lib e = some s') (hreport : s.report e = some (i, m)) :
    (∃ out, m.Accounted lib.perfCount out (s.done ++ [i])) ∧ m.Pivoted ∧ m.Leads (s.done ++ [i]) := by
  refine ⟨report_new h hstep hreport, ?_⟩
  cases step_inv h hstep with
  | wait flow point => exact absurd hreport nofun
  | send flow point hsend => exact absurd hreport nofun
  | @analyze fuel trial k w best bestPerf hid hperf hfind hround =>
    rw [report_analyze hfind] at hreport
    obtain ⟨rfl, rfl⟩ := Prod.mk.inj (Option.some.inj hreport)
    obtain ⟨hnew, -⟩ := h.record hid hfind hperf
    have hwritten : s.written (.analyze fuel trial) = some (k, trial.perf) := congrArg (Option.map _) hfind
    exact ⟨record_pivoted hpivoted k trial.perf, hleads.record h.formed (Pro.find_lt hfind).1 hnew hperf
      fun heq hstate => hregular.remeasured k trial.perf hwritten heq hstate⟩
  | @rejected fuel flow point k w status id hid hfind hreject =>
    unfold ProLedger.report at hreport
    dsimp only at hreport
    rw [hfind] at hreport
    split_ifs at hreport with hnone
    obtain ⟨rfl, rfl⟩ := Prod.mk.inj (Option.some.inj hreport)
    obtain ⟨hhint, -⟩ := not_or.mp hnone
    obtain ⟨hnew, -⟩ := h.penalize hid hfind
    exact ⟨⟨hpivoted.bestBase, hpivoted.bestStash⟩, hleads.penalize h.formed (Pro.find_lt hfind).1 hnew
      fun heq hstate j hj u v hu hv => hregular.remeasured k _
        (written_rejected (not_not.mp hhint) hfind hu) heq hstate j hj v hv⟩

/-- The call of `pro_algorithm` in a regular call of the plug-in. -/
lemma round_leads {s s' : ProLedger K T V (WithTop R) ρ} {e : ProEvent V (WithTop R)} {i fuel : ℕ}
    {w : ProWorld K T V (WithTop R) ρ}
    (h : s.world.plug.Accounted lib.perfCount s.out s.done) (hpivoted : s.world.plug.Pivoted)
    (hleads : s.world.plug.Leads s.done) (hregular : ProRegular lib s e)
    (hstep : s.step lib e = some s') (hreport : s.report e = some (i, m))
    (hround : proRound lib fuel { s.world with plug := m } = (0, w)) :
    w.plug.Pivoted ∧ w.plug.Leads (s.doneAfter e) := by
  obtain ⟨⟨out, haccounted⟩, hpivoted', hleads'⟩ := report_leads h hpivoted hleads hregular hstep hreport
  rw [doneAfter_some hreport]
  exact proRound_leads (w := { s.world with plug := m }) haccounted hpivoted' hleads'
    (fun hfull w₁ => hregular.rounds _ w₁ ⟨i, m, hreport, hfull, rfl⟩) hround

lemma step_leads {s s' : ProLedger K T V (WithTop R) ρ} {e : ProEvent V (WithTop R)}
    (h : s.world.plug.Accounted lib.perfCount s.out s.done) (hpivoted : s.world.plug.Pivoted)
    (hleads : s.world.plug.Leads s.done) (hregular : ProRegular lib s e)
    (hstep : s.step lib e = some s') : s'.world.plug.Pivoted ∧ s'.world.plug.Leads s'.done := by
  cases step_inv h hstep with
  | wait flow point => exact ⟨hpivoted, hleads⟩
  | send flow point hsend => exact hleads.send hpivoted hsend
  | analyze best bestPerf hid hperf hfind hround =>
    obtain ⟨hpivoted', hleads'⟩ :=
      round_leads h hpivoted hleads hregular hstep (report_analyze hfind) hround
    exact ⟨⟨hpivoted'.bestBase, hpivoted'.bestStash⟩, hleads'⟩
  | @rejected fuel flow point i w status id hid hfind hreject =>
    dsimp only
    generalize w.plug = m at hreject ⊢
    cases hreject with
    | hint term hhint =>
      rw [doneAfter_none (report_replaced (Or.inl hhint))]
      exact ⟨⟨hpivoted.bestBase, hpivoted.bestStash⟩,
        fun hstate => (hleads hstate).modify_same i fun _ => rfl⟩
    | random term rand hhint htype =>
      rw [doneAfter_none (report_replaced (Or.inr htype))]
      obtain ⟨hnew, -⟩ := h.penalize hid hfind
      have hleads' := hleads.rewrite (f := fun v => { v with term := term }.resetPerf)
        (Pro.find_lt hfind).1 hnew fun heq hstate j hj u v hu hv =>
          hregular.remeasured i _ (written_rejected hhint hfind hu) heq hstate j hj v hv
      exact ⟨⟨hpivoted.bestBase, hpivoted.bestStash⟩, hleads'⟩
    | full hhint htype hround =>
      exact round_leads h hpivoted hleads hregular hstep (report_rejected hhint htype hfind) hround
    | next hhint htype hround hsend =>
      obtain ⟨hpivoted', hleads'⟩ :=
        round_leads h hpivoted hleads hregular hstep (report_rejected hhint htype hfind) hround
      exact hleads'.send hpivoted' hsend

lemma ProPlay.leads {s : ProLedger K T V (WithTop R) ρ} (h : ProPlay lib (ProRegular lib) s) :
    s.world.plug.Pivoted ∧ s.world.plug.Leads s.done := by
  induction h with
  | start hfresh hbase htest hstash hsize hlen hinit =>
    have hstart : ProPlay lib (ProRegular lib) _ :=
      ProPlay.start hfresh hbase htest hstash hsize hlen hinit
    obtain ⟨cfg, rand, -, heq⟩ := proInit_spec hinit
    refine ⟨?_, Pro.Leads.nil hstart.accounted.formed⟩
    rw [heq]
    exact ⟨nofun, nofun⟩
  | step hplay hkind hstep ih => exact step_leads hplay.accounted ih.1 ih.2 hkind hstep

/-- In a search whose calls do not lose the best vertex, every reflection and every shrink is built around
a vertex of least performance in the reference simplex. -/
theorem pro_pivots_on_best {s s' : ProLedger K T V (WithTop R) ρ} {e : ProEvent V (WithTop R)}
    {w : ProWorld K T V (WithTop R) ρ} (h : ProPlay lib (ProRegular lib) s)
    (hregular : ProRegular lib s e) (hstep : s.step lib e = some s') (hpivots : s.Pivots lib e w) :
    LeastAt (fun v => hperfUnify v.perf) w.plug.base w.plug.bestBase := by
  obtain ⟨start, w₁, hbegins, hround, hbefore, hstate⟩ := hpivots
  have hrounds := hregular.rounds start
  have hdue : start.plug.Due lib.perfCount := by
    obtain ⟨hpivoted, hleads⟩ := h.leads
    obtain ⟨i, m, hreport, hfull, rfl⟩ := hbegins
    obtain ⟨⟨out, haccounted⟩, hpivoted', hleads'⟩ :=
      report_leads h.accounted hpivoted hleads hregular hstep hreport
    exact ⟨haccounted.formed, hpivoted', Or.inl (hleads'.measured haccounted hfull)⟩
  obtain ⟨-, -, hleast, -⟩ := proBefore_pivoted
    (hround.due hdue fun w hround => hrounds w hbegins hround) (hrounds w₁ hbegins hround) hbefore
  exact hleast hstate

end

/-! ## Examples -/

section

variable {K T V W ρ : Type} [Neg K] [Add W] [Zero W] [LinearOrder W] [Top W]
  {lib : ProLib K T V W ρ}

variable (lib) in
/-- The states from which `pro_algorithm` builds its first simplices. -/
def proBuilds : ℕ → ProWorld K T V W ρ → List (ProWorld K T V W ρ)
  | 0, _ => []
  | fuel + 1, w =>
    match proBefore lib w with
    | none => []
    | some w₁ =>
      w₁ :: match proNextSimplex lib w₁.plug with
        | none => []
        | some m => if simplexOutofbounds lib m.test then proBuilds fuel { w₁ with plug := m } else []

lemma mem_proBuilds {start w₁ : ProWorld K T V W ρ} (fuel : ℕ) :
    ∀ {w}, ProRoundOf lib start w → w₁ ∈ proBuilds lib fuel w →
      ∃ w', ProRoundOf lib start w' ∧ proBefore lib w' = some w₁ := by
  induction fuel with
  | zero => exact fun _ hmem => absurd hmem List.not_mem_nil
  | succ fuel ih =>
    intro w hround hmem
    unfold proBuilds at hmem
    cases hbefore : proBefore lib w with
    | none =>
      rw [hbefore] at hmem
      exact absurd hmem List.not_mem_nil
    | some w₂ =>
      rw [hbefore] at hmem
      obtain rfl | hmem := List.mem_cons.mp hmem
      · exact ⟨w, hround, hbefore⟩
      · cases hnext : proNextSimplex lib w₂.plug with
        | none =>
          rw [hnext] at hmem
          exact absurd hmem List.not_mem_nil
        | some m =>
          rw [hnext] at hmem
          dsimp only at hmem
          split_ifs at hmem with hout
          · exact ih (.again hround hbefore hnext hout) hmem
          · exact absurd hmem List.not_mem_nil

/-- When the first simplex is within bounds, there is one round. -/
lemma ProRoundOf.eq_first {start w : ProWorld K T V W ρ} (h : ProRoundOf lib start w)
    (hin : ∀ w₁ m, proBefore lib start = some w₁ → proNextSimplex lib w₁.plug = some m →
      simplexOutofbounds lib m.test = false) : w = start := by
  induction h with
  | first => rfl
  | again hround hbefore hnext hout ih =>
    subst ih
    have hin := hin _ _ hbefore hnext
    rw [hout] at hin
    exact absurd hin nofun

end

lemma regular_fetch (s : ProLedger ℚ (Fin 1 → ℚ) ℚ (WithTop ℚ) Unit) : ProRegular tenSteps s .fetch :=
  ⟨nofun, fun _ _ ⟨_, _, hreport, _⟩ => absurd hreport nofun⟩

/-- A result that does not begin a round is regular when it is the first one, or not that of the vertex
`best_test`. -/
lemma regular_result {s : ProLedger ℚ (Fin 1 → ℚ) ℚ (WithTop ℚ) Unit} {id : ℤ} {perf : ℚ}
    (hbest : s.world.plug.find id = some s.world.plug.bestTest → s.done = [])
    (hfull : s.world.plug.reported + 1 ≠ s.world.plug.simplexSize) :
    ProRegular tenSteps s (.result id perf) := by
  constructor
  · intro i p hwritten heq _ j hj
    obtain ⟨k, hfind, hk⟩ := Option.map_eq_some_iff.mp hwritten
    rw [(Prod.mk.inj hk).1, heq] at hfind
    rw [hbest hfind] at hj
    exact absurd hj List.not_mem_nil
  · intro start w ⟨i, m, hreport, hlast, _⟩
    obtain ⟨k, -, hk⟩ := Option.map_eq_some_iff.mp hreport
    obtain ⟨bestTest, heq, -⟩ := record_eq s.world.plug k { p := [(perf : WithTop ℚ)] }
    have hm : m = s.world.plug.record k { p := [(perf : WithTop ℚ)] } := (Prod.mk.inj hk).2.symm
    rw [hm, heq] at hlast
    exact absurd hlast hfull

lemma ProPlay.fetched {s s' : ProLedger ℚ (Fin 1 → ℚ) ℚ (WithTop ℚ) Unit}
    (h : ProPlay tenSteps (ProRegular tenSteps) s) :
    ∀ n, s.run tenSteps (List.replicate n .fetch) = some s' → ProPlay tenSteps (ProRegular tenSteps) s'
  | 0, hrun => Option.some.inj hrun ▸ h
  | n + 1, hrun => by
    obtain ⟨s₁, hstep, hrest⟩ := Option.bind_eq_some_iff.mp hrun
    exact ProPlay.fetched (h.step (regular_fetch s) hstep) n hrest

theorem pro_pivots_on_best_first_round : ∃ (s : ProLedger ℚ (Fin 1 → ℚ) ℚ (WithTop ℚ) Unit)
    (w : ProWorld ℚ (Fin 1 → ℚ) ℚ (WithTop ℚ) Unit), s.Pivots tenSteps (.result 3 6) w ∧
      LeastAt (fun v => hperfUnify v.perf) w.plug.base w.plug.bestBase := by
  have hview : ((tenStepsStart.run tenSteps (List.replicate 3 .fetch)).bind fun s₀ =>
      (s₀.step tenSteps (.result 1 3)).bind fun s₁ => (s₁.step tenSteps (.result 2 2)).bind fun s₂ =>
      (s₂.step tenSteps (.result 3 6)).bind fun _ => (s₂.report (.result 3 6)).bind fun r =>
      (proBefore tenSteps { s₂.world with plug := r.2 }).bind fun w =>
      (proNextSimplex tenSteps w.plug).map fun m =>
        ([s₀.done.length, s₀.world.plug.reported, s₀.world.plug.simplexSize, s₁.world.plug.bestTest,
          s₁.world.plug.reported, s₁.world.plug.simplexSize, s₂.world.plug.bestTest, r.2.reported,
          r.2.simplexSize], [s₁.world.plug.find 2, s₂.world.plug.find 3], [r.2.state, w.plug.state],
          simplexOutofbounds tenSteps m.test)) =
      some ([0, 0, 3, 0, 1, 3, 1, 3, 3], [some 1, some 2], [.init, .reflect], false) := by
    decide +kernel
  obtain ⟨s₀, hrun, hview⟩ := Option.bind_eq_some_iff.mp hview
  obtain ⟨s₁, hstep₁, hview⟩ := Option.bind_eq_some_iff.mp hview
  obtain ⟨s₂, hstep₂, hview⟩ := Option.bind_eq_some_iff.mp hview
  obtain ⟨s₃, hstep₃, hview⟩ := Option.bind_eq_some_iff.mp hview
  obtain ⟨⟨i, m⟩, hreport, hview⟩ := Option.bind_eq_some_iff.mp hview
  obtain ⟨w, hbefore, hview⟩ := Option.bind_eq_some_iff.mp hview
  obtain ⟨m', hnext, hview⟩ := Option.map_eq_some_iff.mp hview
  simp only [Prod.mk.injEq, List.cons.injEq, and_true] at hview
  obtain ⟨⟨hdone₀, hreported₀, hsize₀, hbest₁, hreported₁, hsize₁, hbest₂, hreported₂, hsize₂⟩,
    ⟨hfind₁, hfind₂⟩, ⟨hinit, hreflect⟩, hin⟩ := hview
  have hstart : ProPlay tenSteps (ProRegular tenSteps) tenStepsStart :=
    ProPlay.start (w := tenStepsLoaded) rfl rfl rfl rfl (by decide) rfl (Prod.ext (by decide +kernel) rfl)
  have hplay₁ := (hstart.fetched 3 hrun).step
    (regular_result (fun _ => List.eq_nil_of_length_eq_zero hdone₀) (by rw [hreported₀, hsize₀]; decide)) hstep₁
  have hplay₂ := hplay₁.step (regular_result (by rw [hfind₁, hbest₁]; exact nofun)
    (by rw [hreported₁, hsize₁]; decide)) hstep₂
  have hbegins : s₂.Begins (.result 3 6) { s₂.world with plug := m } :=
    ⟨i, m, hreport, hreported₂.trans hsize₂.symm, rfl⟩
  have hregular : ProRegular tenSteps s₂ (.result 3 6) := by
    constructor
    · intro k p hwritten heq
      obtain ⟨k', hfind, hk⟩ := Option.map_eq_some_iff.mp hwritten
      have hsame : k' = 1 := (Prod.mk.inj hk).1.trans (heq.trans hbest₂)
      have hother : some k' = some 2 := hfind.symm.trans hfind₂
      rw [hsame] at hother
      exact absurd hother (by decide)
    · intro start w₁ ⟨k, m₁, hreport₁, _, hw₁⟩ hround
      obtain ⟨rfl, rfl⟩ := Prod.mk.inj (Option.some.inj (hreport.symm.trans hreport₁))
      subst hw₁
      have hfirst : w₁ = { s₂.world with plug := m } := by
        apply hround.eq_first
        intro w₂ m₂ hbefore₂ hnext₂
        obtain rfl := Option.some.inj (hbefore.symm.trans hbefore₂)
        obtain rfl := Option.some.inj (hnext.symm.trans hnext₂)
        exact hin
      subst hfirst
      constructor
      · intro hstate
        exact absurd (hinit.symm.trans hstate) nofun
      · intro w₂ m₂ hbefore₂ hshrink
        obtain rfl := Option.some.inj (hbefore.symm.trans hbefore₂)
        exact absurd (hreflect.symm.trans hshrink) nofun
  have hpivots : s₂.Pivots tenSteps (.result 3 6) w :=
    ⟨_, _, hbegins, .first, hbefore, Or.inl hreflect⟩
  exact ⟨s₂, w, hpivots, pro_pivots_on_best hplay₂ hregular hstep₃ hpivots⟩

/-- Two rounds of three results, and two results of the trial expansion, for the objective `|x - 7|`. -/
def staleEvents : List (ProEvent ℚ (WithTop ℚ)) :=
  [.fetch, .fetch, .fetch, .result 1 3, .result 2 2, .result 3 6,
    .fetch, .fetch, .fetch, .result 4 1, .result 5 2, .result 6 2,
    .fetch, .fetch, .fetch, .result 7 0, .result 8 2]

/-- The reflection after an expansion that is out of bounds. -/
def staleReflection (s : ProLedger ℚ (Fin 1 → ℚ) ℚ (WithTop ℚ) Unit) :
    Option (ProWorld ℚ (Fin 1 → ℚ) ℚ (WithTop ℚ) Unit) := do
  let (_, m) ← s.report (.result 9 2)
  if m.reported = m.simplexSize then (proBuilds tenSteps 2 { s.world with plug := m })[1]? else none

/-- The reflection is built around the vertex 5 with performance 2, and the vertex 6 has performance 1. -/
theorem pro_pivots_on_stale : ∃ (s s' : ProLedger ℚ (Fin 1 → ℚ) ℚ (WithTop ℚ) Unit)
    (e : ProEvent ℚ (WithTop ℚ)) (w : ProWorld ℚ (Fin 1 → ℚ) ℚ (WithTop ℚ) Unit),
    ProPlay tenSteps (fun _ _ => True) s ∧ s.step tenSteps e = some s' ∧ s.Pivots tenSteps e w ∧
      w.plug.state = .reflect ∧
      ¬LeastAt (fun v => hperfUnify v.perf) w.plug.base w.plug.bestBase := by
  have hview : ((tenStepsStart.run tenSteps staleEvents).bind fun s =>
      (s.step tenSteps (.result 9 2)).bind fun _ => (staleReflection s).map fun w =>
        (w.plug.state, w.plug.bestBase, w.plug.base.map fun v => hperfUnify v.perf)) =
      some (.reflect, 1, [1, 2, 2]) := by decide +kernel
  obtain ⟨s, hrun, hview⟩ := Option.bind_eq_some_iff.mp hview
  obtain ⟨s', hstep, hview⟩ := Option.bind_eq_some_iff.mp hview
  obtain ⟨w, hstale, hview⟩ := Option.map_eq_some_iff.mp hview
  obtain ⟨hstate, hview⟩ := Prod.mk.inj hview
  obtain ⟨hbest, hperf⟩ := Prod.mk.inj hview
  refine ⟨s, s', .result 9 2, w, tenStepsStart_play.run hrun, hstep, ?_, hstate, ?_⟩
  · unfold staleReflection at hstale
    obtain ⟨⟨i, m⟩, hreport, hstale⟩ := Option.bind_eq_some_iff.mp hstale
    dsimp only at hstale
    split_ifs at hstale with hfull
    obtain ⟨w₁, hround, hbefore⟩ := mem_proBuilds 2 .first (List.mem_of_getElem? hstale)
    exact ⟨_, w₁, ⟨i, m, hreport, hfull, rfl⟩, hround, hbefore, Or.inl hstate⟩
  · rintro ⟨v, hv, hleast⟩
    have hpivot : hperfUnify v.perf = 2 := by
      rw [hbest] at hv
      have hat : (w.plug.base.map fun v => hperfUnify v.perf)[1]? = some 2 := by
        rw [hperf]
        rfl
      rw [List.getElem?_map, hv] at hat
      exact Option.some.inj hat
    have hbetter : (1 : WithTop ℚ) ∈ w.plug.base.map fun v => hperfUnify v.perf := by
      rw [hperf]
      exact List.mem_cons_self
    obtain ⟨u, hu, hone⟩ := List.mem_map.mp hbetter
    have hle : hperfUnify v.perf ≤ hperfUnify u.perf := hleast u hu
    rw [hpivot, hone] at hle
    exact absurd hle (by decide)

end ActiveHarmony

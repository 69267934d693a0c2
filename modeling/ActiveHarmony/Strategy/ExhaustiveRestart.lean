import ActiveHarmony.Strategy.ExhaustiveGrid

/-!
# A second exhaustive search

`strategy_init` keeps the passes that are left, the id of the final point and whether it was received. A
restarted search goes through its grid again and ignores the points of the search before it when none of
these is in its way.
-/

namespace ActiveHarmony

variable {K W : Type} [Field K] [LinearOrder K] {s : Exhaustive K W} {w w' : World (Exhaustive K W)}
  {flow flow' : Flow K} {point point' : HPoint K}

/-! ## What the hooks leave as it is -/

section

variable (nextafter : K → K)

/-- `increment` takes nothing but the id of the final point from the trials, and that only from the current
point. -/
lemma increment_frame (s : Exhaustive K W) :
    s.SameTrials (increment nextafter s).2 ∧
      ((increment nextafter s).2.finalId = s.finalId ∨ (increment nextafter s).2.finalId = s.curr.id ∨
        (increment nextafter s).2.finalId = s.curr.id - 1) := by
  have hsame : s.SameTrials s := ⟨rfl, rfl, rfl, rfl, rfl⟩
  unfold increment
  by_cases hleft : s.remainingPasses ≤ 0
  · rw [if_pos hleft]
    exact ⟨hsame, Or.inl rfl⟩
  · rw [if_neg hleft]
    cases turn nextafter s.range s.curr.val s.idx with
    | none => exact ⟨hsame, Or.inl rfl⟩
    | some turned =>
      obtain ⟨stopped, vals, idx⟩ := turned
      cases stopped with
      | true =>
        dsimp only
        cases countOverflows nextafter s.range vals idx with
        | none => exact ⟨⟨rfl, rfl, rfl, rfl, rfl⟩, Or.inl rfl⟩
        | some n =>
          dsimp only
          split_ifs
          · exact ⟨⟨rfl, rfl, rfl, rfl, rfl⟩, Or.inr (Or.inl rfl)⟩
          · exact ⟨⟨rfl, rfl, rfl, rfl, rfl⟩, Or.inl rfl⟩
      | false =>
        dsimp only
        split_ifs
        · exact ⟨⟨rfl, rfl, rfl, rfl, rfl⟩, Or.inr (Or.inr rfl)⟩
        · exact ⟨⟨rfl, rfl, rfl, rfl, rfl⟩, Or.inl rfl⟩

variable {nextafter}

/-- A point of `strategy_generate` is the current one, which gets the next id, or a copy of the best one. -/
lemma exGenerate_frame (hgen : exGenerate nextafter w flow point = (0, w', flow', point')) :
    w'.plug.allocated = w.plug.allocated ∧ w'.plug.best = w.plug.best ∧
      w'.plug.finalPointReceived = w.plug.finalPointReceived ∧
      ((w'.plug.curr.id = w.plug.curr.id + 1 ∧ point'.id = w.plug.curr.id ∧
          (w'.plug.finalId = w.plug.finalId ∨ w'.plug.finalId = w.plug.curr.id ∨
            w'.plug.finalId = w.plug.curr.id - 1)) ∨
        (w.plug.remainingPasses ≤ 0 ∧ w'.plug.curr.id = w.plug.curr.id ∧
          point'.id = w.plug.best.id ∧ w'.plug.finalId = w.plug.finalId)) := by
  obtain ⟨hsame, hfinal⟩ := increment_frame nextafter w.plug
  unfold exGenerate at hgen
  dsimp only at hgen
  by_cases hleft : w.plug.remainingPasses > 0
  · rw [if_pos hleft] at hgen
    by_cases hret : (increment nextafter w.plug).1 ≠ 0
    · rw [if_pos hret] at hgen
      dsimp only at hgen
      rw [if_pos hret] at hgen
      exact absurd (congrArg Prod.fst hgen) (by simp)
    · rw [if_neg hret] at hgen
      dsimp only at hgen
      rw [if_neg (not_not.mpr rfl)] at hgen
      split_ifs at hgen
      all_goals
        simp only [Prod.mk.injEq] at hgen
        obtain ⟨-, rfl, -, rfl⟩ := hgen
        refine ⟨hsame.allocated, hsame.best, hsame.received, Or.inl ⟨?_, hpointCopy_id _, hfinal⟩⟩
        exact congrArg (· + 1) hsame.id
  · rw [if_neg hleft] at hgen
    dsimp only at hgen
    rw [if_neg (not_not.mpr rfl)] at hgen
    split_ifs at hgen
    all_goals
      simp only [Prod.mk.injEq] at hgen
      obtain ⟨-, rfl, -, rfl⟩ := hgen
      exact ⟨rfl, rfl, rfl, Or.inr ⟨not_lt.mp hleft, rfl, hpointCopy_id _, rfl⟩⟩

/-- A rejected point keeps its id. -/
lemma exRejected_frame (hrej : exRejected nextafter w flow point = (0, w', flow', point')) :
    w.plug.SameTrials w'.plug ∧ point'.id = point.id ∧
      (w'.plug.finalId = w.plug.finalId ∨ w'.plug.finalId = w.plug.curr.id ∨
        w'.plug.finalId = w.plug.curr.id - 1) := by
  obtain ⟨hsame, hfinal⟩ := increment_frame nextafter w.plug
  unfold exRejected at hrej
  dsimp only at hrej
  split_ifs at hrej
  · simp only [Prod.mk.injEq] at hrej
    obtain ⟨-, rfl, -, rfl⟩ := hrej
    exact ⟨⟨rfl, rfl, rfl, rfl, rfl⟩, rfl, Or.inl rfl⟩
  · exact absurd (congrArg Prod.fst hrej) (by simp)
  · simp only [Prod.mk.injEq] at hrej
    obtain ⟨-, rfl, -, rfl⟩ := hrej
    exact ⟨hsame, rfl, hfinal⟩

end

section

variable {pointOf : Bytes → Option (List (HVal K) × List ℕ)} {sig : HSignature K}

variable (pointOf) in
omit [Field K] [LinearOrder K] in
/-- `strategy_cfg` moves the search and sets its passes. -/
lemma exCfg_frame (w : World (Exhaustive K W)) : ∃ vals idx passes, (exCfg pointOf w).2.plug =
    { w.plug with curr := { w.plug.curr with val := vals }, idx := idx, remainingPasses := passes } := by
  unfold exCfg
  cases hcfgGet w.cfg cfgkeyPasses with
  | none =>
    dsimp only
    cases hcfgGet w.cfg cfgkeyInitPoint with
    | some cfgstr =>
      dsimp only
      cases pointOf cfgstr <;> exact ⟨_, _, _, rfl⟩
    | none =>
      dsimp only
      cases w.plug.range.mapM HRange.first <;> exact ⟨_, _, _, rfl⟩
  | some passes =>
    dsimp only
    cases hcfgGet w.cfg cfgkeyInitPoint with
    | some cfgstr =>
      dsimp only
      cases pointOf cfgstr <;> exact ⟨_, _, _, rfl⟩
    | none =>
      dsimp only
      cases w.plug.range.mapM HRange.first <;> exact ⟨_, _, _, rfl⟩

omit [Field K] [LinearOrder K] in
/-- `strategy_init` touches neither the trials nor what is known of the final point. -/
lemma exInit_frame [Top W] (hinit : exInit pointOf sig w = (0, w')) :
    w'.plug.curr.id = w.plug.once.curr.id ∧ w'.plug.allocated = w.plug.once.allocated ∧
      w'.plug.best = w.plug.once.best ∧ w'.plug.finalId = w.plug.once.finalId ∧
      w'.plug.finalPointReceived = w.plug.once.finalPointReceived := by
  obtain ⟨vals, idx, passes, hplug⟩ := exCfg_frame pointOf
    { w with plug := { w.plug.once with range := sig.range } }
  rw [exInit_once rfl] at hinit
  split_ifs at hinit with hcfg hset
  · exact absurd (congrArg Prod.fst hinit) (by simp)
  · exact absurd (congrArg Prod.fst hinit) (by simp)
  · rw [← (Prod.mk.inj hinit).2, sessionSetcfg_plug, hplug]
    exact ⟨rfl, rfl, rfl, rfl, rfl⟩

end

/-! ## The session before the restart -/

section

variable [Add W] [Zero W] [LT W] [DecidableLT W] [Top W]

/-- The states of the strategy in a session, with the points that are out: generated and not yet analyzed. -/
inductive ExRun (nextafter : K → K) (pointOf : Bytes → Option (List (HVal K) × List ℕ))
    (sig : HSignature K) : World (Exhaustive K W) → List (HPoint K) → Prop
  | start {w w' : World (Exhaustive K W)} (hloaded : w.plug = Exhaustive.loaded)
      (hinit : exInit pointOf sig w = (0, w')) : ExRun nextafter pointOf sig w' []
  | generate {w w' : World (Exhaustive K W)} {out : List (HPoint K)} {flow flow' : Flow K}
      {point point' : HPoint K} (h : ExRun nextafter pointOf sig w out)
      (hgen : exGenerate nextafter w flow point = (0, w', flow', point')) :
      ExRun nextafter pointOf sig w' (out ++ [point'])
  | rejected {w w' : World (Exhaustive K W)} {out : List (HPoint K)} {flow flow' : Flow K} {j : ℕ}
      {point point' : HPoint K} (h : ExRun nextafter pointOf sig w out) (hout : out[j]? = some point)
      (hrej : exRejected nextafter w flow point = (0, w', flow', point')) :
      ExRun nextafter pointOf sig w' (out.set j point')
  | analyze {w : World (Exhaustive K W)} {out : List (HPoint K)} {j : ℕ} {point : HPoint K}
      (perf : HPerf W) (h : ExRun nextafter pointOf sig w out) (hout : out[j]? = some point) :
      ExRun nextafter pointOf sig (exAnalyze w { point := point, perf := perf }).2 (out.eraseIdx j)
  | restart {w w' : World (Exhaustive K W)} {out : List (HPoint K)}
      (h : ExRun nextafter pointOf sig w out) (hinit : exInit pointOf sig w = (0, w')) :
      ExRun nextafter pointOf sig w' out
  | other {w w' : World (Exhaustive K W)} {out : List (HPoint K)}
      (h : ExRun nextafter pointOf sig w out) (hplug : w'.plug = w.plug) :
      ExRun nextafter pointOf sig w' out

/-- The ids of the points so far lie below that of the next one. -/
structure Exhaustive.Numbered (s : Exhaustive K W) (out : List (HPoint K)) : Prop where
  allocated : s.allocated = true
  pos : 0 < s.curr.id
  best : s.best.id < s.curr.id
  out : ∀ point ∈ out, point.id < s.curr.id

variable {nextafter : K → K} {pointOf : Bytes → Option (List (HVal K) × List ℕ)} {sig : HSignature K}
  {out : List (HPoint K)}

theorem ExRun.numbered (h : ExRun nextafter pointOf sig w out) : w.plug.Numbered out := by
  induction h with
  | @start w w' hloaded hinit =>
    obtain ⟨hcurr, halloc, hbest, -⟩ := exInit_frame hinit
    have honce : w.plug.once = { (Exhaustive.loaded : Exhaustive K W) with
        allocated := true, curr := { id := 1, val := [] } } := by
      rw [hloaded]
      rfl
    rw [honce] at hcurr halloc hbest
    refine ⟨halloc, by rw [hcurr]; exact one_pos, ?_, by simp⟩
    rw [hbest, hcurr]
    exact (by decide : (-1 : ℤ) < 1)
  | @generate w w' out flow flow' point point' h hgen ih =>
    obtain ⟨halloc, hbest, -, ⟨hcurr, hid, -⟩ | ⟨-, hcurr, hid, -⟩⟩ := exGenerate_frame hgen
    · have hpos := ih.pos
      have hlt := ih.best
      refine ⟨halloc.trans ih.allocated, by omega, by rw [hbest]; omega, ?_⟩
      intro pt hpt
      obtain hold | hnew := List.mem_append.mp hpt
      · have := ih.out pt hold
        omega
      · rw [List.mem_singleton.mp hnew]
        omega
    · have hlt := ih.best
      refine ⟨halloc.trans ih.allocated, by rw [hcurr]; exact ih.pos, by rw [hbest]; omega, ?_⟩
      intro pt hpt
      obtain hold | hnew := List.mem_append.mp hpt
      · have := ih.out pt hold
        omega
      · rw [List.mem_singleton.mp hnew]
        omega
  | @rejected w w' out flow flow' j point point' h hout hrej ih =>
    obtain ⟨hsame, hid, -⟩ := exRejected_frame hrej
    refine ⟨hsame.allocated.trans ih.allocated, ?_, ?_, ?_⟩
    · rw [hsame.id]
      exact ih.pos
    · rw [hsame.best, hsame.id]
      exact ih.best
    · intro pt hpt
      rw [hsame.id]
      obtain hold | rfl := List.mem_or_eq_of_mem_set hpt
      · exact ih.out pt hold
      · rw [hid]
        exact ih.out point (List.mem_of_getElem? hout)
  | @analyze w out j point perf h hout ih =>
    obtain ⟨⟨best, bestPerf, points, received, hplug, hbest, -⟩, -⟩ :=
      exAnalyze_spec w { point := point, perf := perf }
    rw [hplug]
    refine ⟨ih.allocated, ih.pos, ?_, fun pt hpt => ih.out pt (List.mem_of_mem_eraseIdx hpt)⟩
    obtain hsame | hnew := hbest
    · rw [hsame]
      exact ih.best
    · rw [hnew, hpointCopy_id]
      exact ih.out point (List.mem_of_getElem? hout)
  | @restart w w' out h hinit ih =>
    obtain ⟨hcurr, halloc, hbest, -⟩ := exInit_frame hinit
    have honce : w.plug.once = w.plug := if_pos ih.allocated
    rw [honce] at hcurr halloc hbest
    exact ⟨halloc.trans ih.allocated, by rw [hcurr]; exact ih.pos,
      by rw [hbest, hcurr]; exact ih.best, by rw [hcurr]; exact ih.out⟩
  | @other w w' out h hplug ih =>
    rw [hplug]
    exact ih

/-! ## The search after the restart -/

/-- Whether `strategy_analyze` sets `STRATEGY_CONVERGED` at the report of a point. -/
def Exhaustive.Announces (s : Exhaustive K W) (id : ℤ) : Prop :=
  id = s.finalId ∨ (exCount s id).outstandingPoints ≤ 0 ∧ (exCount s id).finalPointReceived = true

/-- The states after a restart in the state `w₀`: the points from before the restart that are still out,
those of the new search, and whether the report of one of these has set `STRATEGY_CONVERGED`. `late` tells
whether a layer rejects points from before the restart, which makes them points of the new search. -/
inductive Again (nextafter : K → K) (late : Prop) (w₀ : World (Exhaustive K W)) (old₀ : List (HPoint K)) :
    World (Exhaustive K W) → List (HPoint K) → List (HPoint K) → Prop → Prop
  | start : Again nextafter late w₀ old₀ w₀ old₀ [] False
  | generate {w w' : World (Exhaustive K W)} {old new : List (HPoint K)} {announced : Prop}
      {flow flow' : Flow K} {point point' : HPoint K}
      (h : Again nextafter late w₀ old₀ w old new announced)
      (hgen : exGenerate nextafter w flow point = (0, w', flow', point')) :
      Again nextafter late w₀ old₀ w' old (new ++ [point']) announced
  | rejected {w w' : World (Exhaustive K W)} {old new : List (HPoint K)} {announced : Prop}
      {flow flow' : Flow K} {j : ℕ} {point point' : HPoint K}
      (h : Again nextafter late w₀ old₀ w old new announced) (hnew : new[j]? = some point)
      (hrej : exRejected nextafter w flow point = (0, w', flow', point')) :
      Again nextafter late w₀ old₀ w' old (new.set j point') announced
  | replaced {w w' : World (Exhaustive K W)} {old new : List (HPoint K)} {announced : Prop}
      {flow flow' : Flow K} {j : ℕ} {point point' : HPoint K} (hlate : late)
      (h : Again nextafter late w₀ old₀ w old new announced) (hold : old[j]? = some point)
      (hrej : exRejected nextafter w flow point = (0, w', flow', point')) :
      Again nextafter late w₀ old₀ w' (old.eraseIdx j) (new ++ [point']) announced
  | analyze {w : World (Exhaustive K W)} {old new : List (HPoint K)} {announced : Prop} {j : ℕ}
      {point : HPoint K} (perf : HPerf W) (h : Again nextafter late w₀ old₀ w old new announced)
      (hnew : new[j]? = some point) :
      Again nextafter late w₀ old₀ (exAnalyze w { point := point, perf := perf }).2 old (new.eraseIdx j)
        (announced ∨ w.plug.Announces point.id)
  | stale {w : World (Exhaustive K W)} {old new : List (HPoint K)} {announced : Prop} {j : ℕ}
      {point : HPoint K} (perf : HPerf W) (h : Again nextafter late w₀ old₀ w old new announced)
      (hold : old[j]? = some point) :
      Again nextafter late w₀ old₀ (exAnalyze w { point := point, perf := perf }).2 (old.eraseIdx j) new
        announced
  | other {w w' : World (Exhaustive K W)} {old new : List (HPoint K)} {announced : Prop}
      (h : Again nextafter late w₀ old₀ w old new announced) (hplug : w'.plug = w.plug) :
      Again nextafter late w₀ old₀ w' old new announced

/-- A restarted search goes through the grid again, and the reports of the points `old` from before the
restart set nothing. -/
structure SearchesAgain [FloorSemiring K] (nextafter : K → K) (late : Prop) (ranges : List (HRange K))
    (p : ℕ) (w₀ : World (Exhaustive K W)) (old₀ : List (HPoint K)) : Prop where
  enumerates : ∀ answers w, Served nextafter w₀ answers w → answers.length = p * spaceSize ranges →
    answers.map Prod.fst = List.replicate (p * spaceSize ranges) 0 ∧
      answers.map (fun a => a.2.val) = (List.replicate p (grid ranges)).flatten
  quiet : ∀ w old new announced, Again nextafter late w₀ old₀ w old new announced → ¬ announced →
    ∀ point ∈ old, ∀ perf : HPerf W, (exAnalyze w { point := point, perf := perf }).2.cfg = w.cfg

/-- The restarts that what `strategy_init` keeps does not harm: the passes are set or have not been used,
nobody reports the final point again, the final point was not received while points are out, and the id
before the next one is not out where the new search may take it for its final point. -/
structure Restartable [FloorSemiring K] (late : Prop) (ranges : List (HRange K)) (p : ℕ)
    (w : World (Exhaustive K W)) (out : List (HPoint K)) : Prop where
  passes : (hcfgGet w.cfg cfgkeyPasses).isSome ∨ w.plug.remainingPasses = 1
  final : ∀ point ∈ out, point.id ≠ w.plug.finalId
  received : w.plug.finalPointReceived = true → out = []
  last : p * spaceSize ranges = 1 ∨ late → ∀ point ∈ out, point.id ≠ w.plug.curr.id - 1

variable [FloorSemiring K] {ranges : List (HRange K)} {p : ℕ} {late announced : Prop} {c : ℤ}
  {old new : List (HPoint K)}

/-- The invariant of a search after a restart with the next id `c`: no point from before is taken for the
final one. -/
structure Exhaustive.Apart (late : Prop) (ranges : List (HRange K)) (p : ℕ) (c : ℤ) (s : Exhaustive K W)
    (old new : List (HPoint K)) (announced : Prop) : Prop where
  curr : c ≤ s.curr.id
  first : s.curr.id = c → late ∨ new = [] ∧ s.Shows ranges p 0
  lt : ∀ point ∈ old, point.id < c
  final : ∀ point ∈ old, point.id ≠ s.finalId
  last : p * spaceSize ranges = 1 ∨ late → ∀ point ∈ old, point.id ≠ c - 1
  received : s.finalPointReceived = true → announced ∨ old = []

omit [Add W] [Zero W] [LT W] [DecidableLT W] [Top W] in
/-- The turns of the new search do not make a point from before the final one. -/
lemma Exhaustive.Apart.final_of_turn {s' : Exhaustive K W} (h : s.Apart late ranges p c old new announced)
    (hfinal : s'.finalId = s.finalId ∨ s'.finalId = s.curr.id ∨ s'.finalId = s.curr.id - 1)
    (hfirst : s.curr.id = c → s'.finalId = s.finalId ∨ s'.finalId = s.curr.id ∨
      p * spaceSize ranges = 1 ∨ late) : ∀ point ∈ old, point.id ≠ s'.finalId := by
  intro point hpoint heq
  have hcurr := h.curr
  have hlt := h.lt point hpoint
  have hsame := h.final point hpoint
  by_cases hc : s.curr.id = c
  · obtain hkept | hid | hend := hfirst hc
    · omega
    · omega
    · have := h.last hend point hpoint
      omega
  · omega

omit [Add W] [Zero W] [LT W] [DecidableLT W] [Top W] in
theorem Exhaustive.Apart.generate [IsStrictOrderedRing K]
    (h : w.plug.Apart late ranges p c old new announced)
    (hst : ∀ r ∈ ranges, r.Stepped) (hpos : 1 ≤ p)
    (hgen : exGenerate nextafter w flow point = (0, w', flow', point')) :
    w'.plug.Apart late ranges p c old (new ++ [point']) announced := by
  have hcurr := h.curr
  have hT : 0 < p * spaceSize ranges := Nat.mul_pos hpos (spaceSize_pos hst)
  -- the first point of the new search
  have hfirst : w.plug.curr.id = c → late ∨ 0 < w.plug.remainingPasses ∧ (w'.plug.finalId = w.plug.finalId ∨
      w'.plug.finalId = w.plug.curr.id ∨ p * spaceSize ranges = 1) := by
    intro hc
    apply (h.first hc).imp_right
    intro ⟨_, hshows⟩
    obtain ⟨w₁, hgen₁, -, -, -, -, -, hfinal⟩ := exGenerate_shows nextafter hshows hst hT flow point
    rw [hgen] at hgen₁
    obtain ⟨-, rfl, -, -⟩ := by simpa only [Prod.mk.injEq] using hgen₁
    exact ⟨(hshows.remaining_pos hst).mpr hT, hfinal.imp_right fun h => h.imp_right fun h => h.2.symm⟩
  obtain ⟨-, -, hreceived, ⟨hnext, -, hfinal⟩ | ⟨hleft, hsame, -, hfinal⟩⟩ := exGenerate_frame hgen
  · refine ⟨by omega, fun hc => by omega, h.lt, ?_, h.last, by rw [hreceived]; exact h.received⟩
    apply h.final_of_turn hfinal
    intro hc
    obtain hlate | ⟨-, hkept | hid | hend⟩ := hfirst hc
    · exact Or.inr (Or.inr (Or.inr hlate))
    · exact Or.inl hkept
    · exact Or.inr (Or.inl hid)
    · exact Or.inr (Or.inr (Or.inl hend))
  · refine ⟨by omega, ?_, h.lt, by rw [hfinal]; exact h.final, h.last, by rw [hreceived]; exact h.received⟩
    intro hc
    obtain hlate | ⟨hmore, -⟩ := hfirst (by omega)
    · exact Or.inl hlate
    · omega

omit [Add W] [Zero W] [LT W] [DecidableLT W] [Top W] in
/-- A rejection once the new search has a point, or where late ones are expected. -/
theorem Exhaustive.Apart.rejected {old' new' : List (HPoint K)}
    (h : w.plug.Apart late ranges p c old new announced)
    (hrej : exRejected nextafter w flow point = (0, w', flow', point')) (hold : old' ⊆ old)
    (hnew : late ∨ new ≠ []) : w'.plug.Apart late ranges p c old' new' announced := by
  obtain ⟨hsame, -, hfinal⟩ := exRejected_frame hrej
  have hfirst : w.plug.curr.id = c → late := by
    intro hc
    obtain hlate | ⟨hnone, -⟩ := h.first hc
    · exact hlate
    · exact hnew.resolve_right fun hne => hne hnone
  have hcurr := hsame.id
  have hturn := h.final_of_turn hfinal fun hc => Or.inr (Or.inr (Or.inr (hfirst hc)))
  exact {
    curr := by rw [hcurr]; exact h.curr
    first := fun hc => Or.inl (hfirst (hcurr.symm.trans hc))
    lt := fun pt hpt => h.lt pt (hold hpt)
    final := fun pt hpt => hturn pt (hold hpt)
    last := fun hend pt hpt => h.last hend pt (hold hpt)
    received := by
      rw [hsame.received]
      intro hset
      apply (h.received hset).imp_right
      rintro rfl
      exact List.subset_nil.mp hold }

omit [Top W] in
/-- A report that leads to the final point only where it is announced. -/
theorem Exhaustive.Apart.analyze {old' new' : List (HPoint K)} {announced' : Prop}
    (h : w.plug.Apart late ranges p c old new announced) (trial : HTrial K W) (hold : old' ⊆ old)
    (hnew : new = [] → new' = [])
    (hfinal : trial.point.id = w.plug.finalId ∨ announced → announced') :
    (exAnalyze w trial).2.plug.Apart late ranges p c old' new' announced' := by
  obtain ⟨⟨best, bestPerf, points, received, hplug, -, hreceived⟩, -⟩ := exAnalyze_spec w trial
  rw [hplug]
  exact {
    curr := h.curr
    first := fun hc => (h.first hc).imp_right fun h => ⟨hnew h.1, h.2.congr rfl rfl rfl rfl⟩
    lt := fun pt hpt => h.lt pt (hold hpt)
    final := fun pt hpt => h.final pt (hold hpt)
    last := fun hend pt hpt => h.last hend pt (hold hpt)
    received := by
      intro hset
      obtain hid | hkept := hreceived hset
      · exact Or.inl (hfinal (Or.inl hid))
      · apply (h.received hkept).imp (fun hyes => hfinal (Or.inr hyes))
        rintro rfl
        exact List.subset_nil.mp hold }

omit [Top W] in
theorem Again.apart [IsStrictOrderedRing K] {w₀ : World (Exhaustive K W)} {old₀ : List (HPoint K)}
    (h : Again nextafter late w₀ old₀ w old new announced)
    (h₀ : w₀.plug.Apart late ranges p c old₀ [] False) (hst : ∀ r ∈ ranges, r.Stepped) (hpos : 1 ≤ p) :
    w.plug.Apart late ranges p c old new announced := by
  induction h with
  | start => exact h₀
  | generate h hgen ih => exact ih.generate hst hpos hgen
  | rejected h hnew hrej ih =>
    apply ih.rejected hrej (List.Subset.refl _)
    exact Or.inr (List.ne_nil_of_mem (List.mem_of_getElem? hnew))
  | replaced hlate h hold hrej ih => exact ih.rejected hrej (List.eraseIdx_subset ..) (Or.inl hlate)
  | @analyze w old new announced j point perf h hnew ih =>
    apply ih.analyze _ (List.Subset.refl _)
    · rintro rfl
      rfl
    · intro hset
      exact hset.elim (fun hid => Or.inr (Or.inl hid)) Or.inl
  | @stale w old new announced j point perf h hold ih =>
    apply ih.analyze _ (List.eraseIdx_subset ..) id
    intro hset
    exact hset.resolve_left (ih.final point (List.mem_of_getElem? hold))
  | other h hplug ih =>
    rw [hplug]
    exact ih

omit [Top W] in
/-- A report of a point from before sets nothing. -/
lemma Exhaustive.Apart.quiet (h : w.plug.Apart late ranges p c old new announced) (hno : ¬ announced)
    (hpoint : point ∈ old) (perf : HPerf W) :
    (exAnalyze w { point := point, perf := perf }).2.cfg = w.cfg := by
  obtain ⟨-, hcfg⟩ := exAnalyze_spec w { point := point, perf := perf }
  obtain hsame | hid | hreceived := hcfg
  · exact hsame
  · exact absurd hid (h.final point hpoint)
  · rw [(h.received hreceived).resolve_left hno] at hpoint
    exact absurd hpoint List.not_mem_nil

/-- After a restart that meets the condition, the search goes through the grid again, and the reports of the
points from before the restart do not set `STRATEGY_CONVERGED`. -/
theorem exhaustive_searches_again [IsStrictOrderedRing K] (hrun : ExRun nextafter pointOf sig w out)
    (hpoint : hcfgGet w.cfg cfgkeyInitPoint = none) (hpasses : passesOf w.cfg = p) (hpos : 1 ≤ p)
    (hdeclared : ∀ r ∈ sig.range, r.Declared) (hinit : exInit pointOf sig w = (0, w'))
    (hrestart : Restartable late sig.range p w out) : SearchesAgain nextafter late sig.range p w' out := by
  have hst : ∀ r ∈ sig.range, r.Stepped := fun r hr => (hdeclared r hr).stepped
  have hnumbered := hrun.numbered
  have hleft : w.plug.nextPasses w.cfg = p := by
    unfold passesOf at hpasses
    unfold Exhaustive.nextPasses
    have hset := hrestart.passes
    cases hget : hcfgGet w.cfg cfgkeyPasses with
    | some cfgstr => rwa [hget] at hpasses
    | none =>
      rw [hget] at hpasses hset
      exact (hset.resolve_left (by simp)).trans hpasses
  have hshows := exInit_shows hpoint hst hleft hinit
  obtain ⟨hcurr, -, -, hfinal, hreceived⟩ := exInit_frame hinit
  have honce : w.plug.once = w.plug := if_pos hnumbered.allocated
  rw [honce] at hcurr hfinal hreceived
  constructor
  · intro answers w₁ hserved hlen
    obtain ⟨hret, -, hvals⟩ := hserved.all hst hshows (by rw [hcurr]; exact hnumbered.pos) hlen
    exact ⟨hret, hvals⟩
  · have happart : w'.plug.Apart late sig.range p w.plug.curr.id out [] False := {
      curr := hcurr.ge
      first := fun _ => Or.inr ⟨rfl, hshows⟩
      lt := hnumbered.out
      final := by rw [hfinal]; exact hrestart.final
      last := hrestart.last
      received := by rw [hreceived]; exact fun hset => Or.inr (hrestart.received hset) }
    intro w₁ old new announced hagain hno point hold perf
    exact (hagain.apart happart hst hpos).quiet hno hold perf

end

/-! ### Two points -/

/-- A search of all points in `world`: both are fetched, then the second and the first are reported. -/
def searchBoth (world : World (Exhaustive ℚ (WithTop ℕ))) : World (Exhaustive ℚ (WithTop ℕ)) :=
  let flow : Flow ℚ := { status := .accept, point := hpointInitializer ℚ }
  let (_, world, _, first) := exGenerate id world flow (hpointInitializer ℚ)
  let (_, world, _, second) := exGenerate id world flow (hpointInitializer ℚ)
  let (_, world) := exAnalyze world { point := second, perf := { p := [3] } }
  (exAnalyze world { point := first, perf := { p := [4] } }).2

lemma searchBoth_run {world : World (Exhaustive ℚ (WithTop ℕ))} {sig : HSignature ℚ}
    {pointOf : Bytes → Option (List (HVal ℚ) × List ℕ)} (h : ExRun id pointOf sig world [])
    (hgen : (exGenerate id world
      { status := .accept, point := hpointInitializer ℚ } (hpointInitializer ℚ)).1 = 0)
    (hmore : (exGenerate id
      (exGenerate id world { status := .accept, point := hpointInitializer ℚ } (hpointInitializer ℚ)).2.1
      { status := .accept, point := hpointInitializer ℚ } (hpointInitializer ℚ)).1 = 0) :
    ExRun id pointOf sig (searchBoth world) [] := by
  have hboth := (h.generate (Prod.ext hgen rfl)).generate (Prod.ext hmore rfl)
  have hone := hboth.analyze (j := 1) ({ p := [3] } : HPerf (WithTop ℕ)) rfl
  exact hone.analyze (j := 0) ({ p := [4] } : HPerf (WithTop ℕ)) rfl

/-- The configuration `PASSES=1`. -/
def passesWorld : World (Exhaustive ℚ (WithTop ℕ)) :=
  (sessionSetcfg freshWorld cfgkeyPasses (cstr "1")).2

theorem exhaustive_searches_again_two_points : ∃ w w' : World (Exhaustive ℚ (WithTop ℕ)),
    ExRun id (fun _ => none) twoPoints w [] ∧ w.plug.finalPointReceived = true ∧
      exInit (fun _ => none) twoPoints w = (0, w') ∧ SearchesAgain id True twoPoints.range 1 w' [] := by
  have hstart : ExRun id (fun _ => none) twoPoints (exInit (fun _ => none) twoPoints passesWorld).2 [] :=
    .start rfl (Prod.ext (by decide +kernel) rfl)
  have hrun := searchBoth_run hstart (by decide +kernel) (by decide +kernel)
  have hinit : exInit (fun _ => none) twoPoints
      (searchBoth (exInit (fun _ => none) twoPoints passesWorld).2) = (0, _) :=
    Prod.ext (by decide +kernel) rfl
  refine ⟨_, _, hrun, by decide +kernel, hinit, ?_⟩
  apply exhaustive_searches_again hrun (by decide +kernel) (by decide +kernel) (by decide)
    twoPoints_declared hinit
  exact ⟨Or.inl (by decide +kernel), by simp, fun _ => rfl, by simp⟩

/-- Without `PASSES`, the second search only repeats the best point. -/
theorem second_search_of_two_points : ¬ ∀ (sig : HSignature ℚ) (p : ℕ)
    (w w' : World (Exhaustive ℚ (WithTop ℕ))) (out : List (HPoint ℚ)),
    ExRun id (fun _ => none) sig w out → hcfgGet w.cfg cfgkeyInitPoint = none → passesOf w.cfg = p →
    1 ≤ p → (∀ r ∈ sig.range, r.Declared) → exInit (fun _ => none) sig w = (0, w') →
    SearchesAgain id False sig.range p w' out := by
  intro hclaim
  have hstart : ExRun id (fun _ => none) twoPoints twoWorld [] := .start rfl twoWorld_init
  have hrun := searchBoth_run hstart (by decide +kernel) (by decide +kernel)
  have hagain := hclaim twoPoints 1 _ _ [] hrun (by decide +kernel) (by decide +kernel) (by decide)
    twoPoints_declared (Prod.ext (by decide +kernel) rfl)
  have hserved : Served id _ _ _ := ((Served.start : Served id (exInit (fun _ => none) twoPoints
    (searchBoth twoWorld)).2 [] _).generate
    { status := .accept, point := hpointInitializer ℚ } (hpointInitializer ℚ)).generate
    { status := .accept, point := hpointInitializer ℚ } (hpointInitializer ℚ)
  have hvals := (hagain.enumerates _ _ hserved (by decide +kernel)).2
  exact absurd hvals (by decide +kernel)

end ActiveHarmony

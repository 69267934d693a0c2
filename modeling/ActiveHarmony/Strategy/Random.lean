import ActiveHarmony.Strategy.NelderMead
import Mathlib.Algebra.Order.Monoid.WithTop
import Mathlib.Data.List.Nodup
import Mathlib.Data.Rat.Defs

/-!
# The strategy `random.c`

The id of the next point lives in the vertex `curr`. `strategy_generate` counts it; a point that
`strategy_rejected` replaces without a hint takes it as well, and does not count it.
`random_ids_distinct_iff` says in which runs the ids of pending points differ all the same.
-/

namespace ActiveHarmony

/-- The functions of `libvertex.c` for one signature. -/
structure RandomLib (T V ρ : Type) where
  perfCount : ℕ
  /-- The coordinates after `vertex_alloc`. -/
  zero : T
  vertexRand : ρ → T × ρ
  vertexToHpoint : T → List (HVal V)
  vertexFromString : Bytes → Option T

/-- The variables of `random.c`; `curr` is `NULL` before the first `strategy_init`. -/
structure RandomSearch (T V W ρ : Type) where
  best : HPoint V
  bestPerf : W
  curr : Option (Vertex T W)
  rand : ρ

variable {T V W ρ : Type} [Top W] (lib : RandomLib T V ρ)

/-- `vertex_rand`. -/
def vertexRand (rand : ρ) (v : Vertex T W) : Vertex T W × ρ :=
  let (term, rand) := lib.vertexRand rand
  ({ v with term := term }.resetPerf, rand)

/-- `strategy_init`, with `strategy_cfg`. -/
def rnInit (world : World (RandomSearch T V W ρ)) : ℤ × World (RandomSearch T V W ρ) :=
  let s := world.plug
  -- One time initialization: kept across a restart.
  let (curr, s) := match s.curr with
    | some curr => (curr, s)
    | none => ({ id := 1, perf := { p := List.replicate lib.perfCount ⊤ }, term := lib.zero },
        { s with best := hpointInitializer V, bestPerf := ⊤ })
  let setup := match hcfgGet world.cfg cfgkeyInitPoint with
    | some cfgval => (lib.vertexFromString cfgval).map fun term => ({ curr with term := term }, s.rand)
    | none => some (vertexRand lib s.rand curr)
  match setup with
  | none => (-1, { world with plug := { s with curr := some curr } })
  | some (curr, rand) =>
    let world := { world with plug := { s with curr := some curr, rand := rand } }
    let (ret, world) := sessionSetcfg world cfgkeyStrategyConverged (cstr "0")
    if ret ≠ 0 then (-1, sessionError world
      (cstr "Could not set STRATEGY_CONVERGED config variable."))
    else (0, world)

/-- `strategy_generate`. -/
def rnGenerate (world : World (RandomSearch T V W ρ)) (flow : Flow V) (point : HPoint V) :
    ℤ × World (RandomSearch T V W ρ) × Flow V × HPoint V :=
  let s := world.plug
  match s.curr with
  | none => (-1, world, flow, point)
  | some curr =>
    let point := { id := curr.id, val := lib.vertexToHpoint curr.term }
    -- Prepare a new random vertex for the next call to strategy_generate.
    let (curr, rand) := vertexRand lib s.rand { curr with id := curr.id + 1 }
    (0, { world with plug := { s with curr := some curr, rand := rand } },
      { flow with status := .accept }, point)

/-- `strategy_rejected`. -/
def rnRejected (world : World (RandomSearch T V W ρ)) (flow : Flow V) (point : HPoint V) :
    ℤ × World (RandomSearch T V W ρ) × Flow V × HPoint V :=
  let s := world.plug
  let accepted := { flow with status := .accept }
  if flow.point.id ≠ -1 then
    (0, world, accepted, { hpointCopy flow.point with id := point.id })
  else
    match s.curr with
    | none => (-1, world, flow, point)
    | some curr =>
      let (curr, rand) := vertexRand lib s.rand curr
      (0, { world with plug := { s with curr := some curr, rand := rand } }, accepted,
        { id := curr.id, val := lib.vertexToHpoint curr.term })

/-- `strategy_analyze`. -/
def rnAnalyze [Add W] [Zero W] [LT W] [DecidableLT W] (world : World (RandomSearch T V W ρ))
    (trial : HTrial V W) : ℤ × World (RandomSearch T V W ρ) :=
  let s := world.plug
  let perf := hperfUnify trial.perf
  (0, { world with plug := if perf < s.bestPerf then
    { s with bestPerf := perf, best := hpointCopy trial.point } else s })

/-- `strategy_best`. -/
def rnBest (world : World (RandomSearch T V W ρ)) (_ : HPoint V) :
    ℤ × World (RandomSearch T V W ρ) × HPoint V :=
  (0, world, hpointCopy world.plug.best)

/-- The variables of `random.c` when it is loaded. -/
def RandomSearch.loaded (rand : ρ) : RandomSearch T V W ρ where
  best := hpointInitializer V
  bestPerf := ⊤
  curr := none
  rand := rand

/-! ## The ids of pending points -/

/-- A pending point, and whether `strategy_rejected` has replaced it without a hint since the last
`strategy_generate`. -/
structure Outstanding (V : Type) where
  point : HPoint V
  refilled : Bool

/-- The strategy and the pending points. -/
structure Pool (T V W ρ : Type) where
  world : World (RandomSearch T V W ρ)
  pending : List (Outstanding V)

/-- The calls of the session: `strategy_rejected` and `strategy_analyze` for the `i`-th of the
pending points. -/
inductive PoolEvent (V W : Type) where
  | generate
  | rejected (i : ℕ) (hint : HPoint V)
  | analyze (i : ℕ) (perf : HPerf W)

variable [Add W] [Zero W] [LT W] [DecidableLT W]

/-- One call. -/
def Pool.step (s : Pool T V W ρ) : PoolEvent V W → Option (Pool T V W ρ)
  | .generate =>
    let (ret, world, _, point) := rnGenerate lib s.world
      { status := .accept, point := hpointInitializer V } (hpointInitializer V)
    if ret ≠ 0 then none
    else some {
      world := world
      pending := s.pending.map (fun o => { o with refilled := false })
        ++ [{ point := point, refilled := false }] }
  | .rejected i hint =>
    match s.pending[i]? with
    | none => none
    | some o =>
      let (ret, world, _, point) := rnRejected lib s.world { status := .reject, point := hint } o.point
      if ret ≠ 0 then none
      else some {
        world := world
        pending := s.pending.set i
          { point := point, refilled := if hint.id = -1 then true else o.refilled } }
  | .analyze i perf =>
    match s.pending[i]? with
    | none => none
    | some o =>
      let (_, world) := rnAnalyze s.world { point := o.point, perf := perf }
      some { world := world, pending := s.pending.eraseIdx i }

/-- The pool after some calls. -/
def Pool.run (s : Pool T V W ρ) (es : List (PoolEvent V W)) : Option (Pool T V W ρ) :=
  es.foldlM (fun s e => s.step lib e) s

/-- The ids of the pending points. -/
def Pool.ids (s : Pool T V W ρ) : List ℤ := s.pending.map fun o => o.point.id

/-- No two pending points carry the same id, now and after each of the calls `es`. -/
def Pool.Distinct (s : Pool T V W ρ) : List (PoolEvent V W) → Prop
  | [] => s.ids.Nodup
  | e :: es => s.ids.Nodup ∧ ∀ s', s.step lib e = some s' → s'.Distinct es

/-- A call that finds no point, or no other point, that was refilled since the last
`strategy_generate`. -/
def Pool.Settled (s : Pool T V W ρ) : PoolEvent V W → Prop
  | .generate => ∀ o ∈ s.pending, o.refilled = false
  | .rejected i hint =>
    s.pending[i]? ≠ none → hint.id = -1 →
      ∀ j ≠ i, ∀ o, s.pending[j]? = some o → o.refilled = false
  | .analyze _ _ => True

/-- All the calls `es` are like that. -/
def Pool.AllSettled (s : Pool T V W ρ) : List (PoolEvent V W) → Prop
  | [] => True
  | e :: es => s.Settled e ∧ ∀ s', s.step lib e = some s' → s'.AllSettled es

/-- The pool before the first call. -/
def Pool.start (world : World (RandomSearch T V W ρ)) : Pool T V W ρ := { world := world, pending := [] }

/-- Pending ids are at most that of `curr`, and the refilled points are those that carry it. -/
structure Pool.Inv (s : Pool T V W ρ) (v : Vertex T W) : Prop where
  curr : s.world.plug.curr = some v
  le : ∀ o ∈ s.pending, o.point.id ≤ v.id
  refilled : ∀ o ∈ s.pending, o.refilled = true ↔ o.point.id = v.id
  nodup : s.ids.Nodup

variable {lib} {s s' : Pool T V W ρ} {v : Vertex T W} {i : ℕ} {o : Outstanding V} {hint : HPoint V}

/-- What `strategy_generate` does to the pool. -/
lemma Pool.step_generate (lib : RandomLib T V ρ) (h : s.world.plug.curr = some v) :
    ∃ world v', s.step lib .generate = some {
        world := world
        pending := s.pending.map (fun o => { o with refilled := false })
          ++ [{ point := { id := v.id, val := lib.vertexToHpoint v.term }, refilled := false }] } ∧
      world.plug.curr = some v' ∧ v'.id = v.id + 1 := by
  unfold Pool.step rnGenerate
  simp only [h]
  exact ⟨_, _, rfl, rfl, rfl⟩

/-- What `strategy_rejected` does to the pool. -/
lemma Pool.step_rejected (lib : RandomLib T V ρ) (hint : HPoint V) (h : s.world.plug.curr = some v)
    (hi : s.pending[i]? = some o) :
    ∃ world v' val, s.step lib (.rejected i hint) = some {
        world := world
        pending := s.pending.set i {
          point := { id := if hint.id = -1 then v.id else o.point.id, val := val }
          refilled := if hint.id = -1 then true else o.refilled } } ∧
      world.plug.curr = some v' ∧ v'.id = v.id := by
  unfold Pool.step rnRejected
  simp only [hi, h]
  by_cases hhint : hint.id = -1
  · simp only [hhint, ne_eq, not_true_eq_false, if_false, if_true]
    exact ⟨_, _, _, rfl, rfl, rfl⟩
  · simp only [hhint, ne_eq, not_false_eq_true, not_true_eq_false, if_true, if_false]
    exact ⟨_, v, _, rfl, h, rfl⟩

omit [Top W] [Add W] [Zero W] [LT W] [DecidableLT W] in
lemma Pool.ids_getElem? (hi : s.pending[i]? = some o) : s.ids[i]? = some o.point.id := by
  unfold Pool.ids
  rw [List.getElem?_map, hi]
  rfl

/-- Putting back the same id. -/
lemma set_same {ids : List ℤ} {id : ℤ} (h : ids[i]? = some id) : ids.set i id = ids := by
  rcases List.getElem?_eq_some_iff.mp h with ⟨hlt, rfl⟩
  exact List.set_getElem_self hlt

omit [Add W] [Zero W] [LT W] [DecidableLT W] [Top W] in
lemma Pool.Inv.not_refilled_iff (h : s.Inv v) (ho : o ∈ s.pending) :
    o.refilled = false ↔ o.point.id < v.id := by
  have hle := h.le o ho
  have hiff := h.refilled o ho
  cases hr : o.refilled with
  | true =>
    have := hiff.mp hr
    exact ⟨fun hfalse => absurd hfalse (by decide), fun hlt => by omega⟩
  | false =>
    have : o.point.id ≠ v.id := fun heq => by
      rw [hiff.mpr heq] at hr
      cases hr
    exact ⟨fun _ => by omega, fun _ => rfl⟩

/-- A settled `strategy_generate` keeps the invariant. -/
theorem Pool.Inv.generate (h : s.Inv v) (hok : s.Settled .generate)
    (hstep : s.step lib .generate = some s') : ∃ v', s'.Inv v' := by
  rcases Pool.step_generate lib h.curr with ⟨world, v', hsome, hcurr, hid⟩
  rw [hsome] at hstep
  cases hstep
  have hlt : ∀ o ∈ s.pending, o.point.id < v.id := fun o ho =>
    (h.not_refilled_iff ho).mp (hok o ho)
  have hold : ∀ o ∈ s.pending.map (fun o => { o with refilled := false })
      ++ [{ point := { id := v.id, val := lib.vertexToHpoint v.term }, refilled := false }],
      o.point.id ≤ v.id ∧ o.refilled = false := by
    intro o ho
    rcases List.mem_append.mp ho with ho | ho
    · rcases List.mem_map.mp ho with ⟨o', ho', rfl⟩
      exact ⟨h.le o' ho', rfl⟩
    · rw [List.mem_singleton.mp ho]
      exact ⟨le_refl _, rfl⟩
  refine ⟨v', hcurr, fun o ho => ?_, fun o ho => ?_, ?_⟩
  · have := (hold o ho).1
    omega
  · have hno := hold o ho
    exact ⟨fun hr => absurd (hno.2.symm.trans hr) (by decide), fun heq => by omega⟩
  · -- the new id is larger than all others
    show ((s.pending.map _ ++ _).map _).Nodup
    rw [List.map_append, List.map_map]
    refine List.nodup_append.mpr ⟨h.nodup, List.nodup_singleton _, ?_⟩
    intro id hmem id' hmem'
    rcases List.mem_map.mp hmem with ⟨o, ho, rfl⟩
    rw [List.mem_singleton.mp hmem']
    exact ne_of_lt (hlt o ho)

/-- A settled `strategy_rejected` keeps the invariant. -/
theorem Pool.Inv.rejected (h : s.Inv v) (hok : s.Settled (.rejected i hint))
    (hstep : s.step lib (.rejected i hint) = some s') : ∃ v', s'.Inv v' := by
  cases hi : s.pending[i]? with
  | none =>
    unfold Pool.step at hstep
    simp only [hi] at hstep
    cases hstep
  | some o =>
    rcases Pool.step_rejected lib hint h.curr hi with
      ⟨world, v', val, hsome, hcurr, hid⟩
    rw [hsome] at hstep
    cases hstep
    have hmem := List.mem_of_getElem? hi
    have hlen := (List.getElem?_eq_some_iff.mp hi).1
    have hids := Pool.ids_getElem? hi
    refine ⟨v', hcurr, fun o' ho' => ?_, fun o' ho' => ?_, ?_⟩
    · rw [hid]
      rcases List.mem_or_eq_of_mem_set ho' with hin | rfl
      · exact h.le o' hin
      · simp only
        split_ifs
        · exact le_refl _
        · exact h.le o hmem
    · rw [hid]
      rcases List.mem_or_eq_of_mem_set ho' with hin | rfl
      · exact h.refilled o' hin
      · simp only
        split_ifs
        · exact ⟨fun _ => rfl, fun _ => rfl⟩
        · exact h.refilled o hmem
    · unfold Pool.ids
      rw [List.map_set]
      show (s.ids.set i _).Nodup
      simp only
      split_ifs with hhint
      · by_cases hsame : o.point.id = v.id
        · rw [← hsame, set_same hids]
          exact h.nodup
        · -- no other point carries the id of `curr`
          refine h.nodup.set fun hin => ?_
          rcases List.mem_map.mp hin with ⟨o', ho', heq⟩
          rcases List.mem_iff_getElem?.mp ho' with ⟨j, hj⟩
          have hne : j ≠ i := fun hji => by
            rw [hji, hi] at hj
            cases hj
            exact hsame heq
          have := (h.not_refilled_iff ho').mp (hok (by rw [hi]; simp) hhint j hne o' hj)
          omega
      · rw [set_same hids]
        exact h.nodup

theorem Pool.Inv.analyze {perf : HPerf W} (h : s.Inv v)
    (hstep : s.step lib (.analyze i perf) = some s') : ∃ v', s'.Inv v' := by
  unfold Pool.step at hstep
  cases hi : s.pending[i]? with
  | none =>
    simp only [hi] at hstep
    cases hstep
  | some o =>
    simp only [hi] at hstep
    cases hstep
    refine ⟨v, ?_, fun o' ho' => h.le o' (List.mem_of_mem_eraseIdx ho'),
      fun o' ho' => h.refilled o' (List.mem_of_mem_eraseIdx ho'), ?_⟩
    · unfold rnAnalyze
      simp only
      split_ifs <;> exact h.curr
    · unfold Pool.ids
      exact h.nodup.sublist ((List.eraseIdx_sublist _ _).map _)

/-- A `strategy_generate` that finds a refilled point doubles its id. -/
theorem Pool.Inv.generate_doubles (h : s.Inv v) (hbad : ¬ s.Settled .generate) :
    ∃ s', s.step lib .generate = some s' ∧ ¬ s'.ids.Nodup := by
  rcases Pool.step_generate lib h.curr with ⟨world, v', hsome, -, -⟩
  refine ⟨_, hsome, fun hnodup => hbad fun o ho => ?_⟩
  rw [h.not_refilled_iff ho]
  refine lt_of_le_of_ne (h.le o ho) fun heq => ?_
  have hsplit : ((s.pending.map fun o => { o with refilled := false }).map
      (fun o : Outstanding V => o.point.id) ++ [v.id]).Nodup := by
    rw [← List.map_singleton (f := fun o : Outstanding V => o.point.id)
      (a := { point := { id := v.id, val := lib.vertexToHpoint v.term }, refilled := false }),
      ← List.map_append]
    exact hnodup
  refine (List.nodup_append.mp hsplit).2.2 o.point.id ?_ v.id (List.mem_singleton.mpr rfl) heq
  rw [List.map_map]
  exact List.mem_map.mpr ⟨o, ho, rfl⟩

/-- A `strategy_rejected` without a hint that finds another refilled point doubles its id. -/
theorem Pool.Inv.rejected_doubles (h : s.Inv v) (hi : s.pending[i]? = some o)
    (hbad : ¬ s.Settled (.rejected i hint)) :
    ∃ s', s.step lib (.rejected i hint) = some s' ∧ ¬ s'.ids.Nodup := by
  rcases Pool.step_rejected lib hint h.curr hi with
    ⟨world, v', val, hsome, -, -⟩
  refine ⟨_, hsome, fun hnodup => hbad fun _ hhint j hne o' hj => ?_⟩
  rw [h.not_refilled_iff (List.mem_of_getElem? hj)]
  refine lt_of_le_of_ne (h.le o' (List.mem_of_getElem? hj)) fun heq => hne ?_
  simp only [if_pos hhint] at hnodup
  unfold Pool.ids at hnodup
  rw [List.map_set] at hnodup
  have hlen : i < s.ids.length := by
    unfold Pool.ids
    rw [List.length_map]
    exact (List.getElem?_eq_some_iff.mp hi).1
  -- the points `i` and `j` both carry the id of `curr`
  have hfirst : (s.ids.set i v.id)[i]? = some v.id := List.getElem?_set_self hlen
  have hsecond : (s.ids.set i v.id)[j]? = some v.id := by
    rw [List.getElem?_set_ne hne.symm, Pool.ids_getElem? hj, heq]
  refine ((List.getElem?_inj (by rwa [List.length_set]) hnodup).mp ?_).symm
  exact hfirst.trans hsecond.symm

/-- A call that is not settled doubles an id. -/
lemma Pool.Inv.doubles (lib : RandomLib T V ρ) {e : PoolEvent V W} (h : s.Inv v) (hbad : ¬ s.Settled e) :
    ∃ s', s.step lib e = some s' ∧ ¬ s'.ids.Nodup := by
  cases e with
  | generate => exact h.generate_doubles hbad
  | rejected i hint =>
    cases hi : s.pending[i]? with
    | none => exact absurd (fun hsome => absurd hi hsome) hbad
    | some o => exact h.rejected_doubles hi hbad
  | analyze i perf => exact absurd trivial hbad

lemma Pool.Distinct.nodup {es : List (PoolEvent V W)} (h : s.Distinct lib es) : s.ids.Nodup := by
  cases es with
  | nil => exact h
  | cons e es => exact h.1

lemma Pool.Distinct.run {es : List (PoolEvent V W)} (h : s.Distinct lib es)
    (hrun : s.run lib es = some s') : s'.ids.Nodup := by
  induction es generalizing s with
  | nil =>
    cases hrun
    exact h
  | cons e es ih =>
    rcases Option.bind_eq_some_iff.mp hrun with ⟨s₁, hstep, hrest⟩
    exact ih (h.2 s₁ hstep) hrest

theorem Pool.Inv.distinct_iff (h : s.Inv v) (es : List (PoolEvent V W)) :
    s.Distinct lib es ↔ s.AllSettled lib es := by
  induction es generalizing s v with
  | nil => exact ⟨fun _ => trivial, fun _ => h.nodup⟩
  | cons e es ih =>
    have hnext : s.Settled e → ∀ s', s.step lib e = some s' → ∃ v', s'.Inv v' := by
      intro hok s' hstep
      cases e with
      | generate => exact h.generate hok hstep
      | rejected i hint => exact h.rejected hok hstep
      | analyze i perf => exact h.analyze hstep
    constructor
    · intro hdistinct
      have hok : s.Settled e := by
        by_contra hbad
        rcases h.doubles lib hbad with ⟨s', hstep, hdouble⟩
        exact hdouble (hdistinct.2 s' hstep).nodup
      refine ⟨hok, fun s' hstep => ?_⟩
      rcases hnext hok s' hstep with ⟨v', hinv⟩
      exact (ih hinv).mp (hdistinct.2 s' hstep)
    · intro hsettled
      refine ⟨h.nodup, fun s' hstep => ?_⟩
      rcases hnext hsettled.1 s' hstep with ⟨v', hinv⟩
      exact (ih hinv).mpr (hsettled.2 s' hstep)

omit [Add W] [Zero W] [LT W] [DecidableLT W] in
lemma rnInit_inv {world world' : World (RandomSearch T V W ρ)} {rand : ρ}
    (hloaded : world.plug = RandomSearch.loaded rand) (hinit : rnInit lib world = (0, world')) :
    ∃ v, (Pool.start world').Inv v := by
  have hcurr : ∃ v, world'.plug.curr = some v := by
    unfold rnInit at hinit
    simp only [hloaded, RandomSearch.loaded] at hinit
    split at hinit
    · exact absurd (congrArg Prod.fst hinit) (by simp)
    · rename_i curr rand' hsetup
      split_ifs at hinit with hret
      · exact absurd (congrArg Prod.fst hinit) (by simp)
      · have hworld := congrArg Prod.snd hinit
        simp only at hworld
        rw [← hworld]
        exact ⟨curr, congrArg RandomSearch.curr (sessionSetcfg_plug _ _ _)⟩
  rcases hcurr with ⟨v, hv⟩
  exact ⟨v, hv, fun o ho => absurd ho List.not_mem_nil, fun o ho => absurd ho List.not_mem_nil,
    List.nodup_nil⟩

/-- Under random search the ids of pending points differ throughout exactly if no point that was
refilled without a hint is pending when the next point takes the id of `curr`. -/
theorem random_ids_distinct_iff {world world' : World (RandomSearch T V W ρ)} {rand : ρ}
    (hloaded : world.plug = RandomSearch.loaded rand) (hinit : rnInit lib world = (0, world'))
    (es : List (PoolEvent V W)) :
    (Pool.start world').Distinct lib es ↔ (Pool.start world').AllSettled lib es := by
  rcases rnInit_inv hloaded hinit with ⟨v, hinv⟩
  exact hinv.distinct_iff es

/-! ### One INT variable -/

/-- A space of one INT variable, whose random values count up. -/
def countingLib : RandomLib ℕ ℚ ℕ where
  perfCount := 1
  zero := 0
  vertexRand := fun rand => (rand, rand + 1)
  vertexToHpoint := fun term => [.int term]
  vertexFromString := fun _ => none

/-- A session whose configuration is empty. -/
def countingWorld : World (RandomSearch ℕ ℚ (WithTop ℕ) ℕ) where
  plug := RandomSearch.loaded 0
  cfg := hcfgAlloc
  errmsg := none

lemma countingWorld_init :
    rnInit countingLib countingWorld = (0, (rnInit countingLib countingWorld).2) :=
  Prod.ext (by decide +kernel) rfl

/-- The point that was refilled is analyzed before the next one is generated. -/
theorem refilled_analyzed_distinct : (Pool.start (rnInit countingLib countingWorld).2).Distinct
    countingLib [.generate, .rejected 0 (hpointInitializer ℚ), .analyze 0 { p := [1] }, .generate] := by
  refine (random_ids_distinct_iff rfl countingWorld_init _).mpr
    ⟨fun o ho => absurd ho List.not_mem_nil, fun s₁ h₁ => ⟨fun _ _ j hj o ho => ?_,
      fun s₂ h₂ => ⟨trivial, fun s₃ h₃ => ⟨fun o ho => ?_, fun _ _ => trivial⟩⟩⟩⟩
  · have hone : ((Pool.start (rnInit countingLib countingWorld).2).step countingLib
        .generate).map (fun s => s.pending.length) = some 1 := by decide +kernel
    rw [h₁] at hone
    have hlen := (List.getElem?_eq_some_iff.mp ho).1
    have hone' : s₁.pending.length = 1 := Option.some.inj hone
    omega
  · have hnone : ((Pool.start (rnInit countingLib countingWorld).2).run countingLib
        [.generate, .rejected 0 (hpointInitializer ℚ), .analyze 0 { p := [1] }]).map
        (fun s => s.pending.length) = some 0 := by decide +kernel
    have hrun : (Pool.start (rnInit countingLib countingWorld).2).run countingLib
        [.generate, .rejected 0 (hpointInitializer ℚ), .analyze 0 { p := [1] }] = some s₃ := by
      simp only [Pool.run, List.foldlM_cons, h₁, h₂, h₃, Option.bind_eq_bind, Option.bind_some,
        List.foldlM_nil]
      rfl
    rw [hrun] at hnone
    rw [List.eq_nil_of_length_eq_zero (Option.some.inj hnone)] at ho
    exact absurd ho List.not_mem_nil

/-- A point that is refilled without a hint gets the id of the next one. -/
theorem refilled_id_doubled : ¬ ∀ (lib : RandomLib ℕ ℚ ℕ)
    (world world' : World (RandomSearch ℕ ℚ (WithTop ℕ) ℕ)) (rand : ℕ)
    (es : List (PoolEvent ℚ (WithTop ℕ))), world.plug = RandomSearch.loaded rand →
    rnInit lib world = (0, world') → (Pool.start world').Distinct lib es := by
  intro hclaim
  have hdistinct := hclaim countingLib countingWorld _ 0
    [.generate, .rejected 0 (hpointInitializer ℚ), .generate] rfl countingWorld_init
  have hids : ((Pool.start (rnInit countingLib countingWorld).2).run countingLib
      [.generate, .rejected 0 (hpointInitializer ℚ), .generate]).map Pool.ids = some [2, 2] := by
    decide +kernel
  rcases Option.map_eq_some_iff.mp hids with ⟨s', hrun, hs'⟩
  have hnodup := hdistinct.run hrun
  rw [hs'] at hnodup
  exact absurd hnodup (by decide)

end ActiveHarmony

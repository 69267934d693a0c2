import ActiveHarmony.Strategy.ExhaustiveConvergence
import ActiveHarmony.Wire.Deserialize

/-!
# The layer `group.c`

The layer tunes one group of variables after the other: the values of all others are locked. When the
strategy announces that it has converged, `group_setcfg` locks the values of the current group, goes on to
the next group, and restarts the session from inside of the strategy's call.

`A` stands for `hval_t`. Its default is the value that `calloc` leaves, of type `HVAL_UNKNOWN`.
`group_progress_safe` says for which announcements the groups are searched one by one.
-/

namespace ActiveHarmony.Group

open TextScan (skipSpace)

/-! ## The list of groups -/

/-- The loop over the members of a group. A round for each cell of `list` that is left. -/
def parseMembers (capMax : ℕ) : ℕ → List ℕ → Bytes → Except Bytes (List ℕ × Bytes)
  | room, list, buf =>
    if buf.head? = some 41 then .ok (list, buf.tail)
    else
      match room with
      | 0 => .error (cstr "Too many indexes in group specification")
      | room + 1 =>
        -- the format ` %d %n`
        match scanD buf with
        | none => .error (cstr "Error parsing group specification")
        | some (idx, buf) =>
          if idx < 0 ∨ idx ≥ capMax then .error (cstr "Group specification member out of bounds")
          else
            let buf := skipSpace buf
            let buf := if buf.head? = some 44 then buf.tail else buf
            parseMembers capMax room (list ++ [idx.toNat]) buf

/-- The loop over the groups. Every round reads a character, so there are at most as many as characters. -/
def parseGroups (capMax : ℕ) : ℕ → List (List ℕ) → Bytes → Except Bytes (List (List ℕ) × Bytes)
  | 0, glist, buf => .ok (glist, buf)
  | fuel + 1, glist, buf =>
    let text := skipSpace buf
    if buf = [] then .ok (glist, buf)
    else if text.head? ≠ some 40 then .ok (glist, text)
    else do
      let (group, buf) ← parseMembers capMax capMax [] text.tail
      parseGroups capMax fuel (glist ++ [group]) (buf.dropWhile fun c => TextScan.isSpace c || c = 44)

/-- `parse_group`: the list or an error, and `none` where the final group is written through `NULL`. -/
def parseGroup (capMax : ℕ) (buf : Bytes) : Option (Except Bytes (List (List ℕ))) :=
  match parseGroups capMax buf.length [] buf with
  | .error msg => some (.error msg)
  | .ok (glist, buf) =>
    if buf ≠ [] then some (.error (cstr "Error parsing group specification"))
    else
      -- Produce a final group of all unseen input indexes.
      let list := (List.range capMax).filter fun j => j ∉ glist.flatten
      if list = [] then some (.ok glist)
      -- no memory has been allocated for the list of groups
      else if glist = [] then none
      else some (.ok (glist ++ [list]))

lemma parseMembers_bounded {capMax room : ℕ} {list group : List ℕ} {buf rest : Bytes}
    (hlist : ∀ i ∈ list, i < capMax) (h : parseMembers capMax room list buf = .ok (group, rest)) :
    ∀ i ∈ group, i < capMax := by
  induction room generalizing list buf with
  | zero =>
    unfold parseMembers at h
    split_ifs at h with hclose
    obtain ⟨rfl, -⟩ := Prod.mk.inj (Except.ok.inj h)
    exact hlist
  | succ room ih =>
    unfold parseMembers at h
    split_ifs at h with hclose
    · obtain ⟨rfl, -⟩ := Prod.mk.inj (Except.ok.inj h)
      exact hlist
    · simp only at h
      cases hscan : scanD buf with
      | none =>
        rw [hscan] at h
        cases h
      | some out =>
        obtain ⟨idx, buf⟩ := out
        simp only [hscan] at h
        by_cases hidx : idx < 0 ∨ idx ≥ capMax
        · rw [if_pos hidx] at h
          cases h
        · rw [if_neg hidx] at h
          refine ih ?_ h
          intro i hi
          obtain hi | hi := List.mem_append.mp hi
          · exact hlist i hi
          · rw [List.mem_singleton.mp hi]
            omega

lemma parseGroups_bounded {capMax fuel : ℕ} {glist glist' : List (List ℕ)} {buf rest : Bytes}
    (hglist : ∀ group ∈ glist, ∀ i ∈ group, i < capMax)
    (h : parseGroups capMax fuel glist buf = .ok (glist', rest)) :
    ∀ group ∈ glist', ∀ i ∈ group, i < capMax := by
  induction fuel generalizing glist buf with
  | zero =>
    obtain ⟨rfl, -⟩ := Prod.mk.inj (Except.ok.inj h)
    exact hglist
  | succ fuel ih =>
    unfold parseGroups at h
    simp only at h
    split_ifs at h
    · obtain ⟨rfl, -⟩ := Prod.mk.inj (Except.ok.inj h)
      exact hglist
    · obtain ⟨rfl, -⟩ := Prod.mk.inj (Except.ok.inj h)
      exact hglist
    · cases hmembers : parseMembers capMax capMax [] (skipSpace buf).tail with
      | error msg =>
        rw [hmembers] at h
        cases h
      | ok out =>
        obtain ⟨group, rest'⟩ := out
        rw [hmembers] at h
        refine ih ?_ h
        intro group' hgroup'
        obtain hgroup' | hgroup' := List.mem_append.mp hgroup'
        · exact hglist group' hgroup'
        · rw [List.mem_singleton.mp hgroup']
          exact parseMembers_bounded (fun i hi => absurd hi List.not_mem_nil) hmembers

/-- The groups of a list that is accepted: every member is a variable, and every variable is a member. -/
lemma parseGroup_spec {capMax : ℕ} {buf : Bytes} {glist : List (List ℕ)}
    (h : parseGroup capMax buf = some (.ok glist)) :
    (∀ group ∈ glist, ∀ i ∈ group, i < capMax) ∧ ∀ i < capMax, ∃ group ∈ glist, i ∈ group := by
  unfold parseGroup at h
  cases hgroups : parseGroups capMax buf.length [] buf with
  | error msg =>
    rw [hgroups] at h
    cases h
  | ok out =>
    obtain ⟨parsed, rest⟩ := out
    have hbounded := parseGroups_bounded (fun group hgroup => absurd hgroup List.not_mem_nil) hgroups
    simp only [hgroups] at h
    set list := (List.range capMax).filter fun j => j ∉ parsed.flatten with hlist
    have hunseen : ∀ i < capMax, i ∈ list ∨ ∃ group ∈ parsed, i ∈ group := by
      intro i hi
      by_cases hseen : i ∈ parsed.flatten
      · exact Or.inr (List.mem_flatten.mp hseen)
      · exact Or.inl (List.mem_filter.mpr ⟨List.mem_range.mpr hi, by simpa using hseen⟩)
    by_cases hrest : rest ≠ []
    · rw [if_pos hrest] at h
      cases h
    rw [if_neg hrest] at h
    by_cases hempty : list = []
    · rw [if_pos hempty] at h
      obtain rfl := Except.ok.inj (Option.some.inj h)
      refine ⟨hbounded, ?_⟩
      intro i hi
      refine (hunseen i hi).resolve_left ?_
      rw [hempty]
      exact List.not_mem_nil
    · rw [if_neg hempty] at h
      by_cases hnull : parsed = []
      · rw [if_pos hnull] at h
        cases h
      rw [if_neg hnull] at h
      obtain rfl := Except.ok.inj (Option.some.inj h)
      constructor
      · intro group hgroup
        obtain hgroup | hgroup := List.mem_append.mp hgroup
        · exact hbounded group hgroup
        · rw [List.mem_singleton.mp hgroup, hlist]
          exact fun i hi => List.mem_range.mp (List.mem_of_mem_filter hi)
      · intro i hi
        obtain hi | ⟨group, hgroup, hmem⟩ := hunseen i hi
        · exact ⟨list, List.mem_append_right _ (List.mem_singleton.mpr rfl), hi⟩
        · exact ⟨group, List.mem_append_left _ hgroup, hmem⟩

/-! ## The layer -/

/-- What makes a call fail: a read of `glist` behind its end, or another access outside of an array. -/
inductive Fault where
  | glist | other
deriving DecidableEq, Repr

/-- The variables of `group.c`; `cap_max` is the length of `lockedVal` and `glist_len` that of `glist`. -/
structure Layer (A : Type) where
  internalRestartReq : Bool
  lockedVal : List A
  hintVal : List A
  glist : List (List ℕ)
  glistCurr : ℕ
  best : List A
  errmsg : Option Bytes
deriving DecidableEq, Repr

/-- The variables when the layer is loaded. -/
def Layer.loaded (A : Type) : Layer A where
  internalRestartReq := false
  lockedVal := []
  hintVal := []
  glist := []
  glistCurr := 0
  best := []
  errmsg := none

variable {A T : Type} [DecidableEq A] [Inhabited A]

omit [DecidableEq A] in
/-- `group_init`, with `ptr` as the value of `GROUP_LIST`. -/
def groupInit (capMax : ℕ) (ptr : Option Bytes) (s : Layer A) : Except Fault (ℤ × Layer A) :=
  -- Ignore our own requests to re-initialize.
  if s.internalRestartReq then .ok (0, s)
  else
    match ptr with
    | none =>
      .ok (-1, { s with errmsg := some (cstr "GROUP_LIST configuration variable must be defined.") })
    | some ptr =>
      let zero := List.replicate capMax default
      let s := { s with lockedVal := zero, hintVal := zero, best := zero, glist := [] }
      match parseGroup capMax ptr with
      | none => .error .other
      | some (.error msg) => .ok (-1, { s with errmsg := some msg })
      | some (.ok glist) => .ok (0, { s with glist := glist })

omit [DecidableEq A] [Inhabited A] in
/-- `group_fini`. -/
def groupFini (s : Layer A) : Layer A :=
  if s.glistCurr = s.glist.length then { s with glist := [] } else s

/-- `glist[glist_curr]`. -/
def currGroup (glist : List (List ℕ)) (glistCurr : ℕ) : Except Fault (List ℕ) :=
  match glist[glistCurr]? with
  | some group => .ok group
  | none => .error .glist

omit [DecidableEq A] [Inhabited A] in
/-- The loops `to[idx] = from[idx]` over the indices of a group. -/
def copyGroup (source : List A) : List ℕ → List A → Except Fault (List A)
  | [], target => .ok target
  | idx :: group, target =>
    match source[idx]? with
    | none => .error .other
    | some v => if idx < target.length then copyGroup source group (target.set idx v) else .error .other

omit [DecidableEq A] [Inhabited A] in
/-- `group_setcfg` locks the values of the group that has converged. -/
def lockConverged (best : List A) (s : Layer A) : Except Fault (Layer A) := do
  let group ← currGroup s.glist s.glistCurr
  let locked ← copyGroup best group s.lockedVal
  .ok { s with best := best, lockedVal := locked, glistCurr := s.glistCurr + 1 }

omit [DecidableEq A] [Inhabited A] in
/-- `group_setcfg` in a session with a state `t`; `best` is `session_best` and `restart` is
`session_restart`. -/
def groupSetcfg (best : T → List A) (restart : T → Layer A → Except Fault (ℤ × T × Layer A)) (key : Bytes)
    (val : Option Bytes) (t : T) (s : Layer A) : Except Fault (ℤ × T × Layer A) :=
  if key = cfgkeyStrategyConverged ∧ val.bind List.head? = some 49 then do
    let s ← lockConverged (best t) s
    if s.glistCurr < s.glist.length then
      let (retval, t, s) ← restart t { s with internalRestartReq := true }
      .ok (retval, t, { s with internalRestartReq := false })
    else .ok (0, t, s)
  else .ok (0, t, s)

/-- `group_generate` initialises locked values, if needed. -/
def fillLocked (lockedVal trialVal : List A) : List A :=
  List.zipWith (fun l v => if l = default then v else l) lockedVal trialVal

/-- `group_generate` for the values of a trial: the status, and the layer with the hint in `hintVal`. -/
def groupGenerate (s : Layer A) (trialVal : List A) : Except Fault (FlowStatus × Layer A) :=
  if s.glistCurr < s.glist.length then
    if trialVal.length < s.lockedVal.length then .error .other
    else do
      let locked := fillLocked s.lockedVal trialVal
      let group ← currGroup s.glist s.glistCurr
      -- Allow current group values from the trial point to pass through.
      let hint ← copyGroup trialVal group locked
      let s := { s with lockedVal := locked, hintVal := hint }
      -- If any values differ from our hint, reject it.
      if hint ≠ trialVal.take s.lockedVal.length then .ok (.reject, s) else .ok (.accept, s)
  else .ok (.accept, s)

/-! ## The searches of a session -/

/-- The layer, and what the code keeps no record of: the groups that were searched, in order, and whether
the strategy has announced the end of the current search. -/
structure Progress (A : Type) where
  layer : Layer A
  searched : List ℕ
  announced : Bool

/-- What happens to the layer. -/
inductive Event (A : Type) where
  /-- A trial reaches the layer. -/
  | generate (trialVal : List A)
  /-- A call of the strategy, with the best point at each of its announcements. -/
  | strategy (bests : List (List A))
  /-- A client restarts the session; `ptr` is the value of `GROUP_LIST`. -/
  | restart (ptr : Option Bytes)

omit [DecidableEq A] in
/-- `session_restart`, as far as it concerns the layer. -/
def restartLayer (capMax : ℕ) (ptr : Option Bytes) (t : T) (s : Layer A) :
    Except Fault (ℤ × T × Layer A) := do
  let (ret, s) ← groupInit capMax ptr (groupFini s)
  .ok (ret, t, s)

omit [DecidableEq A] in
/-- The strategy sets `CFGKEY_STRATEGY_CONVERGED` to 1. The layer ignores its own request to initialise it,
so `GROUP_LIST` is not read. -/
def announce (s : Layer A) (best : List A) : Except Fault (Layer A) := do
  let (_, _, s) ← groupSetcfg id (restartLayer s.lockedVal.length none) cfgkeyStrategyConverged
    (some (cstr "1")) best s
  .ok s

/-- One event. -/
def step (capMax : ℕ) (p : Progress A) : Event A → Except Fault (Progress A)
  | .generate trialVal => do
    let (_, s) ← groupGenerate p.layer trialVal
    .ok { p with layer := s }
  | .strategy bests => do
    let s ← bests.foldlM announce p.layer
    .ok {
      layer := s
      searched := if bests ≠ [] ∧ p.announced = false then p.searched ++ [p.layer.glistCurr] else p.searched
      -- after a restart, a new search has begun
      announced := if bests = [] then p.announced else s.glist.length ≤ s.glistCurr }
  | .restart ptr => do
    let (_, _, s) ← restartLayer capMax ptr () p.layer
    .ok { p with layer := s, announced := false }

/-- Events in order. -/
def run (capMax : ℕ) : Progress A → List (Event A) → Except Fault (Progress A)
  | p, [] => .ok p
  | p, e :: es => do
    let p ← step capMax p e
    run capMax p es

/-- The layer behind `group_init`. -/
def Progress.start (s : Layer A) : Progress A := { layer := s, searched := [], announced := false }

/-- Between two events, the groups in front of the current one have been searched, each one once. -/
structure Progress.Orderly (p : Progress A) : Prop where
  idle : p.layer.internalRestartReq = false
  searched : p.searched = List.range p.layer.glistCurr
  current : p.announced = false → p.layer.glistCurr < p.layer.glist.length
  finished : p.announced = true → p.layer.glistCurr = p.layer.glist.length

/-! ### One step -/

lemma currGroup_of_lt {glist : List (List ℕ)} {i : ℕ} (h : i < glist.length) :
    ∃ group ∈ glist, currGroup glist i = .ok group := by
  refine ⟨glist[i], List.getElem_mem h, ?_⟩
  unfold currGroup
  rw [List.getElem?_eq_getElem h]

omit [DecidableEq A] [Inhabited A] in
lemma copyGroup_cases (source : List A) (group : List ℕ) (target : List A) :
    copyGroup source group target = .error .other ∨
      ∃ target', copyGroup source group target = .ok target' ∧ target'.length = target.length := by
  induction group generalizing target with
  | nil => exact Or.inr ⟨target, rfl, rfl⟩
  | cons idx group ih =>
    unfold copyGroup
    cases source[idx]? with
    | none => exact Or.inl rfl
    | some v =>
      by_cases hidx : idx < target.length
      · have hrest := ih (target.set idx v)
        rw [List.length_set] at hrest
        simpa only [if_pos hidx] using hrest
      · exact Or.inl (by simp only [if_neg hidx])

omit [DecidableEq A] [Inhabited A] in
lemma lockConverged_cases {s : Layer A} (hcurr : s.glistCurr < s.glist.length) (best : List A) :
    lockConverged best s = .error .other ∨
      ∃ locked, lockConverged best s
        = .ok { s with best := best, lockedVal := locked, glistCurr := s.glistCurr + 1 } := by
  obtain ⟨group, -, hgroup⟩ := currGroup_of_lt hcurr
  unfold lockConverged
  rw [hgroup]
  show (copyGroup best group s.lockedVal).bind _ = _ ∨ ∃ locked, (copyGroup best group s.lockedVal).bind _ = _
  obtain hcopy | ⟨locked, hcopy, -⟩ := copyGroup_cases best group s.lockedVal
  · rw [hcopy]
    exact Or.inl rfl
  · rw [hcopy]
    exact Or.inr ⟨locked, rfl⟩

omit [DecidableEq A] [Inhabited A] in
/-- Behind the last group, `group_setcfg` reads outside of the list. -/
lemma lockConverged_behind {s : Layer A} (hcurr : s.glist.length ≤ s.glistCurr) (best : List A) :
    lockConverged best s = .error .glist := by
  unfold lockConverged currGroup
  rw [List.getElem?_eq_none hcurr]
  rfl

omit [DecidableEq A] in
/-- The layer is not changed by the restart that it asks for. -/
lemma restartLayer_own {s : Layer A} (hown : s.internalRestartReq = true)
    (hcurr : s.glistCurr < s.glist.length) (capMax : ℕ) (ptr : Option Bytes) (t : T) :
    restartLayer capMax ptr t s = .ok (0, t, s) := by
  have hfini : groupFini s = s := if_neg (by omega)
  have hinit : groupInit capMax ptr s = .ok (0, s) := if_pos hown
  unfold restartLayer
  rw [hfini, hinit]
  rfl

omit [DecidableEq A] [Inhabited A] in
/-- What `group_setcfg` does to the layer if a restart of its own leaves the layer alone. -/
lemma groupSetcfg_layer {best : T → List A} {restart : T → Layer A → Except Fault (ℤ × T × Layer A)}
    (hrestart : ∀ t s, s.internalRestartReq = true → s.glistCurr < s.glist.length →
      ∃ ret t', restart t s = .ok (ret, t', s))
    {s : Layer A} (hidle : s.internalRestartReq = false) (t : T) :
    ∃ ret t', groupSetcfg best restart cfgkeyStrategyConverged (some (cstr "1")) t s
      = (lockConverged (best t) s).map fun s => (ret, t', s) := by
  unfold groupSetcfg
  rw [if_pos ⟨rfl, rfl⟩]
  by_cases hcurr : s.glistCurr < s.glist.length
  · obtain hlock | ⟨locked, hlock⟩ := lockConverged_cases hcurr (best t)
    · rw [hlock]
      exact ⟨0, t, rfl⟩
    · rw [hlock]
      by_cases hnext : s.glistCurr + 1 < s.glist.length
      · obtain ⟨ret, t', hown⟩ := hrestart t { s with
          internalRestartReq := true, best := best t, lockedVal := locked, glistCurr := s.glistCurr + 1 }
          rfl hnext
        refine ⟨ret, t', ?_⟩
        show (if s.glistCurr + 1 < s.glist.length then _ else _) = _
        rw [if_pos hnext]
        show (restart t _).bind _ = _
        rw [hown]
        obtain ⟨req, locked₀, hint, glist, curr, best₀, errmsg⟩ := s
        obtain rfl := hidle
        rfl
      · refine ⟨0, t, ?_⟩
        show (if s.glistCurr + 1 < s.glist.length then _ else _) = _
        rw [if_neg hnext]
        rfl
  · rw [lockConverged_behind (by omega)]
    exact ⟨0, t, rfl⟩

omit [DecidableEq A] in
lemma announce_eq {s : Layer A} (hidle : s.internalRestartReq = false) (best : List A) :
    announce s best = lockConverged best s := by
  obtain ⟨ret, t', hset⟩ := @groupSetcfg_layer A (List A) id (restartLayer s.lockedVal.length none)
    (fun t s hown hcurr => ⟨0, t, restartLayer_own hown hcurr _ _ t⟩) s hidle best
  unfold announce
  rw [hset]
  show (Except.map _ (lockConverged best s)).bind _ = _
  cases lockConverged best s <;> rfl

omit [DecidableEq A] in
lemma announce_idle {s s' : Layer A} (hidle : s.internalRestartReq = false) {bests : List (List A)}
    (h : bests.foldlM announce s = .ok s') : s'.internalRestartReq = false := by
  induction bests generalizing s with
  | nil =>
    obtain rfl := Except.ok.inj h
    exact hidle
  | cons best bests ih =>
    rw [List.foldlM_cons, announce_eq hidle] at h
    by_cases hcurr : s.glistCurr < s.glist.length
    · obtain hlock | ⟨locked, hlock⟩ := lockConverged_cases hcurr best
      · rw [hlock] at h
        cases h
      · rw [hlock] at h
        exact @ih { s with best := best, lockedVal := locked, glistCurr := s.glistCurr + 1 } hidle h
    · rw [lockConverged_behind (by omega)] at h
      cases h

instance {K : Type} : Inhabited (HVal K) := ⟨.unknown⟩

section Exhaustive

variable {K W : Type} [Field K] [LinearOrder K] [Add W] [Zero W] [LT W] [DecidableLT W] [Top W]
variable (pointOf : Bytes → Option (List (HVal K) × List ℕ)) (sig : HSignature K)

/-- `session_restart` in a session with exhaustive search and this layer. -/
def restartGrouped (w : World (Exhaustive K W)) (s : Layer (HVal K)) :
    Except Fault (ℤ × World (Exhaustive K W) × Layer (HVal K)) := do
  let s := groupFini s
  let (ret, w) := exInit pointOf sig w
  if ret ≠ 0 then .ok (-1, w, s)
  else
    let (ret, s) ← groupInit sig.range.length (hcfgGet w.cfg (cstr "GROUP_LIST")) s
    .ok (if ret ≠ 0 then -1 else 0, w, s)

/-- `strategy_analyze` sets `CFGKEY_STRATEGY_CONVERGED`, and the layer is told. -/
def convergeGrouped (w : World (Exhaustive K W)) (s : Layer (HVal K)) :
    Except Fault (ℤ × World (Exhaustive K W) × Layer (HVal K)) := do
  let (ret, w) := sessionSetcfg w cfgkeyStrategyConverged (cstr "1")
  let (ret, w, s) ← if ret ≠ 0 then .ok (ret, w, s) else
    groupSetcfg (fun w => (hpointCopy w.plug.best).val) (restartGrouped pointOf sig)
      cfgkeyStrategyConverged (some (cstr "1")) w s
  if ret ≠ 0 then
    .ok (-1, sessionError w (cstr "Internal error: Could not set convergence status."), s)
  else .ok (0, w, s)

/-- `if (cond) session_setcfg(..)`. -/
def convergeIf (cond : Prop) [Decidable cond] (w : World (Exhaustive K W)) (s : Layer (HVal K)) :
    Except Fault (ℤ × World (Exhaustive K W) × Layer (HVal K)) :=
  if cond then convergeGrouped pointOf sig w s else .ok (0, w, s)

/-- `strategy_analyze` of `exhaustive.c`. -/
def analyzeGrouped (w : World (Exhaustive K W)) (s : Layer (HVal K)) (trial : HTrial K W) :
    Except Fault (ℤ × World (Exhaustive K W) × Layer (HVal K)) := do
  let plug := exRecord w.plug trial
  let w := { w with plug := plug }
  let (ret, w, s) ← convergeIf pointOf sig (trial.point.id = plug.finalId) w s
  if ret ≠ 0 then .ok (-1, w, s)
  else
    let plug := exCount w.plug trial.point.id
    let w := { w with plug := plug }
    -- Converged when the final point has been received, and there are no outstanding points.
    convergeIf pointOf sig (plug.outstandingPoints ≤ 0 ∧ plug.finalPointReceived) w s

omit [Field K] [LinearOrder K] [Add W] [Zero W] [LT W] [DecidableLT W] in
lemma restartGrouped_own {s : Layer (HVal K)} (hown : s.internalRestartReq = true)
    (hcurr : s.glistCurr < s.glist.length) (w : World (Exhaustive K W)) :
    ∃ ret w', restartGrouped pointOf sig w s = .ok (ret, w', s) := by
  have hfini : groupFini s = s := if_neg (by omega)
  have hinit : ∀ capMax ptr, groupInit capMax ptr s = .ok (0, s) := fun _ _ => if_pos hown
  unfold restartGrouped
  generalize exInit pointOf sig w = res
  obtain ⟨ret, w'⟩ := res
  simp only [hfini, hinit]
  by_cases hret : ret ≠ 0
  · rw [if_pos hret]
    exact ⟨-1, w', rfl⟩
  · rw [if_neg hret]
    exact ⟨0, w', rfl⟩

omit [Field K] [LinearOrder K] [Add W] [Zero W] [LT W] [DecidableLT W] in
lemma convergeGrouped_layer {s : Layer (HVal K)} (hidle : s.internalRestartReq = false)
    (w : World (Exhaustive K W)) :
    ∃ bests : List (List (HVal K)), bests.length ≤ 1 ∧ ∃ ret w', convergeGrouped pointOf sig w s
      = (bests.foldlM announce s).map fun s => (ret, w', s) := by
  unfold convergeGrouped
  generalize sessionSetcfg w cfgkeyStrategyConverged (cstr "1") = res
  obtain ⟨ret, w₁⟩ := res
  simp only
  by_cases hret : ret ≠ 0
  · refine ⟨[], Nat.zero_le 1, -1,
      sessionError w₁ (cstr "Internal error: Could not set convergence status."), ?_⟩
    rw [if_pos hret]
    exact if_pos hret
  · obtain ⟨ret', w', hset⟩ : ∃ ret w', groupSetcfg
      (fun w : World (Exhaustive K W) => (hpointCopy w.plug.best).val)
        (restartGrouped pointOf sig) cfgkeyStrategyConverged (some (cstr "1")) w₁ s
          = (lockConverged (hpointCopy w₁.plug.best).val s).map fun s => (ret, w', s) :=
      groupSetcfg_layer (fun w s hown hcurr => restartGrouped_own pointOf sig hown hcurr w) hidle w₁
    set best := (hpointCopy w₁.plug.best).val
    have hcall : [best].foldlM announce s = lockConverged best s := by
      rw [List.foldlM_cons, announce_eq hidle]
      cases lockConverged best s <;> rfl
    rw [if_neg hret, hset]
    by_cases hret' : ret' ≠ 0
    · refine ⟨[best], le_refl 1, -1,
        sessionError w' (cstr "Internal error: Could not set convergence status."), ?_⟩
      rw [hcall]
      cases lockConverged best s with
      | error fault => rfl
      | ok s' => exact if_pos hret'
    · refine ⟨[best], le_refl 1, 0, w', ?_⟩
      rw [hcall]
      cases lockConverged best s with
      | error fault => rfl
      | ok s' => exact if_neg hret'

omit [Field K] [LinearOrder K] [Add W] [Zero W] [LT W] [DecidableLT W] in
lemma convergeIf_layer (cond : Prop) [Decidable cond] {s : Layer (HVal K)}
    (hidle : s.internalRestartReq = false)
    (w : World (Exhaustive K W)) :
    ∃ bests : List (List (HVal K)), bests.length ≤ 1 ∧ ∃ ret w', convergeIf pointOf sig cond w s
      = (bests.foldlM announce s).map fun s => (ret, w', s) := by
  unfold convergeIf
  by_cases hcond : cond
  · rw [if_pos hcond]
    exact convergeGrouped_layer pointOf sig hidle w
  · rw [if_neg hcond]
    exact ⟨[], Nat.zero_le 1, 0, w, rfl⟩

omit [Field K] [LinearOrder K] in
/-- To the layer, `strategy_analyze` is a call with at most two announcements. -/
lemma analyzeGrouped_layer {s : Layer (HVal K)} (hidle : s.internalRestartReq = false)
    (w : World (Exhaustive K W)) (trial : HTrial K W) :
    ∃ bests : List (List (HVal K)), bests.length ≤ 2 ∧
      (analyzeGrouped pointOf sig w s trial).map (fun res => res.2.2) = bests.foldlM announce s := by
  unfold analyzeGrouped
  simp only
  obtain ⟨bests, hbests, ret, w₂, hfirst⟩ := convergeIf_layer pointOf sig
    (trial.point.id = (exRecord w.plug trial).finalId) hidle { w with plug := exRecord w.plug trial }
  rw [hfirst]
  cases hcall : bests.foldlM announce s with
  | error fault => exact ⟨bests, by omega, hcall.symm⟩
  | ok s₁ =>
    by_cases hret : ret ≠ 0
    · exact ⟨bests, by omega, (congrArg _ (if_pos hret)).trans hcall.symm⟩
    · set plug := exCount w₂.plug trial.point.id
      obtain ⟨bests', hbests', ret', w', hsecond⟩ := convergeIf_layer pointOf sig
        (plug.outstandingPoints ≤ 0 ∧ plug.finalPointReceived) (announce_idle hidle hcall)
          { w₂ with plug := plug }
      refine ⟨bests ++ bests', by rw [List.length_append]; omega, ?_⟩
      rw [List.foldlM_append, hcall]
      show Except.map _ (if ret ≠ 0 then _ else convergeIf pointOf sig _ _ s₁) = bests'.foldlM announce s₁
      rw [if_neg hret, hsecond]
      cases bests'.foldlM announce s₁ <;> rfl

end Exhaustive

end ActiveHarmony.Group

import ActiveHarmony.Layer.Group
import ActiveHarmony.Lib.Heap

/-!
# The hints of the layer `group.c`

`group_generate` compares the values of a trial with its hint by their bytes, so a string counts by its
address. `strategy_rejected` gives the trial a deep copy of the hint, with strings of its own.
`group_hint_settles_iff` says when the copy is accepted.
-/

namespace ActiveHarmony.Group

open Heap

/-- `hval_t` as `memcmp` sees it: a string is its address, a double is its bit pattern in `V`. -/
inductive RawVal (V : Type) where
  | unknown
  | int (i : ℤ)
  | real (bits : V)
  | str (p : ℕ)
deriving DecidableEq, Repr

instance {V : Type} : Inhabited (RawVal V) := ⟨.unknown⟩

/-- `hpoint_t`. If `memlevel` is 1, the point owns its strings. -/
structure RawPoint (V : Type) where
  id : ℤ
  val : List (RawVal V)
  memlevel : ℕ
deriving DecidableEq, Repr

variable {V : Type}

/-- The string of a value of type `HVAL_STR`. -/
def RawVal.str? : RawVal V → Option ℕ
  | .str p => some p
  | _ => none

/-- The strings of a point. -/
def strings (vals : List (RawVal V)) : List ℕ := vals.filterMap RawVal.str?

/-- `hpoint_scrub`. -/
def hpointScrub (h : Memory Bytes) (pt : RawPoint V) : Option (Memory Bytes × RawPoint V) :=
  if pt.memlevel = 1 then (freeAll h (strings pt.val)).map fun h => (h, { pt with memlevel := 0 })
  else some (h, pt)

/-- `hpoint_fini`. -/
def hpointFini (h : Memory Bytes) (pt : RawPoint V) : Option (Memory Bytes × RawPoint V) :=
  let initializer : RawPoint V := { id := -1, val := [], memlevel := 0 }
  if pt.val.length > 0 then (hpointScrub h pt).map fun (h, _) => (h, initializer) else some (h, initializer)

/-- The loop of `hpoint_copy`: `stralloc` reads the string that it copies. -/
def copyStrings (malloc : Allocator Bytes) : Memory Bytes → List (RawVal V) →
    Option (Memory Bytes × List (RawVal V))
  | h, [] => some (h, [])
  | h, v :: vals =>
    match v.str? with
    | some p => do
      let str ← read h p
      let (newstr, h) := alloc malloc h str
      let (h, vals) ← copyStrings malloc h vals
      some (h, .str newstr :: vals)
    | none => do
      let (h, vals) ← copyStrings malloc h vals
      some (h, v :: vals)

/-- `hpoint_copy`. -/
def hpointCopyRaw (malloc : Allocator Bytes) (h : Memory Bytes) (copy orig : RawPoint V) :
    Option (Memory Bytes × RawPoint V) :=
  if orig.id = -1 then hpointFini h copy
  else do
    let (h, _) ← hpointScrub h copy
    let (h, vals) ← copyStrings malloc h orig.val
    some (h, { id := orig.id, val := vals, memlevel := if strings vals = [] then 0 else 1 })

/-- What all `strategy_rejected` have in common: a hint is copied into the trial, which keeps its id.
Without a hint, `regenerate` is the way of the strategy. -/
def strategyRejected (malloc : Allocator Bytes)
    (regenerate : Memory Bytes → RawPoint V → Option (Memory Bytes × RawPoint V))
    (h : Memory Bytes) (hint point : RawPoint V) : Option (Memory Bytes × RawPoint V) :=
  if hint.id ≠ -1 then
    (hpointCopyRaw malloc h point hint).map fun (h, copy) => (h, { copy with id := point.id })
  else regenerate h point

variable [DecidableEq V]

/-- The hint of `group_generate`: its id is 0, its values are `hint_val`. -/
def Layer.hint (s : Layer (RawVal V)) : RawPoint V := { id := 0, val := s.hintVal, memlevel := 0 }

/-- The rounds of `plugin_workflow` through the layer, until it accepts the trial. -/
def rejectLoop (malloc : Allocator Bytes)
    (regenerate : Memory Bytes → RawPoint V → Option (Memory Bytes × RawPoint V)) :
    ℕ → Memory Bytes → Layer (RawVal V) → RawPoint V → Option (Memory Bytes × Layer (RawVal V) × RawPoint V)
  | 0, _, _, _ => none
  | fuel + 1, h, s, point =>
    match groupGenerate s point.val with
    | .ok (.accept, s) => some (h, s, point)
    | .ok (.reject, s) => do
      let (h, point) ← strategyRejected malloc regenerate h s.hint point
      rejectLoop malloc regenerate fuel h s point
    | _ => none

/-! ## What a copy is -/

/-- A deep copy of a value: a string is at another address. -/
def CopyOf (v w : RawVal V) : Prop :=
  (v.str? = none ∧ w = v) ∨ ∃ p q, v = .str p ∧ w = .str q ∧ p ≠ q

omit [DecidableEq V] in
lemma str?_eq_some {v : RawVal V} {p : ℕ} (h : v.str? = some p) : v = .str p := by
  cases v with
  | str q =>
    obtain rfl := Option.some.inj h
    rfl
  | unknown => cases h
  | int i => cases h
  | real bits => cases h

section Copy

variable {malloc : Allocator Bytes} {h h' : Memory Bytes} {vals vals' : List (RawVal V)}

omit [DecidableEq V] in
lemma copyStrings_copies (hm : malloc.Fresh) (hcopy : copyStrings malloc h vals = some (h', vals')) :
    List.Forall₂ CopyOf vals vals' := by
  induction vals generalizing h h' vals' with
  | nil =>
    obtain ⟨-, rfl⟩ := Prod.mk.inj (Option.some.inj hcopy)
    exact .nil
  | cons v vals ih =>
    unfold copyStrings at hcopy
    cases hv : v.str? with
    | none =>
      rw [hv] at hcopy
      obtain ⟨⟨h₁, rest⟩, hrest, hres⟩ := Option.bind_eq_some_iff.mp hcopy
      obtain ⟨-, rfl⟩ := Prod.mk.inj (Option.some.inj hres)
      exact .cons (Or.inl ⟨hv, rfl⟩) (ih hrest)
    | some p =>
      rw [hv] at hcopy
      obtain ⟨str, hstr, hcopy⟩ := Option.bind_eq_some_iff.mp hcopy
      obtain ⟨⟨h₁, rest⟩, hrest, hres⟩ := Option.bind_eq_some_iff.mp hcopy
      obtain ⟨-, rfl⟩ := Prod.mk.inj (Option.some.inj hres)
      have hne : p ≠ malloc h := ne_malloc hm (by rw [hstr]; rfl)
      exact .cons (Or.inr ⟨p, malloc h, str?_eq_some hv, rfl, hne⟩) (ih hrest)

omit [DecidableEq V] in
/-- Values with live strings can be copied. -/
lemma copyStrings_live (hm : malloc.Fresh) (hlive : ∀ p ∈ strings vals, (read h p).isSome) :
    ∃ h' vals', copyStrings malloc h vals = some (h', vals') := by
  induction vals generalizing h with
  | nil => exact ⟨h, [], rfl⟩
  | cons v vals ih =>
    unfold copyStrings
    cases hv : v.str? with
    | none =>
      have hstrings : strings (v :: vals) = strings vals := List.filterMap_cons_none hv
      rw [hstrings] at hlive
      obtain ⟨h', vals', hrest⟩ := ih hlive
      exact ⟨h', v :: vals', by simp [hrest]⟩
    | some p =>
      have hstrings : strings (v :: vals) = p :: strings vals := List.filterMap_cons_some hv
      rw [hstrings] at hlive
      obtain ⟨str, hstr⟩ := Option.isSome_iff_exists.mp (hlive p List.mem_cons_self)
      have hrest : ∀ q ∈ strings vals, (read (alloc malloc h str).2 q).isSome := by
        intro q hq
        have hold := hlive q (List.mem_cons_of_mem p hq)
        rw [read_alloc hm hold]
        exact hold
      obtain ⟨h', vals', hcopy⟩ := ih hrest
      exact ⟨h', .str (malloc h) :: vals', by simp [hstr, alloc] at hcopy ⊢; simp [hcopy]⟩

omit [DecidableEq V] in
/-- Values whose strings have been freed can not be copied. -/
lemma copyStrings_freed (hfreed : ∀ p ∈ strings vals, read h p = none) (hne : strings vals ≠ []) :
    copyStrings malloc h vals = none := by
  induction vals with
  | nil => exact absurd rfl hne
  | cons v vals ih =>
    unfold copyStrings
    cases hv : v.str? with
    | none =>
      have hstrings : strings (v :: vals) = strings vals := List.filterMap_cons_none hv
      rw [hstrings] at hfreed hne
      simp [ih hfreed hne]
    | some p =>
      have hstrings : strings (v :: vals) = p :: strings vals := List.filterMap_cons_some hv
      rw [hstrings] at hfreed
      simp [hfreed p List.mem_cons_self]

end Copy

/-! ## What the layer compares -/

/-- The values of one group are taken from one list, all others from another. -/
lemma copyGroup_spec {A : Type} {n : ℕ} {source target : List A} (hsource : source.length = n)
    (htarget : target.length = n) {group : List ℕ} (hgroup : ∀ i ∈ group, i < n) :
    ∃ res, copyGroup source group target = .ok res ∧ res.length = n ∧
      ∀ i, res[i]? = if i ∈ group then source[i]? else target[i]? := by
  induction group generalizing target with
  | nil => exact ⟨target, rfl, htarget, fun i => (if_neg List.not_mem_nil).symm⟩
  | cons idx group ih =>
    have hidx : idx < n := hgroup idx List.mem_cons_self
    obtain ⟨v, hv⟩ : ∃ v, source[idx]? = some v := by
      rw [List.getElem?_eq_getElem (by omega)]
      exact ⟨_, rfl⟩
    obtain ⟨res, hres, hlen, hget⟩ := @ih (target.set idx v) (by rw [List.length_set, htarget])
      (fun i hi => hgroup i (List.mem_cons_of_mem idx hi))
    refine ⟨res, ?_, hlen, ?_⟩
    · unfold copyGroup
      rw [hv]
      exact (if_pos (by omega)).trans hres
    · intro i
      rw [hget i]
      by_cases hi : i ∈ group
      · rw [if_pos hi, if_pos (List.mem_cons_of_mem idx hi)]
      · rw [if_neg hi]
        by_cases hidx' : i = idx
        · rw [if_pos (by simp [hidx']), hidx', hv]
          exact List.getElem?_set_self (by omega)
        · rw [if_neg (by simp [hi, hidx'])]
          exact List.getElem?_set_ne (Ne.symm hidx')

/-- `group_generate` while a group is left: the hint differs from the trial at most outside of the group. -/
lemma groupGenerate_spec {A : Type} [DecidableEq A] [Inhabited A] {n : ℕ} {s : Layer A} {vals : List A}
    (hlocked : s.lockedVal.length = n) (hvals : vals.length = n) {group : List ℕ}
    (hcurr : s.glist[s.glistCurr]? = some group) (hgroup : ∀ i ∈ group, i < n) :
    ∃ hint, hint.length = n ∧
      (∀ i, hint[i]? = if i ∈ group then vals[i]? else (fillLocked s.lockedVal vals)[i]?) ∧
      groupGenerate s vals = .ok (if hint ≠ vals then .reject else .accept,
        { s with lockedVal := fillLocked s.lockedVal vals, hintVal := hint }) := by
  have hfill : (fillLocked s.lockedVal vals).length = n := by
    unfold fillLocked
    rw [List.length_zipWith, hlocked, hvals, Nat.min_self]
  obtain ⟨hint, hcopy, hlen, hget⟩ := copyGroup_spec hvals hfill hgroup
  refine ⟨hint, hlen, hget, ?_⟩
  have hlt : s.glistCurr < s.glist.length := (List.getElem?_eq_some_iff.mp hcurr).1
  unfold groupGenerate
  rw [if_pos hlt, if_neg (by omega)]
  simp only [currGroup, hcurr]
  show (copyGroup vals group (fillLocked s.lockedVal vals)).bind _ = _
  rw [hcopy]
  show (if hint ≠ vals.take (fillLocked s.lockedVal vals).length then _ else _) = _
  rw [hfill, List.take_of_length_le hvals.le]
  split_ifs <;> rfl

/-- Once a value is locked, it stays. -/
lemma fillLocked_locked {A : Type} [DecidableEq A] [Inhabited A] {locked vals : List A}
    (hlen : locked.length = vals.length) (h : ∀ v ∈ locked, v ≠ default) :
    fillLocked locked vals = locked := by
  unfold fillLocked
  induction locked generalizing vals with
  | nil => rfl
  | cons v locked ih =>
    cases vals with
    | nil => cases hlen
    | cons w vals =>
      rw [List.zipWith_cons_cons, if_neg (h v List.mem_cons_self),
        ih (by simpa using hlen) fun v hv => h v (List.mem_cons_of_mem _ hv)]

/-! ## Points of a signature -/

variable {K : Type}

/-- A range of type `HVAL_STR`. -/
def IsStr (range : HRange K) : Prop :=
  match range.bounds with
  | .str _ => True
  | _ => False

omit [DecidableEq V] in
/-- A value of the type of a range. -/
def HasType (range : HRange K) (v : RawVal V) : Prop :=
  match range.bounds, v with
  | .int .., .int _ => True
  | .real .., .real _ => True
  | .str _, .str _ => True
  | _, _ => False

/-- A layer for the variables of a signature: locked values are initialised or have the type of their
variable, and groups have variables as members. -/
structure OfSignature (sig : HSignature K) (s : Layer (RawVal V)) : Prop where
  locked : List.Forall₂ (fun range v => v = default ∨ HasType range v) sig.range s.lockedVal
  groups : ∀ group ∈ s.glist, ∀ i ∈ group, i < sig.range.length

/-- A point as strategies generate them: values of the types of the variables, with live strings. -/
structure Produced (sig : HSignature K) (h : Memory Bytes) (point : RawPoint V) : Prop where
  typed : List.Forall₂ HasType sig.range point.val
  live : ∀ p ∈ strings point.val, (read h p).isSome

/-- All strings of the trial are in the current group, and the trial does not own them. -/
def StringsPass (sig : HSignature K) (s : Layer (RawVal V)) (point : RawPoint V) : Prop :=
  ∀ i range, sig.range[i]? = some range → IsStr range →
    point.memlevel ≠ 1 ∧ ∃ group, s.glist[s.glistCurr]? = some group ∧ i ∈ group

lemma Forall₂.at {α β : Type} {R : α → β → Prop} {xs : List α} {ys : List β} (h : List.Forall₂ R xs ys)
    {i : ℕ} {x : α} (hx : xs[i]? = some x) : ∃ y, ys[i]? = some y ∧ R x y := by
  induction h generalizing i with
  | nil => cases hx
  | @cons x₀ y₀ xs ys hxy _ ih =>
    cases i with
    | zero =>
      obtain rfl := Option.some.inj hx
      exact ⟨y₀, rfl, hxy⟩
    | succ i => exact ih hx

omit [DecidableEq V] in
lemma hasType_ne_default {range : HRange K} {v : RawVal V} (h : HasType range v) : v ≠ default := by
  rintro rfl
  unfold HasType at h
  cases hb : range.bounds with
  | unknown => rw [hb] at h; exact h
  | int min max step => rw [hb] at h; exact h
  | real min max step => rw [hb] at h; exact h
  | str set => rw [hb] at h; exact h

omit [DecidableEq V] in
lemma hasType_str {range : HRange K} {v : RawVal V} (h : HasType range v) :
    IsStr range ↔ ∃ p, v = .str p := by
  unfold HasType at h
  unfold IsStr
  cases hb : range.bounds with
  | unknown => rw [hb] at h; exact h.elim
  | int min max step => cases v <;> simp_all
  | real min max step => cases v <;> simp_all
  | str set => cases v <;> simp_all

omit [DecidableEq V] in
/-- A copy has the same type. -/
lemma HasType.copy {range : HRange K} {v w : RawVal V} (h : HasType range v) (hcopy : CopyOf v w) :
    HasType range w := by
  obtain ⟨-, rfl⟩ | ⟨p, q, rfl, rfl, -⟩ := hcopy
  · exact h
  · obtain hstr := (hasType_str h).mpr ⟨p, rfl⟩
    unfold IsStr at hstr
    unfold HasType
    cases hb : range.bounds with
    | str set => trivial
    | unknown => rw [hb] at hstr; exact hstr
    | int min max step => rw [hb] at hstr; exact hstr
    | real min max step => rw [hb] at hstr; exact hstr

omit [DecidableEq V] in
lemma typed_copies {ranges : List (HRange K)} {vals vals' : List (RawVal V)}
    (htyped : List.Forall₂ HasType ranges vals) (hcopies : List.Forall₂ CopyOf vals vals') :
    List.Forall₂ HasType ranges vals' := by
  induction htyped generalizing vals' with
  | nil =>
    cases hcopies
    exact .nil
  | cons htype _ ih =>
    cases hcopies with
    | cons hcopy hcopies => exact .cons (htype.copy hcopy) (ih hcopies)

/-! ## A rejected trial -/

/-- The layer when it has rejected a trial with the values `vals` for the current group `group`. -/
structure Rejected (sig : HSignature K) (s : Layer (RawVal V)) (vals : List (RawVal V)) (group : List ℕ) :
    Prop where
  curr : s.glist[s.glistCurr]? = some group
  groups : ∀ group ∈ s.glist, ∀ i ∈ group, i < sig.range.length
  locked : List.Forall₂ HasType sig.range s.lockedVal
  hint : List.Forall₂ HasType sig.range s.hintVal
  inside : ∀ i ∈ group, s.hintVal[i]? = vals[i]?
  outside : ∀ i ∉ group, s.hintVal[i]? = s.lockedVal[i]?

variable {sig : HSignature K} {s s' : Layer (RawVal V)} {vals : List (RawVal V)} {group : List ℕ}

/-- Locked values have the types of the variables once a trial has come. -/
lemma fillLocked_typed {ranges : List (HRange K)} {locked vals : List (RawVal V)}
    (hlocked : List.Forall₂ (fun range v => v = default ∨ HasType range v) ranges locked)
    (hvals : List.Forall₂ HasType ranges vals) : List.Forall₂ HasType ranges (fillLocked locked vals) := by
  induction hlocked generalizing vals with
  | nil =>
    cases hvals
    exact .nil
  | @cons range l ranges locked hl _ ih =>
    cases hvals with
    | @cons _ v _ vals hv hvals =>
      refine .cons ?_ (ih hvals)
      show HasType range (if l = default then v else l)
      split_ifs with hdefault
      · exact hv
      · exact hl.resolve_left hdefault

omit [DecidableEq V] in
/-- Values taken from two typed lists are typed. -/
lemma typed_of_getElem? {ranges : List (HRange K)} {xs ys hint : List (RawVal V)}
    (hxs : List.Forall₂ HasType ranges xs) (hys : List.Forall₂ HasType ranges ys)
    (hlen : hint.length = ranges.length)
    (hget : ∀ i, hint[i]? = if i ∈ group then xs[i]? else ys[i]?) : List.Forall₂ HasType ranges hint := by
  apply List.forall₂_iff_get.mpr
  refine ⟨hlen.symm, ?_⟩
  intro i hrange hhint
  have hr : ranges[i]? = some (ranges.get ⟨i, hrange⟩) := List.getElem?_eq_getElem hrange
  have hh : hint[i]? = some (hint.get ⟨i, hhint⟩) := List.getElem?_eq_getElem hhint
  obtain ⟨x, hx, hxtype⟩ := Forall₂.at hxs hr
  obtain ⟨y, hy, hytype⟩ := Forall₂.at hys hr
  have hi := hget i
  rw [hh, hx, hy] at hi
  split_ifs at hi
  · rw [Option.some.inj hi]
    exact hxtype
  · rw [Option.some.inj hi]
    exact hytype

/-- What a rejection leaves in the layer. -/
lemma groupGenerate_rejected (hs : OfSignature sig s) (hvals : List.Forall₂ HasType sig.range vals)
    (hrej : groupGenerate s vals = .ok (.reject, s')) :
    ∃ group, Rejected sig s' vals group ∧ s'.glist = s.glist ∧ s'.glistCurr = s.glistCurr := by
  have hcurr : s.glistCurr < s.glist.length := by
    by_contra hcurr
    unfold groupGenerate at hrej
    rw [if_neg hcurr] at hrej
    cases hrej
  have hgroup := List.getElem?_eq_getElem hcurr
  have hbound := hs.groups _ (List.getElem_mem hcurr)
  obtain ⟨hint, hlen, hget, hgen⟩ :=
    groupGenerate_spec hs.locked.length_eq.symm hvals.length_eq.symm hgroup hbound
  rw [hgen] at hrej
  obtain ⟨-, rfl⟩ := Prod.mk.inj (Except.ok.inj hrej)
  have hlocked := fillLocked_typed hs.locked hvals
  refine ⟨s.glist[s.glistCurr],
    ⟨hgroup, hs.groups, hlocked, typed_of_getElem? hvals hlocked hlen hget, ?_, ?_⟩,
    rfl, rfl⟩
  · intro i hi
    exact (hget i).trans (if_pos hi)
  · intro i hi
    exact (hget i).trans (if_neg hi)

/-- The next trial is accepted exactly if it has the values of the hint outside of the group. -/
lemma Rejected.next (hr : Rejected sig s vals group) {vals' : List (RawVal V)}
    (hvals' : List.Forall₂ HasType sig.range vals') :
    ∃ status s', groupGenerate s vals' = .ok (status, s') ∧
      ((status = .accept ∧ ∀ i ∉ group, s.hintVal[i]? = vals'[i]?) ∨
        (status = .reject ∧ (¬ ∀ i ∉ group, s.hintVal[i]? = vals'[i]?) ∧ Rejected sig s' vals' group)) := by
  have hbound := hr.groups _ (List.mem_of_getElem? hr.curr)
  obtain ⟨hint, hlen, hget, hgen⟩ :=
    groupGenerate_spec hr.locked.length_eq.symm hvals'.length_eq.symm hr.curr hbound
  have hfill : fillLocked s.lockedVal vals' = s.lockedVal := by
    apply fillLocked_locked (hr.locked.length_eq.symm.trans hvals'.length_eq)
    intro v hv
    obtain ⟨i, hi⟩ := List.mem_iff_getElem?.mp hv
    obtain ⟨range, hrange, htype⟩ := Forall₂.at hr.locked.flip hi
    exact hasType_ne_default htype
  rw [hfill] at hget hgen
  have hsame : hint = vals' ↔ ∀ i ∉ group, s.hintVal[i]? = vals'[i]? := by
    constructor
    · rintro rfl i hi
      rw [hr.outside i hi, hget i, if_neg hi]
    · intro h
      apply List.ext_getElem?
      intro i
      rw [hget i]
      split_ifs with hi
      · rfl
      · rw [← hr.outside i hi, h i hi]
  refine ⟨_, _, hgen, ?_⟩
  by_cases hhint : hint = vals'
  · exact Or.inl ⟨if_neg (not_not.mpr hhint), hsame.mp hhint⟩
  · refine Or.inr ⟨if_pos hhint, hsame.not.mp hhint, hr.curr, hr.groups, hr.locked,
      typed_of_getElem? hvals' hr.locked (hlen.trans rfl) hget, ?_, ?_⟩
    · intro i hi
      exact (hget i).trans (if_pos hi)
    · intro i hi
      exact (hget i).trans (if_neg hi)

/-! ## The reject loop -/

section Loop

variable {malloc : Allocator Bytes}
  {regenerate : Memory Bytes → RawPoint V → Option (Memory Bytes × RawPoint V)}
  {h h' : Memory Bytes} {point point' : RawPoint V}

omit [DecidableEq V] in
/-- A hint is copied after the strings of the trial have been freed. -/
lemma strategyRejected_hint :
    strategyRejected malloc regenerate h s.hint point = some (h', point') ↔
      ∃ h₁ pt₁ vals', hpointScrub h point = some (h₁, pt₁) ∧
        copyStrings malloc h₁ s.hintVal = some (h', vals') ∧
        point' = { id := point.id, val := vals', memlevel := if strings vals' = [] then 0 else 1 } := by
  have hid : (s.hint.id ≠ -1) = True := by simp [Layer.hint]
  have hid' : (s.hint.id = -1) = False := by simp [Layer.hint]
  unfold strategyRejected hpointCopyRaw
  simp only [hid, hid', if_true, if_false, Option.map_eq_some_iff, Option.bind_eq_bind,
    Option.bind_eq_some_iff, Prod.exists, Option.some.injEq, Prod.mk.injEq]
  constructor
  · rintro ⟨h₂, copy, ⟨h₁, pt₁, hscrub, h₃, vals', hcopy, rfl, rfl⟩, rfl, rfl⟩
    exact ⟨h₁, pt₁, vals', hscrub, hcopy, rfl⟩
  · rintro ⟨h₁, pt₁, vals', hscrub, hcopy, rfl⟩
    exact ⟨h', _, ⟨h₁, pt₁, hscrub, h', vals', hcopy, rfl, rfl⟩, rfl, rfl⟩

omit [DecidableEq V] in
lemma mem_strings {vals : List (RawVal V)} {p : ℕ} : p ∈ strings vals ↔ RawVal.str p ∈ vals := by
  unfold strings
  rw [List.mem_filterMap]
  constructor
  · rintro ⟨v, hv, hstr⟩
    rw [← str?_eq_some hstr]
    exact hv
  · intro hp
    exact ⟨.str p, hp, rfl⟩

omit [DecidableEq V] in
/-- If a string is outside of the group, or the trial owns its strings, then the copy of the hint differs
from the hint outside of the group; or there is no copy, because a string of the hint has been freed. -/
lemma Rejected.copy_differs (hm : malloc.Fresh) (hr : Rejected sig s point.val group)
    (hstr : ∃ i range, sig.range[i]? = some range ∧ IsStr range ∧ (point.memlevel = 1 ∨ i ∉ group))
    (hcopy : strategyRejected malloc regenerate h s.hint point = some (h', point')) :
    List.Forall₂ HasType sig.range point'.val ∧ point'.memlevel = 1 ∧
      ¬ ∀ i ∉ group, s.hintVal[i]? = point'.val[i]? := by
  obtain ⟨h₁, pt₁, vals', hscrub, hstrings, rfl⟩ := strategyRejected_hint.mp hcopy
  have hcopies := copyStrings_copies hm hstrings
  -- a string of the hint, and its copy
  have hstring : ∀ (i : ℕ) (range : HRange K), sig.range[i]? = some range → IsStr range →
      ∃ p q, s.hintVal[i]? = some (RawVal.str p) ∧ vals'[i]? = some (RawVal.str q) ∧ p ≠ q := by
    intro i range hrange hisStr
    obtain ⟨v, hv, hvtype⟩ := Forall₂.at hr.hint hrange
    obtain ⟨w, hw, hcopyOf⟩ := Forall₂.at hcopies hv
    obtain ⟨p, rfl⟩ := (hasType_str hvtype).mp hisStr
    obtain ⟨hnone, -⟩ | ⟨p', q, hp', rfl, hne⟩ := hcopyOf
    · cases hnone
    · obtain rfl := RawVal.str.inj hp'
      exact ⟨p, q, hv, hw, hne⟩
  obtain ⟨i, range, hrange, hisStr, hcase⟩ := hstr
  obtain ⟨p, q, hp, hq, hne⟩ := hstring i range hrange hisStr
  refine ⟨?_, ?_, ?_⟩
  · exact typed_copies hr.hint hcopies
  · have hmem : q ∈ strings vals' := mem_strings.mpr (List.mem_of_getElem? hq)
    exact if_neg (List.ne_nil_of_mem hmem)
  · intro hsame
    have hall : ∀ j range, sig.range[j]? = some range → IsStr range → j ∈ group := by
      intro j range hrange hisStr
      by_contra hj
      obtain ⟨p, q, hp, hq, hne⟩ := hstring j range hrange hisStr
      have heq := hsame j hj
      rw [hp, hq] at heq
      exact hne (RawVal.str.inj (Option.some.inj heq))
    have howned : point.memlevel = 1 := hcase.resolve_right (not_not.mpr (hall i range hrange hisStr))
    -- every string of the hint is one of the trial, and has been freed
    have hfreed : ∀ p ∈ strings s.hintVal, read h₁ p = none := by
      intro p hp
      obtain ⟨j, hj⟩ := List.mem_iff_getElem?.mp (mem_strings.mp hp)
      obtain ⟨range, hrange, htype⟩ := Forall₂.at hr.hint.flip hj
      have hgroup := hall j range hrange ((hasType_str htype).mpr ⟨p, rfl⟩)
      have hown : p ∈ strings point.val := by
        apply mem_strings.mpr
        apply List.mem_of_getElem? (i := j)
        rw [← hr.inside j hgroup, hj]
      unfold hpointScrub at hscrub
      rw [if_pos howned] at hscrub
      obtain ⟨h₂, hfree, heq⟩ := Option.map_eq_some_iff.mp hscrub
      obtain ⟨rfl, -⟩ := Prod.mk.inj heq
      rw [read_freeAll hfree, if_pos hown]
    have hmem : p ∈ strings s.hintVal := mem_strings.mpr (List.mem_of_getElem? hp)
    rw [copyStrings_freed hfreed (List.ne_nil_of_mem hmem)] at hstrings
    cases hstrings

omit [DecidableEq V] in
/-- If all strings are in the group, and the trial does not own them, the hint can be copied, and the copy
has the values of the hint outside of the group. -/
lemma Rejected.copy_same (hm : malloc.Fresh) (hr : Rejected sig s point.val group)
    (hpoint : Produced sig h point)
    (hpass : ∀ i range, sig.range[i]? = some range → IsStr range → point.memlevel ≠ 1 ∧ i ∈ group) :
    ∃ h' point', strategyRejected malloc regenerate h s.hint point = some (h', point') ∧
      List.Forall₂ HasType sig.range point'.val ∧ ∀ i ∉ group, s.hintVal[i]? = point'.val[i]? := by
  -- the strings of the hint are those of the trial
  have hmem : ∀ p ∈ strings s.hintVal, p ∈ strings point.val := by
    intro p hp
    obtain ⟨j, hj⟩ := List.mem_iff_getElem?.mp (mem_strings.mp hp)
    obtain ⟨range, hrange, htype⟩ := Forall₂.at hr.hint.flip hj
    have hgroup := (hpass j range hrange ((hasType_str htype).mpr ⟨p, rfl⟩)).2
    apply mem_strings.mpr
    apply List.mem_of_getElem? (i := j)
    rw [← hr.inside j hgroup, hj]
  obtain ⟨pt₁, hscrub⟩ : ∃ pt₁, hpointScrub h point = some (h, pt₁) := by
    unfold hpointScrub
    by_cases howned : point.memlevel = 1
    · have hnone : strings point.val = [] := by
        apply List.eq_nil_iff_forall_not_mem.mpr
        intro p hp
        obtain ⟨j, hj⟩ := List.mem_iff_getElem?.mp (mem_strings.mp hp)
        obtain ⟨range, hrange, htype⟩ := Forall₂.at hpoint.typed.flip hj
        exact (hpass j range hrange ((hasType_str htype).mpr ⟨p, rfl⟩)).1 howned
      rw [if_pos howned, hnone]
      exact ⟨{ point with memlevel := 0 }, rfl⟩
    · exact ⟨point, if_neg howned⟩
  obtain ⟨h', vals', hcopy⟩ := copyStrings_live hm fun p hp => hpoint.live p (hmem p hp)
  have hcopies := copyStrings_copies hm hcopy
  refine ⟨h', _, strategyRejected_hint.mpr ⟨h, pt₁, vals', hscrub, hcopy, rfl⟩,
    typed_copies hr.hint hcopies, ?_⟩
  intro i hi
  cases hrange : sig.range[i]? with
  | none =>
    have hlen : sig.range.length ≤ i := List.getElem?_eq_none_iff.mp hrange
    rw [List.getElem?_eq_none (by rw [← hr.hint.length_eq]; exact hlen),
      List.getElem?_eq_none (by rw [← (typed_copies hr.hint hcopies).length_eq]; exact hlen)]
  | some range =>
    obtain ⟨v, hv, htype⟩ := Forall₂.at hr.hint hrange
    obtain ⟨w, hw, hcopyOf⟩ := Forall₂.at hcopies hv
    obtain ⟨-, rfl⟩ | ⟨p, q, rfl, -, -⟩ := hcopyOf
    · exact hv.trans hw.symm
    · exact absurd (hpass i range hrange ((hasType_str htype).mpr ⟨p, rfl⟩)).2 hi

/-- A trial whose hint does not settle is rejected again and again, or a string is read that has been
freed. -/
lemma rejectLoop_stuck (hm : malloc.Fresh) (hpoint : List.Forall₂ HasType sig.range point.val)
    (hrej : groupGenerate s point.val = .ok (.reject, s')) (hr : Rejected sig s' point.val group)
    (hstr : ∃ i range, sig.range[i]? = some range ∧ IsStr range ∧ (point.memlevel = 1 ∨ i ∉ group))
    (fuel : ℕ) :
    rejectLoop malloc regenerate fuel h s point = none := by
  induction fuel generalizing h s s' point with
  | zero => rfl
  | succ fuel ih =>
    unfold rejectLoop
    rw [hrej]
    cases hcopy : strategyRejected malloc regenerate h s'.hint point with
    | none => simp [hcopy]
    | some res =>
      obtain ⟨h', point'⟩ := res
      obtain ⟨htyped, howned, hdiffers⟩ := hr.copy_differs hm hstr hcopy
      obtain ⟨status, s'', hgen, ⟨-, hsame⟩ | ⟨rfl, -, hr'⟩⟩ := hr.next htyped
      · exact absurd hsame hdiffers
      · obtain ⟨i, range, hrange, hisStr, -⟩ := hstr
        simp only [hcopy, Option.bind_eq_bind, Option.bind_some]
        exact ih htyped hgen hr' ⟨i, range, hrange, hisStr, Or.inl howned⟩

/-- After a rejection, the copy of the hint is accepted in the next call, and the loop of rejections ends,
exactly if all strings are in the current group and the trial does not own them. -/
theorem group_hint_settles_iff (hm : malloc.Fresh) (hs : OfSignature sig s) (hpoint : Produced sig h point)
    (hrej : groupGenerate s point.val = .ok (.reject, s')) :
    ((∃ h' point', strategyRejected malloc regenerate h s'.hint point = some (h', point') ∧
        ∃ s'', groupGenerate s' point'.val = .ok (.accept, s'')) ↔ StringsPass sig s point) ∧
      ((∃ fuel res, rejectLoop malloc regenerate fuel h s point = some res) ↔ StringsPass sig s point) := by
  obtain ⟨group, hr, hglist, hcurr⟩ := groupGenerate_rejected hs hpoint.typed hrej
  have hgroup : s.glist[s.glistCurr]? = some group := by
    rw [← hglist, ← hcurr]
    exact hr.curr
  have hpass : StringsPass sig s point ↔
      ∀ i range, sig.range[i]? = some range → IsStr range → point.memlevel ≠ 1 ∧ i ∈ group := by
    unfold StringsPass
    simp [hgroup]
  rw [hpass]
  by_cases hall : ∀ i range, sig.range[i]? = some range → IsStr range → point.memlevel ≠ 1 ∧ i ∈ group
  · obtain ⟨h', point', hcopy, htyped, hsame⟩ : ∃ h' point',
        strategyRejected malloc regenerate h s'.hint point = some (h', point') ∧
          List.Forall₂ HasType sig.range point'.val ∧ ∀ i ∉ group, s'.hintVal[i]? = point'.val[i]? :=
      hr.copy_same hm hpoint hall
    obtain ⟨status, s'', hgen, ⟨rfl, -⟩ | ⟨-, hdiffers, -⟩⟩ := hr.next htyped
    · refine ⟨iff_of_true ⟨h', point', hcopy, s'', hgen⟩ hall, iff_of_true ⟨2, (h', s'', point'), ?_⟩ hall⟩
      unfold rejectLoop
      rw [hrej]
      simp only [hcopy, Option.bind_eq_bind, Option.bind_some]
      unfold rejectLoop
      rw [hgen]
    · exact absurd hsame hdiffers
  · have hstr : ∃ i range, sig.range[i]? = some range ∧ IsStr range ∧ (point.memlevel = 1 ∨ i ∉ group) := by
      push Not at hall
      obtain ⟨i, range, hrange, hisStr, hcase⟩ := hall
      refine ⟨i, range, hrange, hisStr, ?_⟩
      by_cases howned : point.memlevel = 1
      · exact Or.inl howned
      · exact Or.inr (hcase howned)
    constructor
    · refine iff_of_false ?_ hall
      intro hsettles
      obtain ⟨h', point', hcopy, s'', haccept⟩ := hsettles
      obtain ⟨htyped, -, hdiffers⟩ := hr.copy_differs hm hstr hcopy
      obtain ⟨status, s₂, hgen, ⟨-, hsame⟩ | ⟨rfl, -, -⟩⟩ := hr.next htyped
      · exact hdiffers hsame
      · rw [hgen] at haccept
        cases haccept
    · refine iff_of_false ?_ hall
      intro hends
      obtain ⟨fuel, res, hloop⟩ := hends
      rw [rejectLoop_stuck hm hpoint.typed hrej hr hstr fuel] at hloop
      cases hloop

end Loop

/-- Two INT variables. -/
def intPair : HSignature ℚ where
  name := none
  range := [{ name := none, bounds := .int 0 1 1 }, { name := none, bounds := .int 0 1 1 }]

/-- The layer of two groups with one variable each, when the first trial has locked its values. -/
def twoGroups (glist : List (List ℕ)) (locked hint : List (RawVal ℕ)) : Layer (RawVal ℕ) where
  internalRestartReq := false
  lockedVal := locked
  hintVal := hint
  glist := glist
  glistCurr := 0
  best := [.unknown, .unknown]
  errmsg := none

/-- Without strings, the hint settles. -/
theorem group_hint_settles_ints :
    (∃ h' point', strategyRejected bump (fun _ _ => none) ⟨∅, 0⟩
        (twoGroups [[0], [1]] [.int 0, .int 0] [.int 1, .int 0]).hint ⟨7, [.int 1, .int 1], 0⟩ =
          some (h', point') ∧
      ∃ s'', groupGenerate (twoGroups [[0], [1]] [.int 0, .int 0] [.int 1, .int 0]) point'.val
        = .ok (.accept, s'')) ∧
      ∃ fuel res, rejectLoop bump (fun _ _ => none) fuel ⟨∅, 0⟩
        (twoGroups [[0], [1]] [.int 0, .int 0] [.int 0, .int 0]) ⟨7, [.int 1, .int 1], 0⟩ = some res := by
  have hs : OfSignature intPair (twoGroups [[0], [1]] [.int 0, .int 0] [.int 0, .int 0]) :=
    ⟨.cons (Or.inr trivial) (.cons (Or.inr trivial) .nil), by decide⟩
  have hpoint : Produced intPair ⟨∅, 0⟩ ⟨7, [RawVal.int (V := ℕ) 1, .int 1], 0⟩ :=
    ⟨.cons trivial (.cons trivial .nil), by decide⟩
  have hpass : StringsPass intPair (twoGroups [[0], [1]] [.int 0, .int 0] [.int 0, .int 0])
      ⟨7, [.int 1, .int 1], 0⟩ := by
    intro i range hrange hisStr
    have hmem := List.mem_of_getElem? hrange
    simp only [intPair, List.mem_cons, List.not_mem_nil, or_false, or_self] at hmem
    rw [hmem] at hisStr
    exact hisStr.elim
  have hrej : groupGenerate (twoGroups [[0], [1]] [.int 0, .int 0] [.int 0, .int 0]) [.int 1, .int 1]
      = .ok (.reject, twoGroups [[0], [1]] [.int 0, .int 0] [.int 1, .int 0]) := by decide
  exact ⟨(group_hint_settles_iff bump_fresh hs hpoint hrej).1.mpr hpass,
    (group_hint_settles_iff bump_fresh hs hpoint hrej).2.mpr hpass⟩

/-- An enumeration and an INT variable. -/
def strAndInt : HSignature ℚ where
  name := none
  range := [{ name := none, bounds := .str [cstr "a", cstr "b"] }, { name := none, bounds := .int 0 1 1 }]

/-- The strings of the enumeration. -/
def twoStrings : Memory Bytes :=
  { cells := (AList.insert 1 (cstr "b") (AList.insert 0 (cstr "a") ∅)), allocs := 2 }

/-- With the enumeration outside of the current group, the copy of the hint is rejected like the trial. -/
theorem string_hint_rejected : ¬ ∀ (sig : HSignature ℚ) (ptr : Bytes) (malloc : Allocator Bytes)
    (s₀ s s' : Layer (RawVal ℕ)) (h : Memory Bytes) (first point : RawPoint ℕ), malloc.Fresh →
    groupInit sig.range.length (some ptr) (Layer.loaded (RawVal ℕ)) = .ok (0, s₀) →
    Produced sig h first → groupGenerate s₀ first.val = .ok (.accept, s) →
    Produced sig h point → groupGenerate s point.val = .ok (.reject, s') →
    ∃ h' point', strategyRejected malloc (fun _ _ => none) h s'.hint point = some (h', point') ∧
      ∃ s'', groupGenerate s' point'.val = .ok (.accept, s'') := by
  intro hclaim
  have hs : OfSignature strAndInt (twoGroups [[1], [0]] [.str 0, .int 0] [.str 0, .int 0]) :=
    ⟨.cons (Or.inr trivial) (.cons (Or.inr trivial) .nil), by decide⟩
  have hfirst : Produced strAndInt twoStrings ⟨1, [RawVal.str (V := ℕ) 0, .int 0], 0⟩ :=
    ⟨.cons trivial (.cons trivial .nil), by decide⟩
  have hpoint : Produced strAndInt twoStrings ⟨2, [RawVal.str (V := ℕ) 1, .int 1], 0⟩ :=
    ⟨.cons trivial (.cons trivial .nil), by decide⟩
  obtain ⟨h', point', hcopy, s'', haccept⟩ := hclaim strAndInt (cstr "(1)") bump
    (twoGroups [[1], [0]] [.unknown, .unknown] [.unknown, .unknown])
    (twoGroups [[1], [0]] [.str 0, .int 0] [.str 0, .int 0])
    (twoGroups [[1], [0]] [.str 0, .int 0] [.str 0, .int 1]) twoStrings ⟨1, [.str 0, .int 0], 0⟩
    ⟨2, [.str 1, .int 1], 0⟩ bump_fresh (by decide +kernel) hfirst (by decide) hpoint (by decide)
  have hcheck : (strategyRejected bump (fun _ _ => none) twoStrings
      (twoGroups [[1], [0]] [.str 0, .int 0] [.str 0, .int 1]).hint ⟨2, [.str 1, .int 1], 0⟩).map
        (fun res =>
          (groupGenerate (twoGroups [[1], [0]] [.str 0, .int 0] [.str 0, .int 1]) res.2.val).map Prod.fst)
      = some (.ok .reject) := by decide +kernel
  rw [hcopy] at hcheck
  simp only [Option.map_some, Option.some.injEq] at hcheck
  rw [haccept] at hcheck
  cases hcheck

end ActiveHarmony.Group

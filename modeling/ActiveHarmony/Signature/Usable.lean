import ActiveHarmony.Lib.ListModify
import ActiveHarmony.Signature.Arithmetic

/-!
# Usable signatures

Whatever the calls are, the names of a declared signature are distinct, its integer bounds are in order, its
enumerations have distinct values, and a call that fails changes nothing. The functions of its ranges work on
every value exactly when each call that adds a range meets a condition that no declarator checks.
-/

namespace ActiveHarmony

variable {K : Type} [Field K] [LinearOrder K] [FloorRing K]

/-! ## The property and the condition -/

/-- The bounds are in order, or the values are distinct and there is one. -/
def HBounds.WellFormed : HBounds (Double K) → Prop
  | .unknown => False
  | .int min max _ => min ≤ max
  | .real min max _ => min.val.le max.val = true
  | .str set => set ≠ [] ∧ set.Nodup

/-- The functions of the range work. -/
def HBounds.Works : HBounds (Double K) → Prop
  | .unknown => False
  | .int min max step => IntWorks K min max step
  | .real min max step => RealWorks min.val max.val step.val
  | .str set => Machine.hrangeMaxIdx (.str set : HBounds (Double K)) = some (set.length - 1) ∧
      ∀ v, hrangeStrIndex set v < set.length

/-- The signature is well formed and its ranges work. -/
structure HSignature.Usable (sig : HSignature (Double K)) : Prop where
  names : (sig.range.map HRange.name).Nodup
  wellFormed : ∀ range ∈ sig.range, range.bounds.WellFormed
  works : ∀ range ∈ sig.range, range.bounds.Works

/-- The condition on the arguments of a call. -/
def Declaration.Fits : Declaration K → Prop
  | .int _ min max step => IntFits K min.val max.val step.val
  | .real _ min max step => RealFits min.val max.val step.val
  | .enum _ _ => True

/-- The call adds a range of numbers: its bounds are not the wrong way round and its name is new. -/
def Declaration.Adds (sig : HSignature (Double K)) : Declaration K → Prop
  | .int name min max _ => ¬max.val < min.val ∧ hrangeFind sig name = none
  | .real name min max _ => ¬max.val.lt min.val = true ∧ hrangeFind sig name = none
  | .enum _ _ => False

/-! ## Declared ranges -/

/-- What the declarators check of a range, and the condition on what they do not check. -/
def HBounds.Declared : HBounds (Double K) → Prop
  | .unknown => False
  | .int min max step => IsLong min ∧ IsLong max ∧ IsLong step ∧ min ≤ max
  | .real min max _ => ¬max.val.lt min.val = true
  | .str set => set ≠ [] ∧ set.Nodup

/-- The condition on the bounds of a range. -/
def HBounds.StepFits : HBounds (Double K) → Prop
  | .int min max step => IntFits K min max step
  | .real min max step => RealFits min.val max.val step.val
  | _ => True

/-- A declared range is well formed and works exactly when it fits. -/
lemma HBounds.Declared.works_iff [IsStrictOrderedRing K] {bounds : HBounds (Double K)}
    (h : bounds.Declared) : bounds.WellFormed ∧ bounds.Works ↔ bounds.StepFits := by
  cases bounds with
  | unknown => exact h.elim
  | int min max step =>
    obtain ⟨hmin, hmax, hstep, hle⟩ := h
    constructor
    · intro hw
      exact int_fits hle hmax hstep hw.2
    · intro hfits
      exact ⟨hle, int_works hle hmax hstep hfits⟩
  | real min max step =>
    constructor
    · intro hw
      exact real_fits hw.1 hw.2
    · intro hfits
      have hmin : min.val ≠ .nan := by
        obtain ⟨-, a, -, ha, -⟩ := hfits
        rw [ha]
        simp
      have hle := XReal.le_of_not_lt hmin hfits.1 h
      exact ⟨hle, real_works min.rounded hle hfits⟩
  | str set =>
    obtain ⟨hne, hnodup⟩ := h
    have hlen : set.length ≠ 0 := by simpa using hne
    constructor
    · intro hw
      trivial
    · intro hfits
      refine ⟨⟨hne, hnodup⟩, ?_, fun v => hrangeStrIndex_lt hne v⟩
      show some (if set.length = 0 then 2 ^ 64 - 1 else set.length - 1) = some (set.length - 1)
      rw [if_neg hlen]

/-- The names are distinct and the ranges are declared. -/
structure HSignature.Declared (sig : HSignature (Double K)) : Prop where
  names : (sig.range.map HRange.name).Nodup
  ranges : ∀ range ∈ sig.range, range.bounds.Declared

/-! ## One call -/

section

variable {sig : HSignature (Double K)} {call : Declaration K}

/-- A new range at the end. -/
def HSignature.push (sig : HSignature (Double K)) (name : Bytes) (bounds : HBounds (Double K)) :
    HSignature (Double K) :=
  { sig with range := sig.range ++ [⟨some name, bounds⟩] }

lemma modify_push {α : Type} (l : List α) (x : α) (f : α → α) :
    (l ++ [x]).modify l.length f = l ++ [f x] := by
  rw [ListModify.eq_set (l := l ++ [x]) (x := x) (by simp)]
  simp

lemma hrangeAdd_of_find {name : Bytes} (h : hrangeFind sig name = none) :
    hrangeAdd sig name = some (sig.push name .unknown, sig.range.length) := by
  unfold hrangeAdd
  rw [h, if_neg (by simp)]
  rfl

lemma setBounds_push (name : Bytes) (old bounds : HBounds (Double K)) :
    setBounds (sig.push name old) sig.range.length bounds = sig.push name bounds := by
  unfold setBounds HSignature.push
  rw [modify_push]

lemma hrangeAdd_isSome {name : Bytes} (h : hrangeFind sig name ≠ none) : hrangeAdd sig name = none := by
  unfold hrangeAdd
  rw [if_pos (Option.isSome_iff_ne_none.mpr h)]

/-- What the value of an enumeration does to a range that is there. -/
lemma enumAdd_cases (sig : HSignature (Double K)) (i : ℕ) (value : Bytes) :
    enumAdd sig i value = (sig, -1) ∨
      ∃ name set, sig.range[i]? = some ⟨name, .str set⟩ ∧ value ∉ set ∧
        enumAdd sig i value = (setBounds sig i (.str (set ++ [value])), 0) := by
  unfold enumAdd
  split
  next name set hget =>
    by_cases hmem : value ∈ set
    · rw [if_pos hmem]
      exact Or.inl rfl
    · rw [if_neg hmem]
      exact Or.inr ⟨name, set, hget, hmem, rfl⟩
  next => exact Or.inl rfl

/-- The bounds that a call gives to a new range. -/
def Declaration.Creates (name : Bytes) (bounds : HBounds (Double K)) : Declaration K → Prop
  | .int name' min max step => name' = name ∧ ¬max.val < min.val ∧ bounds = .int min.val max.val step.val
  | .real name' min max step => name' = name ∧ ¬max.val.lt min.val = true ∧ bounds = .real min max step
  | .enum name' value => name' = name ∧ bounds = .str [value]

/-- A call fails, adds a range with a new name, or adds a new value to an enumeration. -/
lemma declare_cases (sig : HSignature (Double K)) (call : Declaration K) :
    (declare sig call = (sig, -1) ∧ ¬call.Adds sig) ∨
      (∃ name bounds, hrangeFind sig name = none ∧ call.Creates name bounds ∧
        declare sig call = (sig.push name bounds, 0)) ∨
      ∃ i name set value, sig.range[i]? = some ⟨name, .str set⟩ ∧ value ∉ set ∧ ¬call.Adds sig ∧
        declare sig call = (setBounds sig i (.str (set ++ [value])), 0) := by
  cases call with
  | int name min max step =>
    show (hsignatureInt sig name min max step = _ ∧ _) ∨
      (∃ _ _, _ ∧ _ ∧ hsignatureInt sig name min max step = _) ∨ _
    unfold hsignatureInt
    by_cases hlt : max.val < min.val
    · rw [if_pos hlt]
      exact Or.inl ⟨rfl, fun h => h.1 hlt⟩
    · rw [if_neg hlt]
      by_cases hfind : hrangeFind sig name = none
      · rw [hrangeAdd_of_find hfind]
        refine Or.inr (Or.inl ⟨name, _, hfind, ⟨rfl, hlt, rfl⟩, ?_⟩)
        dsimp only
        rw [setBounds_push]
      · rw [hrangeAdd_isSome hfind]
        exact Or.inl ⟨rfl, fun h => hfind h.2⟩
  | real name min max step =>
    show (hsignatureReal sig name min max step = _ ∧ _) ∨
      (∃ _ _, _ ∧ _ ∧ hsignatureReal sig name min max step = _) ∨ _
    unfold hsignatureReal
    by_cases hlt : max.val.lt min.val = true
    · rw [if_pos hlt]
      exact Or.inl ⟨rfl, fun h => h.1 hlt⟩
    · rw [if_neg hlt]
      by_cases hfind : hrangeFind sig name = none
      · rw [hrangeAdd_of_find hfind]
        refine Or.inr (Or.inl ⟨name, _, hfind, ⟨rfl, hlt, rfl⟩, ?_⟩)
        dsimp only
        rw [setBounds_push]
      · rw [hrangeAdd_isSome hfind]
        exact Or.inl ⟨rfl, fun h => hfind h.2⟩
  | enum name value =>
    have hno : ¬(Declaration.enum name value : Declaration K).Adds sig := fun h => h
    show (hsignatureEnum sig name value = _ ∧ _) ∨ (∃ _ _, _ ∧ _ ∧ hsignatureEnum sig name value = _) ∨
      ∃ _ _ _ _, _ ∧ _ ∧ _ ∧ hsignatureEnum sig name value = _
    unfold hsignatureEnum
    cases hfind : hrangeFind sig name with
    | some i =>
      obtain hfail | ⟨name', set, hget, hmem, hadd⟩ := enumAdd_cases sig i value
      · exact Or.inl ⟨hfail, hno⟩
      · exact Or.inr (Or.inr ⟨i, name', set, value, hget, hmem, hno, hadd⟩)
    | none =>
      refine Or.inr (Or.inl ⟨name, .str [value], hfind, ⟨rfl, rfl⟩, ?_⟩)
      rw [hrangeAdd_of_find hfind]
      dsimp only
      rw [setBounds_push]
      have hget : (sig.push name (.str [])).range[sig.range.length]? = some ⟨some name, .str []⟩ := by
        simp [HSignature.push]
      unfold enumAdd
      rw [hget]
      dsimp only
      rw [if_neg List.not_mem_nil, setBounds_push]
      rfl

/-! ## What a call keeps -/

lemma hrangeFind_none {name : Bytes} (h : hrangeFind sig name = none) :
    some name ∉ sig.range.map HRange.name := by
  intro hmem
  obtain ⟨range, hrange, hname⟩ := List.mem_map.mp hmem
  have hne := List.findIdx?_eq_none_iff.mp h range hrange
  simp [hname] at hne

omit [Field K] [LinearOrder K] [FloorRing K] in
/-- The ranges after a value is added to an enumeration. -/
lemma mem_setBounds {V : Type} {sig : HSignature V} {i : ℕ} {name : Option Bytes} {old bounds : HBounds V}
    {range : HRange V} (hget : sig.range[i]? = some ⟨name, old⟩)
    (h : range ∈ (setBounds sig i bounds).range) : range ∈ sig.range ∨ range = ⟨name, bounds⟩ := by
  obtain hmem | ⟨range', hget', rfl⟩ := ListModify.mem_cases h
  · exact Or.inl hmem
  · rw [hget] at hget'
    obtain rfl := Option.some.inj hget'
    exact Or.inr rfl

omit [Field K] [LinearOrder K] [FloorRing K] in
lemma setBounds_names {V : Type} (sig : HSignature V) (i : ℕ) (bounds : HBounds V) :
    (setBounds sig i bounds).range.map HRange.name = sig.range.map HRange.name :=
  ListModify.map_same fun _ => rfl

/-- A call keeps the names distinct and the ranges declared. -/
lemma declare_declared (h : sig.Declared) (call : Declaration K) : (declare sig call).1.Declared := by
  obtain ⟨heq, -⟩ | ⟨name, bounds, hfind, hcreates, heq⟩ | ⟨i, name, set, value, hget, hmem, -, heq⟩ :=
    declare_cases sig call
  · rw [heq]
    exact h
  · rw [heq]
    constructor
    · unfold HSignature.push
      dsimp only
      rw [List.map_append, List.map_singleton, List.nodup_append]
      refine ⟨h.names, List.nodup_singleton _, ?_⟩
      intro a ha b hb
      obtain rfl := List.mem_singleton.mp hb
      rintro rfl
      exact hrangeFind_none hfind ha
    · intro range hrange
      obtain hold | hnew := List.mem_append.mp hrange
      · exact h.ranges range hold
      · obtain rfl := List.mem_singleton.mp hnew
        cases call with
        | int _ min max step =>
          obtain ⟨-, hle, rfl⟩ := hcreates
          exact ⟨min.isLong, max.isLong, step.isLong, not_lt.mp hle⟩
        | real _ min max step =>
          obtain ⟨-, hle, rfl⟩ := hcreates
          exact hle
        | enum _ value =>
          obtain ⟨-, rfl⟩ := hcreates
          exact ⟨List.cons_ne_nil _ _, List.nodup_singleton _⟩
  · rw [heq]
    constructor
    · rw [setBounds_names]
      exact h.names
    · intro range hrange
      obtain hold | rfl := mem_setBounds hget hrange
      · exact h.ranges range hold
      · obtain ⟨-, hnodup⟩ := h.ranges _ (List.mem_of_getElem? hget)
        refine ⟨by simp, ?_⟩
        show (set ++ [value]).Nodup
        rw [List.nodup_append]
        refine ⟨hnodup, List.nodup_singleton _, ?_⟩
        intro a ha b hb
        obtain rfl := List.mem_singleton.mp hb
        rintro rfl
        exact hmem ha

/-- The new range of a call fits exactly when its arguments do. -/
lemma Declaration.Creates.fits_iff {name : Bytes} {bounds : HBounds (Double K)} {call : Declaration K}
    (hfind : hrangeFind sig name = none) (h : call.Creates name bounds) :
    bounds.StepFits ↔ (call.Adds sig → call.Fits) := by
  cases call with
  | int _ min max step =>
    obtain ⟨rfl, hle, rfl⟩ := h
    exact ⟨fun hfits _ => hfits, fun hfits => hfits ⟨hle, hfind⟩⟩
  | real _ min max step =>
    obtain ⟨rfl, hle, rfl⟩ := h
    exact ⟨fun hfits _ => hfits, fun hfits => hfits ⟨hle, hfind⟩⟩
  | enum _ value =>
    obtain ⟨-, rfl⟩ := h
    exact ⟨fun _ _ => trivial, fun _ => trivial⟩

/-- After a call the ranges fit exactly when they did and the call fits if it adds one. -/
lemma declare_fits (sig : HSignature (Double K)) (call : Declaration K) :
    (∀ range ∈ (declare sig call).1.range, range.bounds.StepFits) ↔
      (∀ range ∈ sig.range, range.bounds.StepFits) ∧ (call.Adds sig → call.Fits) := by
  obtain ⟨heq, hno⟩ | ⟨name, bounds, hfind, hcreates, heq⟩ | ⟨i, name, set, value, hget, -, hno, heq⟩ :=
    declare_cases sig call
  · rw [heq]
    exact ⟨fun h => ⟨h, fun hadds => absurd hadds hno⟩, fun h => h.1⟩
  · rw [heq, ← hcreates.fits_iff hfind]
    constructor
    · intro h
      refine ⟨fun range hrange => h range (List.mem_append_left _ hrange), ?_⟩
      exact h ⟨some name, bounds⟩ (List.mem_append_right _ (List.mem_singleton_self _))
    · rintro ⟨hold, hnew⟩ range hrange
      obtain hmem | hmem := List.mem_append.mp hrange
      · exact hold range hmem
      · obtain rfl := List.mem_singleton.mp hmem
        exact hnew
  · rw [heq]
    constructor
    · intro h
      refine ⟨?_, fun hadds => absurd hadds hno⟩
      intro range hrange
      obtain ⟨j, hj⟩ := List.mem_iff_getElem?.mp hrange
      by_cases hij : i = j
      · -- the enumeration itself
        rw [← hij, hget] at hj
        obtain rfl := Option.some.inj hj
        trivial
      · apply h
        apply List.mem_of_getElem? (i := j)
        show (sig.range.modify i _)[j]? = some range
        rw [List.getElem?_modify, hj]
        exact congrArg some (if_neg hij)
    · rintro ⟨hold, -⟩ range hrange
      obtain hmem | rfl := mem_setBounds hget hrange
      · exact hold range hmem
      · trivial

/-- A call that fails changes nothing. -/
lemma declare_unchanged (h : (declare sig call).2 = -1) : (declare sig call).1 = sig := by
  obtain ⟨heq, -⟩ | ⟨name, bounds, -, -, heq⟩ | ⟨i, name, set, value, -, -, -, heq⟩ := declare_cases sig call
  · rw [heq]
  · rw [heq] at h
    cases h
  · rw [heq] at h
    cases h

/-! ## All calls -/

lemma declareAll_concat (calls : List (Declaration K)) (call : Declaration K) :
    declareAll (calls ++ [call]) = (declare (declareAll calls) call).1 := by
  unfold declareAll
  rw [List.foldl_append]
  rfl

lemma declareAll_declared (calls : List (Declaration K)) : (declareAll calls).Declared := by
  induction calls using List.reverseRecOn with
  | nil => exact ⟨List.nodup_nil, fun range hrange => absurd hrange List.not_mem_nil⟩
  | append_singleton calls call ih =>
    rw [declareAll_concat]
    exact declare_declared ih call

/-- The ranges fit exactly when all calls fit that add one. -/
lemma declareAll_fits (calls : List (Declaration K)) :
    (∀ range ∈ (declareAll calls).range, range.bounds.StepFits) ↔
      ∀ before call, before ++ [call] <+: calls → call.Adds (declareAll before) → call.Fits := by
  induction calls using List.reverseRecOn with
  | nil =>
    constructor
    · intro _ before call hbegin
      simp at hbegin
    · intro _ range hrange
      exact absurd hrange List.not_mem_nil
  | append_singleton calls last ih =>
    rw [declareAll_concat, declare_fits, ih]
    constructor
    · rintro ⟨hold, hnew⟩ before call hbegin
      obtain heq | hbegin := List.prefix_concat_iff.mp hbegin
      · obtain ⟨rfl, hlast⟩ := List.append_inj' heq rfl
        obtain rfl := List.singleton_inj.mp hlast
        exact hnew
      · exact hold before call hbegin
    · intro h
      refine ⟨?_, h calls last (List.prefix_refl _)⟩
      intro before call hbegin
      exact h before call (hbegin.trans (List.prefix_append _ _))

/-- A declared signature is usable, and calls that fail change nothing, exactly when every call that adds a
range of numbers meets the condition. -/
theorem declared_usable_iff [IsStrictOrderedRing K] (calls : List (Declaration K)) :
    ((declareAll calls).Usable ∧ ∀ before call, before ++ [call] <+: calls →
      (declare (declareAll before) call).2 = -1 →
        (declare (declareAll before) call).1 = declareAll before) ↔
    ∀ before call, before ++ [call] <+: calls → call.Adds (declareAll before) → call.Fits := by
  have hdeclared := declareAll_declared calls
  rw [← declareAll_fits]
  constructor
  · rintro ⟨husable, -⟩ range hrange
    exact (hdeclared.ranges range hrange).works_iff.mp
      ⟨husable.wellFormed range hrange, husable.works range hrange⟩
  · intro hfits
    have hboth : ∀ range ∈ (declareAll calls).range, range.bounds.WellFormed ∧ range.bounds.Works :=
      fun range hrange => (hdeclared.ranges range hrange).works_iff.mpr (hfits range hrange)
    refine ⟨⟨hdeclared.names, fun range hrange => (hboth range hrange).1,
      fun range hrange => (hboth range hrange).2⟩, ?_⟩
    intro before call _ hfail
    exact declare_unchanged hfail

end

/-- From `0` to `10` by `3`. -/
theorem declared_usable_by_three :
    (declareAll ([.int [120] ⟨0, by decide⟩ ⟨10, by decide⟩ ⟨3, by decide⟩] :
      List (Declaration ℚ))).Usable := by
  refine ((declared_usable_iff _).mpr ?_).1
  intro before call hbegin _
  have hround : binary64.round ((3 : ℤ) : ℚ) = ((3 : ℤ) : ℚ) :=
    FloatFormat.round_eq_self (representable_int (by decide))
  obtain ⟨rest, hrest⟩ := hbegin
  cases before with
  | nil =>
    obtain ⟨rfl, -⟩ := List.cons.inj hrest
    exact ⟨rfl, Or.inl ⟨by decide, hround.le⟩⟩
  | cons first before =>
    have hlen := congrArg List.length hrest
    simp at hlen

/-- A step of zero is accepted. -/
theorem zero_step_accepted :
    (declare ⟨none, []⟩ (.int [120] ⟨0, by decide⟩ ⟨10, by decide⟩ ⟨0, by decide⟩ : Declaration ℚ)).2 = 0 ∧
    ¬(declareAll ([.int [120] ⟨0, by decide⟩ ⟨10, by decide⟩ ⟨0, by decide⟩] :
      List (Declaration ℚ))).Usable := by
  refine ⟨rfl, ?_⟩
  intro husable
  have hworks : IntWorks ℚ 0 10 0 := husable.works ⟨some [120], .int 0 10 0⟩ List.mem_cons_self
  exact absurd hworks.1 (by decide)

end ActiveHarmony

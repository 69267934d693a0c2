import ActiveHarmony.CString
import Mathlib.Data.List.Basic

/-!
# The list of sub-strategies of `bandit.c`

`parse_strategies` loads the sub-strategies that a list names. Its variables `strat` and `lib` are not
initialized: the name and the handle of a sub-strategy are stored before `strat` is set to the entry they are
for, and a list without a name does not set `lib`. So what the function does is settled only where it gives up
on the first name.

What the two variables hold at the start is a parameter. A store through an address that is in no entry, and a
release of what is not held, have no result.
-/

namespace ActiveHarmony.BanditList

/-- The functions of a sub-strategy. -/
inductive Hook where
  | generate | rejected | analyze | hint | best | init | join | getcfg | setcfg | fini
deriving DecidableEq, Repr

/-- The name that is looked up. -/
def Hook.symbol : Hook → Bytes
  | .generate => cstr "strategy_generate"
  | .rejected => cstr "strategy_rejected"
  | .analyze => cstr "strategy_analyze"
  | .hint => cstr "strategy_hint"
  | .best => cstr "strategy_best"
  | .init => cstr "strategy_init"
  | .join => cstr "strategy_join"
  | .getcfg => cstr "strategy_getcfg"
  | .setcfg => cstr "strategy_setcfg"
  | .fini => cstr "strategy_fini"

/-- The functions that are looked up before the check. -/
def Hook.early : Hook → Bool
  | .generate | .rejected | .analyze | .hint | .best => true
  | _ => false

/-- The functions that a sub-strategy must define. -/
def requiredHooks : List Hook := [.generate, .rejected, .analyze, .best]

/-- The configuration and the dynamic linker: a handle is a number, and a function is an `F`. -/
structure Linker (F : Type) where
  harmonyHome : Bytes
  dlopen : Bytes → Option ℕ
  dlerror : Bytes → Bytes
  dlsym : ℕ → Bytes → Option F

variable {F : Type}

/-- The path of a library. -/
def Linker.path (env : Linker F) (name : Bytes) : Bytes := env.harmonyHome ++ (cstr "/libexec/" ++ name)

/-- What has to be released: a name by the number of its allocation, and a handle as often as it was opened. -/
inductive Resource where
  | name (id : ℕ)
  | lib (handle : ℕ)
deriving DecidableEq, Repr

/-- `strategy_t`; a name has the number of its allocation. -/
structure Entry (F : Type) where
  name : Option (ℕ × Bytes)
  lib : Option ℕ
  hook : Hook → Option F

/-- An entry of cleared memory. -/
def Entry.zero : Entry F := { name := none, lib := none, hook := fun _ => none }

/-- An address: the entry of one of the blocks that the array had, or any other. -/
abbrev Address := Option (ℕ × ℕ)

/-- The variables of `parse_strategies`; `strat_cap` is the length of `strategies`, which was moved `moves`
times. -/
structure Vars (F : Type) where
  strategies : List (Entry F)
  moves : ℕ
  stratCount : ℕ
  strat : Address
  name : Option (ℕ × Bytes)
  lib : Option ℕ
  errmsg : Option Bytes
  names : ℕ
  held : List Resource

/-- `array_grow`. -/
def Vars.grow (s : Vars F) : Vars F :=
  let cap := s.strategies.length
  { s with
    strategies := s.strategies ++ List.replicate ((if 8 ≤ cap then 2 * cap else 8) - cap) Entry.zero
    moves := s.moves + 1 }

/-- A store through `strat`. -/
def Vars.store (s : Vars F) (f : Entry F → Entry F) : Option (Vars F) :=
  match s.strat with
  | none => none
  | some (block, i) =>
    if block = s.moves ∧ i < s.strategies.length then some { s with strategies := s.strategies.modify i f }
    else none

/-- `free` or `dlclose`. -/
def Vars.release (s : Vars F) (r : Resource) : Option (Vars F) :=
  if r ∈ s.held then some { s with held := s.held.erase r } else none

/-- The next name of a list, and what is behind its colon. -/
def nextName (list : Bytes) : Bytes × Option Bytes :=
  (list.takeWhile fun c => c != 58, (list.dropWhile fun c => c != 58).tail?)

/-- The loop over the names: `retval`, and the variables at the label `cleanup`. -/
def loadLoop (env : Linker F) : ℕ → Vars F → Bytes → Option (ℤ × Vars F)
  | 0, _, _ => none
  | fuel + 1, s, list =>
    if list = [] then some (0, s)
    else
      let s := if s.stratCount = s.strategies.length then s.grow else s
      let (text, rest) := nextName list
      let s := { s with name := some (s.names, text), names := s.names + 1, held := .name s.names :: s.held }
      match env.dlopen (env.path text) with
      | none => some (-1, { s with lib := none, errmsg := some (env.dlerror (env.path text)) })
      | some lib => do
        let s := { s with lib := some lib, held := .lib lib :: s.held }
        let s ← s.store fun entry => { entry with name := s.name, lib := s.lib }
        -- load function pointers into the data structure
        let s := { s with strat := some (s.moves, s.stratCount) }
        let s ← s.store fun entry =>
          { entry with hook := fun h => if h.early then env.dlsym lib h.symbol else entry.hook h }
        -- make sure the required functions are present
        if requiredHooks.any fun h => (env.dlsym lib h.symbol).isNone then
          return (-1, { s with errmsg := some (cstr "Sub-strategy does not define all required functions") })
        else
          let s ← s.store fun entry =>
            { entry with hook := fun h => if h.early then entry.hook h else env.dlsym lib h.symbol }
          let s := { s with name := none, lib := none, stratCount := s.stratCount + 1 }
          match rest with
          | none => return (0, s)
          | some list => loadLoop env fuel s list

/-- `free_strat`. -/
def freeStrat (s : Vars F) (entry : Entry F) : Option (Vars F) := do
  let s ← match entry.name with
    | none => some s
    | some (id, _) => s.release (.name id)
  match entry.lib with
  | none => some s
  | some lib => s.release (.lib lib)

/-- From the label `cleanup` on. -/
def cleanup (retval : ℤ) (s : Vars F) : Option (ℤ × Vars F) := do
  let s ← match s.name with
    | none => some s
    | some (id, _) => s.release (.name id)
  let s ← match s.lib with
    | none => some s
    | some lib => s.release (.lib lib)
  if retval = -1 then
    let s ← (s.strategies.take s.stratCount).foldlM freeStrat s
    return (retval, s)
  else return (retval, s)

/-- `parse_strategies`, with what `strat` and `lib` hold at the start. -/
def parseStrategies (env : Linker F) (strat : Address) (lib : Option ℕ) (list : Bytes) :
    Option (ℤ × Vars F) := do
  let s : Vars F :=
    { strategies := [], moves := 0, stratCount := 0, strat := strat, name := none, lib := lib, errmsg := none
      names := 0, held := [] }
  let (retval, s) ← loadLoop env (list.length + 1) s list
  cleanup retval s

/-! ## What the function is for -/

/-- The names of a list; a colon at the end has no name behind it. -/
def strategyNames : Bytes → List Bytes
  | [] => []
  | c :: list =>
    if c = 58 then [] :: strategyNames list
    else
      match strategyNames list with
      | [] => [[c]]
      | name :: names => (c :: name) :: names

/-- The library can be opened, and it defines the required functions. -/
def Loadable (env : Linker F) (name : Bytes) : Prop :=
  ∃ lib, env.dlopen (env.path name) = some lib ∧ ∀ h ∈ requiredHooks, (env.dlsym lib h.symbol).isSome

/-- An entry holds what was loaded for a name. -/
structure Holds (env : Linker F) (entry : Entry F) (text : Bytes) : Prop where
  name : entry.name.map Prod.snd = some text
  lib : entry.lib = env.dlopen (env.path text)
  hook : ∀ h, entry.hook h = entry.lib.bind fun lib => env.dlsym lib h.symbol

/-- All names were loaded; or one could not be, and nothing that was acquired is held any more. -/
structure Loads (env : Linker F) (list : Bytes) (retval : ℤ) (s : Vars F) : Prop where
  loaded : (∀ name ∈ strategyNames list, Loadable env name) →
    retval = 0 ∧ s.stratCount = (strategyNames list).length ∧
      List.Forall₂ (Holds env) (s.strategies.take s.stratCount) (strategyNames list)
  released : (∃ name ∈ strategyNames list, ¬Loadable env name) → retval = -1 ∧ s.held = []

variable {env : Linker F} {list : Bytes}

lemma nextName_cons {c : UInt8} (hc : c ≠ 58) (list : Bytes) :
    (nextName (c :: list)).1 = c :: (nextName list).1 := by
  show (c :: list).takeWhile (fun c => c != 58) = _
  have hpos : (c != 58) = true := bne_iff_ne.mpr hc
  rw [List.takeWhile_cons, if_pos hpos]
  rfl

/-- The loop starts with the first name. -/
lemma head?_strategyNames (h : list ≠ []) : (strategyNames list).head? = some (nextName list).1 := by
  induction list with
  | nil => exact absurd rfl h
  | cons c list ih =>
    rw [strategyNames]
    by_cases hc : c = 58
    · rw [if_pos hc, hc]
      rfl
    · rw [if_neg hc, nextName_cons hc]
      cases list with
      | nil => rfl
      | cons d list =>
        have hnext := ih (List.cons_ne_nil d list)
        cases hnames : strategyNames (d :: list) with
        | nil =>
          rw [hnames] at hnext
          cases hnext
        | cons name names =>
          rw [hnames] at hnext
          cases hnext
          rfl

/-! ## When it does it -/

/-- The variables before the library of the next name is opened. -/
def Vars.take (s : Vars F) (text : Bytes) : Vars F :=
  let s := if s.stratCount = s.strategies.length then s.grow else s
  { s with name := some (s.names, text), names := s.names + 1, held := .name s.names :: s.held }

lemma loadLoop_unopened {fuel : ℕ} {s : Vars F} (hlist : list ≠ [])
    (hopen : env.dlopen (env.path (nextName list).1) = none) :
    loadLoop env (fuel + 1) s list = some (-1, { s.take (nextName list).1 with
      lib := none, errmsg := some (env.dlerror (env.path (nextName list).1)) }) := by
  unfold loadLoop
  rw [if_neg hlist]
  dsimp only
  rw [hopen]
  rfl

lemma Vars.store_of_wild {s : Vars F} (h : s.strat = none) (f : Entry F → Entry F) : s.store f = none := by
  unfold Vars.store
  rw [h]

/-- The name and the handle are stored through an address that was never set. -/
lemma loadLoop_wild {fuel handle : ℕ} {s : Vars F} (hlist : list ≠ [])
    (hopen : env.dlopen (env.path (nextName list).1) = some handle) (hstrat : s.strat = none) :
    loadLoop env (fuel + 1) s list = none := by
  have hkeep : (if s.stratCount = s.strategies.length then s.grow else s).strat = none := by
    split_ifs
    · exact hstrat
    · exact hstrat
  unfold loadLoop
  rw [if_neg hlist]
  dsimp only
  rw [hopen]
  -- `strat->name = name` comes before `strat` is set.
  show (Vars.store _ _).bind _ = none
  rw [Vars.store_of_wild]
  · rfl
  · exact hkeep

/-- The library of the first name cannot be opened: the name is released, and there is no handle. -/
lemma parseStrategies_unopened (hlist : list ≠ []) (hopen : env.dlopen (env.path (nextName list).1) = none)
    (strat : Address) (lib : Option ℕ) :
    ∃ s, parseStrategies env strat lib list = some (-1, s) ∧ s.held = [] := by
  unfold parseStrategies
  dsimp only
  rw [loadLoop_unopened hlist hopen]
  exact ⟨_, rfl, rfl⟩

lemma parseStrategies_wild (hlist : list ≠ []) {handle : ℕ}
    (hopen : env.dlopen (env.path (nextName list).1) = some handle) (lib : Option ℕ) :
    parseStrategies env none lib list = none := by
  unfold parseStrategies
  dsimp only
  rw [loadLoop_wild hlist hopen rfl]
  rfl

/-- Whatever `strat` and `lib` hold at the start, the sub-strategies are loaded, or everything is released, if
and only if the list is not empty and the library of its first name cannot be opened. -/
theorem parseStrategies_loads_iff (env : Linker F) (list : Bytes) :
    (∀ (strat : Address) (lib : Option ℕ), ∃ retval s,
      parseStrategies env strat lib list = some (retval, s) ∧ Loads env list retval s) ↔
    list ≠ [] ∧ env.dlopen (env.path (nextName list).1) = none := by
  constructor
  · intro h
    have hlist : list ≠ [] := by
      rintro rfl
      obtain ⟨retval, s, hrun, -⟩ := h none (some 0)
      cases hrun
    refine ⟨hlist, ?_⟩
    cases hopen : env.dlopen (env.path (nextName list).1) with
    | none => rfl
    | some handle =>
      obtain ⟨retval, s, hrun, -⟩ := h none none
      rw [parseStrategies_wild hlist hopen] at hrun
      cases hrun
  · rintro ⟨hlist, hopen⟩ strat lib
    obtain ⟨s, hrun, hheld⟩ := parseStrategies_unopened hlist hopen strat lib
    refine ⟨-1, s, hrun, ?_, fun _ => ⟨rfl, hheld⟩⟩
    intro hall
    obtain ⟨handle, hhandle, -⟩ := hall _ (List.mem_of_mem_head? (head?_strategyNames hlist))
    rw [hopen] at hhandle
    cases hhandle

/-- A linker that opens every library, and finds every function. -/
def anyLinker : Linker Unit where
  harmonyHome := cstr "/opt/harmony"
  dlopen _ := some 7
  dlerror _ := []
  dlsym _ _ := some ()

/-- One name that can be loaded: with an address that is in no entry the store fails; with one that happens to
be in another entry, the entry of the sub-strategy has no name. -/
theorem parseStrategies_one_name :
    (∀ name ∈ strategyNames (cstr "nm.so"), Loadable anyLinker name) ∧
    (¬∀ (strat : Address) (lib : Option ℕ), ∃ retval s,
      parseStrategies anyLinker strat lib (cstr "nm.so") = some (retval, s) ∧
        Loads anyLinker (cstr "nm.so") retval s) ∧
    ((parseStrategies anyLinker (some (1, 5)) none (cstr "nm.so")).map fun res =>
      (res.1, res.2.stratCount, res.2.strategies.map Entry.name)) =
      some (0, 1, [none, none, none, none, none, some (0, cstr "nm.so"), none, none]) := by
  refine ⟨?_, ?_, rfl⟩
  · intro name _
    exact ⟨7, rfl, fun h _ => rfl⟩
  · intro h
    obtain ⟨retval, s, hrun, -⟩ := h none none
    cases hrun

end ActiveHarmony.BanditList

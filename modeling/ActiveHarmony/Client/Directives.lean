import ActiveHarmony.Client.Descriptor

/-!
# Directives on the command line

`harmony_init` takes the directives out of `argv`, and the descriptor applies them when a session is
launched or joined. `directives_applied_iff` says for which command lines this works in both ways.
-/

namespace ActiveHarmony

/-! ## Taking the directives out of `argv` -/

/-- The token that ends the directives. -/
def stopToken : Bytes := cstr "--"

/-- The array `argv`, the index `j` of the next argument that is kept, and the directives so far. -/
structure ArgScan where
  argv : List (Option Bytes)
  j : ℕ
  cmd : List Bytes
deriving DecidableEq, Repr

/-- The loop of `harmony_init`, with `n` arguments to go. -/
def scanArgv (argc : ℕ) : ℕ → Bool → ArgScan → Option ArgScan
  | 0, _, s => some s
  | n + 1, stop, s =>
    match (s.argv[argc - (n + 1)]?).join with
    | none => none
    | some arg =>
      -- Stop looking for configuration directives upon "--" token.
      let stop := stop || arg == stopToken
      if !stop && hcfgIsCmd arg then scanArgv argc n stop { s with cmd := s.cmd ++ [arg] }
      else scanArgv argc n stop { s with argv := s.argv.set s.j (some arg), j := s.j + 1 }

/-- What `harmony_init` does with `argc` and `argv`, which ends with a `NULL`: the array, the number of
arguments and the directives after it. -/
def initArgv (argv : List Bytes) : Option (List (Option Bytes) × ℕ × List Bytes) :=
  (scanArgv argv.length (argv.length - 1) false ⟨argv.map some ++ [none], 1, []⟩).map fun s =>
    if s.j ≠ argv.length then (s.argv.set s.j none, s.j, s.cmd) else (s.argv, argv.length, s.cmd)

/-- The arguments that are no directives, or stand behind the token. -/
def keptArgs (args : List Bytes) : List Bytes :=
  (args.takeWhile (· ≠ stopToken)).filter (fun arg => !hcfgIsCmd arg) ++ args.dropWhile (· ≠ stopToken)

/-- The directives in front of the token. -/
def storedArgs (args : List Bytes) : List Bytes := (args.takeWhile (· ≠ stopToken)).filter hcfgIsCmd

lemma args_stop (rest : List Bytes) :
    keptArgs (stopToken :: rest) = stopToken :: rest ∧ storedArgs (stopToken :: rest) = [] := by
  unfold keptArgs storedArgs
  rw [List.takeWhile_cons_of_neg (by simp), List.dropWhile_cons_of_neg (by simp)]
  exact ⟨rfl, rfl⟩

lemma args_directive {arg : Bytes} (hstop : arg ≠ stopToken) (hcmd : hcfgIsCmd arg = true)
    (rest : List Bytes) :
    keptArgs (arg :: rest) = keptArgs rest ∧ storedArgs (arg :: rest) = arg :: storedArgs rest := by
  unfold keptArgs storedArgs
  rw [List.takeWhile_cons_of_pos (by simpa using hstop), List.dropWhile_cons_of_pos (by simpa using hstop),
    List.filter_cons_of_neg (by simp [hcmd]), List.filter_cons_of_pos hcmd]
  exact ⟨rfl, rfl⟩

lemma args_other {arg : Bytes} (hstop : arg ≠ stopToken) (hcmd : hcfgIsCmd arg = false) (rest : List Bytes) :
    keptArgs (arg :: rest) = arg :: keptArgs rest ∧ storedArgs (arg :: rest) = storedArgs rest := by
  unfold keptArgs storedArgs
  rw [List.takeWhile_cons_of_pos (by simpa using hstop), List.dropWhile_cons_of_pos (by simpa using hstop),
    List.filter_cons_of_pos (by simp [hcmd]), List.filter_cons_of_neg (by simp [hcmd])]
  exact ⟨rfl, rfl⟩

/-- The loop moves the arguments that are kept to the front, over the gap that the directives leave. -/
lemma scanArgv_spec (argc : ℕ) (rest : List Bytes) (stop : Bool) (front gap : List (Option Bytes))
    (cmd : List Bytes) (hargc : argc = front.length + gap.length + rest.length) :
    ∃ gap', scanArgv argc rest.length stop ⟨front ++ (gap ++ (rest.map some ++ [none])), front.length, cmd⟩ =
        some ⟨front ++ ((if stop then rest else keptArgs rest).map some ++ (gap' ++ [none])),
          front.length + (if stop then rest else keptArgs rest).length,
          cmd ++ (if stop then [] else storedArgs rest)⟩ ∧
      front.length + (if stop then rest else keptArgs rest).length + gap'.length = argc := by
  induction rest generalizing stop front gap cmd with
  | nil =>
    refine ⟨gap, ?_, ?_⟩
    · cases stop <;> simp [scanArgv, keptArgs, storedArgs]
    · cases stop <;> simp [keptArgs, hargc]
  | cons arg rest ih =>
    have hidx : argc - (rest.length + 1) = (front ++ gap).length := by
      rw [hargc, List.length_append, List.length_cons]
      omega
    have hread : ((front ++ (gap ++ ((arg :: rest).map some ++ [none])))[argc - (rest.length + 1)]?).join
        = some arg := by
      rw [hidx, ← List.append_assoc, List.getElem?_append_right (le_refl _), Nat.sub_self]
      rfl
    -- writing over the first cell behind the arguments that are kept
    obtain ⟨x, tail, htail⟩ : ∃ x tail, gap ++ [some arg] = x :: tail :=
      List.exists_cons_of_ne_nil (by simp)
    have hlen := congrArg List.length htail
    rw [List.length_append, List.length_singleton, List.length_cons] at hlen
    have hset : (front ++ (gap ++ ((arg :: rest).map some ++ [none]))).set front.length (some arg) =
        (front ++ [some arg]) ++ (tail ++ (rest.map some ++ [none])) := by
      have hcells : gap ++ ((arg :: rest).map some ++ [none]) = x :: (tail ++ (rest.map some ++ [none])) := by
        rw [← List.cons_append, ← htail]
        simp
      rw [hcells, List.set_append_right _ _ (le_refl _), Nat.sub_self, List.append_assoc]
      rfl
    have hkeep : ∀ stop', ∃ gap', scanArgv argc rest.length stop'
          ⟨(front ++ (gap ++ ((arg :: rest).map some ++ [none]))).set front.length (some arg),
            front.length + 1, cmd⟩ =
        some ⟨front ++ ((arg :: if stop' then rest else keptArgs rest).map some ++ (gap' ++ [none])),
          front.length + (arg :: if stop' then rest else keptArgs rest).length,
          cmd ++ (if stop' then [] else storedArgs rest)⟩ ∧
        front.length + (arg :: if stop' then rest else keptArgs rest).length + gap'.length = argc := by
      intro stop'
      obtain ⟨gap', hscan, htotal⟩ := ih stop' (front ++ [some arg]) tail cmd (by
        rw [hargc, List.length_append, List.length_singleton, List.length_cons]
        omega)
      rw [List.length_append, List.length_singleton] at hscan htotal
      refine ⟨gap', ?_, ?_⟩
      · rw [hset, hscan, List.length_cons, List.map_cons]
        simp only [List.append_assoc, List.cons_append, List.nil_append]
        congr 2
        omega
      · rw [List.length_cons]
        omega
    rw [List.length_cons, scanArgv, hread]
    dsimp only
    cases stop with
    | true => exact hkeep true
    | false =>
      by_cases hstop : arg = stopToken
      · obtain ⟨hkept, hstored⟩ := args_stop rest
        subst hstop
        rw [hkept, hstored]
        exact hkeep true
      · have htoken : (false || arg == stopToken) = false := by simpa using hstop
        rw [htoken]
        cases hcmd : hcfgIsCmd arg with
        | true =>
          obtain ⟨hkept, hstored⟩ := args_directive hstop hcmd rest
          obtain ⟨gap', hscan, htotal⟩ := ih false front (gap ++ [some arg]) (cmd ++ [arg]) (by
            rw [hargc, List.length_append, List.length_singleton, List.length_cons]
            omega)
          rw [hkept, hstored]
          refine ⟨gap', ?_, htotal⟩
          have hcells : front ++ (gap ++ ((arg :: rest).map some ++ [none])) =
              front ++ (gap ++ [some arg] ++ (rest.map some ++ [none])) := by simp
          have hcmds : cmd ++ arg :: storedArgs rest = cmd ++ [arg] ++ storedArgs rest := by simp
          rw [hcells]
          have hend : (if false = true then [] else arg :: storedArgs rest) = arg :: storedArgs rest :=
            if_neg (by decide)
          rw [hend, hcmds]
          exact hscan
        | false =>
          obtain ⟨hkept, hstored⟩ := args_other hstop hcmd rest
          rw [hkept, hstored]
          exact hkeep false

/-- `harmony_init` keeps the arguments that are no directives, in order and with a `NULL` behind them, and
stores the directives. -/
theorem initArgv_spec (program : Bytes) (args : List Bytes) :
    ∃ argv, initArgv (program :: args) = some (argv, (keptArgs args).length + 1, storedArgs args) ∧
      argv.take ((keptArgs args).length + 1) = (program :: keptArgs args).map some ∧
      argv[(keptArgs args).length + 1]? = some none := by
  obtain ⟨gap, hscan, htotal⟩ := scanArgv_spec (args.length + 1) args false [some program] [] [] (by
    rw [List.length_singleton, List.length_nil]
    omega)
  rw [List.length_singleton] at hscan htotal
  rw [if_neg (by decide)] at hscan htotal
  rw [if_neg (by decide), List.nil_append, List.nil_append] at hscan
  have hstart : ([some program] ++ (args.map some ++ [none]) : List (Option Bytes)) =
      (program :: args).map some ++ [none] := rfl
  rw [hstart] at hscan
  have hlen : ([some program] ++ (keptArgs args).map some).length = (keptArgs args).length + 1 := by simp
  unfold initArgv
  rw [List.length_cons, Nat.add_sub_cancel, hscan, Option.map_some]
  dsimp only
  by_cases hall : 1 + (keptArgs args).length = args.length + 1
  · obtain rfl : gap = [] := by
      rw [← List.length_eq_zero_iff]
      omega
    rw [if_neg (not_not.mpr hall), ← hall, Nat.add_comm]
    refine ⟨_, rfl, ?_, ?_⟩
    · rw [← List.append_assoc, List.take_left' hlen]
      rfl
    · rw [← List.append_assoc, List.getElem?_append_right (by omega), hlen, Nat.sub_self]
      rfl
  · obtain ⟨x, gap', rfl⟩ : ∃ x gap', gap = x :: gap' :=
      List.exists_cons_of_ne_nil (by
        rintro rfl
        rw [List.length_nil] at htotal
        omega)
    rw [if_pos hall, Nat.add_comm]
    refine ⟨_, rfl, ?_, ?_⟩
    · rw [← List.append_assoc, ← hlen, List.set_append_right _ _ (le_refl _), List.take_left]
      rfl
    · rw [← List.append_assoc, ← hlen, List.set_append_right _ _ (le_refl _),
        List.getElem?_append_right (le_refl _), Nat.sub_self]
      rfl

/-- The directives are those of the descriptor. -/
lemma storedArgs_cmd {V : Type} (args : List Bytes) :
    (Descriptor.harmonyInit (V := V) args).cmd = storedArgs args := rfl

/-! ## Applying the directives -/

/-- `hcfg_parse` accepts the string, with a key. -/
def CommandAccepted (cmd : Bytes) : Prop :=
  hcfgNext cmd ≠ none ∧ ∃ key val, hcfgParse cmd = some (some key, val)

/-- Apply `hcfg_parse` and `hcfg_set` to each directive in order. -/
def applyAll : List Bytes → Hcfg → Option Hcfg
  | [], cfg => some cfg
  | cmd :: cmds, cfg =>
    match hcfgParse cmd with
    | some (some key, val) =>
      (hcfgSet cfg key val).bind fun res => if res.1 ≠ 0 then none else applyAll cmds res.2
    | _ => none

/-- `harmony_launch` applies accepted directives as they should be. -/
lemma launchArgv_accepted {cmds : List Bytes} (h : ∀ cmd ∈ cmds, CommandAccepted cmd) (cfg cfg' : Hcfg) :
    Descriptor.launchArgv cmds cfg = .ok (none, cfg') ↔ applyAll cmds cfg = some cfg' := by
  induction cmds generalizing cfg with
  | nil => simp [Descriptor.launchArgv, applyAll]
  | cons cmd cmds ih =>
    obtain ⟨hnext, key, val, hparse⟩ := h cmd List.mem_cons_self
    have hrest := ih fun c hc => h c (List.mem_cons_of_mem cmd hc)
    rw [Descriptor.launchArgv, if_neg hnext, applyAll, hparse]
    dsimp only
    cases hset : hcfgSet cfg key val with
    | none => simp
    | some res =>
      obtain ⟨ret, cfg₁⟩ := res
      rw [Option.bind_some]
      by_cases hret : ret ≠ 0
      · simp [hret]
      · simp only [hret, if_false, hrest]

/-- `harmony_join` refuses the first directive that is accepted. -/
lemma joinArgv_accepted {cmd : Bytes} (h : CommandAccepted cmd) (cmds : List Bytes) (cfg cfg' : Hcfg) :
    Descriptor.joinArgv (cmd :: cmds) cfg ≠ .ok (none, cfg') := by
  obtain ⟨next, hnext⟩ := Option.ne_none_iff_exists'.mp h.1
  rw [Descriptor.joinArgv_parsed hnext]
  simp

/-- What is expected of a command line: the array keeps the other arguments, all directives are accepted,
and both calls apply them to the configuration. -/
structure DirectivesApplied (program : Bytes) (args : List Bytes) (cfg : Hcfg) : Prop where
  kept : ∃ argv, initArgv (program :: args) = some (argv, (keptArgs args).length + 1, storedArgs args) ∧
    argv.take ((keptArgs args).length + 1) = (program :: keptArgs args).map some
  accepted : ∀ cmd ∈ storedArgs args, CommandAccepted cmd
  applied : ∃ cfg', applyAll (storedArgs args) cfg = some cfg' ∧
    Descriptor.launchArgv (storedArgs args) cfg = .ok (none, cfg') ∧
    Descriptor.joinArgv (storedArgs args) cfg = .ok (none, cfg')

/-- A command line is treated as it should be exactly if no argument in front of the token is a directive. -/
theorem directives_applied_iff (program : Bytes) (args : List Bytes) (cfg : Hcfg) :
    DirectivesApplied program args cfg ↔
      ∀ arg ∈ args.takeWhile (· ≠ stopToken), hcfgIsCmd arg = false := by
  constructor
  · intro h
    have hnone : storedArgs args = [] := by
      cases hstored : storedArgs args with
      | nil => rfl
      | cons cmd cmds =>
        obtain ⟨cfg', -, -, hjoin⟩ := h.applied
        have haccepted := h.accepted
        rw [hstored] at hjoin haccepted
        exact absurd hjoin (joinArgv_accepted (haccepted cmd List.mem_cons_self) cmds cfg cfg')
    intro arg harg
    have hnot := List.filter_eq_nil_iff.mp hnone arg harg
    simpa using hnot
  · intro h
    have hnone : storedArgs args = [] := List.filter_eq_nil_iff.mpr fun arg harg => by simp [h arg harg]
    obtain ⟨argv, hinit, hkept, -⟩ := initArgv_spec program args
    refine ⟨⟨argv, hinit, hkept⟩, ?_, ?_⟩
    · rw [hnone]
      exact fun cmd hcmd => absurd hcmd List.not_mem_nil
    · rw [hnone]
      exact ⟨cfg, rfl, rfl, rfl⟩

/-- A directive is not applied by `harmony_join`. -/
theorem join_rejects_directive :
    ¬ ∀ (program : Bytes) (args : List Bytes) (cfg : Hcfg), InsertOnly cfg → cfg.count = 0 →
      DirectivesApplied program args cfg := by
  intro h
  obtain ⟨cfg', -, -, hjoin⟩ := (h (cstr "prog") [cstr "A=1"] hcfgAlloc .alloc rfl).applied
  have hstored : storedArgs [cstr "A=1"] = [cstr "A=1"] := by decide
  rw [hstored] at hjoin
  exact joinArgv_accepted ⟨by decide, cstr "A", some (cstr "1"), by decide⟩ [] hcfgAlloc cfg' hjoin

end ActiveHarmony

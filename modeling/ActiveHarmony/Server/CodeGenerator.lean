import ActiveHarmony.Lib.ListModify
import ActiveHarmony.Data
import ActiveHarmony.Lib.PrefixArray
import ActiveHarmony.Lib.SlotTable
import ActiveHarmony.Lib.TextScan

/-!
# The code server `code_generator.cxx`

The code server reads candidates from files, gives each one to a slave process in a generator slot, and
writes a reply when the slave is done. `num_ready` counts the free slots apart from the vector of slots.
`slots_accounted` says when the two agree, and when every slave is answered for.

Slaves exit with status 0, and files are read and written without errors. The log, the terminal and
what the script of a slave does are left out, and a reply that is sent on with `scp` counts as written.
-/

namespace ActiveHarmony.CodeServer

open TextScan (isSpace)

/-! ## Configuration values -/

/-- `url_t`. -/
structure Url where
  path : Bytes
  host : Bytes
  user : Bytes
  port : Bytes
deriving DecidableEq, Repr

/-- The text in front of the first `c`, and the text behind it, as `strchr` finds them. -/
def strchr (s : Bytes) (c : UInt8) : Option (Bytes × Bytes) :=
  if c ∈ s then some (s.takeWhile (· ≠ c), (s.dropWhile (· ≠ c)).tail) else none

/-- The text up to the end of the first `//`, and the text behind it. -/
def splitScheme : Bytes → Option (Bytes × Bytes)
  | 47 :: 47 :: rest => some (cstr "//", rest)
  | c :: rest => (splitScheme rest).map fun parts => (c :: parts.1, parts.2)
  | [] => none

/-- `url_parse`. -/
def urlParse (str : Bytes) (url : Url) : ℤ × Url :=
  match splitScheme str with
  | none => (-1, url)
  | some (scheme, str) =>
    if scheme = cstr "dir://" then (0, { url with path := str, host := [] })
    else if scheme = cstr "ssh://" then
      let (user, str) := (strchr str 64).getD ([], str)
      let url := { url with user := user }
      let url := match strchr str 58 with
        | some (host, _) => { url with host := host }
        | none => { url with host := [], port := [] }
      match strchr str 47 with
      | none => (-1, url)
      | some (front, path) =>
        let url := if url.host = [] then { url with host := front } else { url with port := front }
        (0, { url with path := path })
    else (-1, url)

/-- The value of a digit; 36 if there is none. -/
def digitValue (c : UInt8) : ℕ :=
  if 48 ≤ c ∧ c ≤ 57 then c.toNat - 48
  else if 97 ≤ c ∧ c ≤ 122 then c.toNat - 87
  else if 65 ≤ c ∧ c ≤ 90 then c.toNat - 55
  else 36

/-- The base of a number, and its digits. -/
def numberBase : Bytes → ℕ × Bytes
  | 48 :: x :: d :: rest =>
    if (x = 120 ∨ x = 88) ∧ digitValue d < 16 then (16, d :: rest) else (8, 48 :: x :: d :: rest)
  | 48 :: rest => (8, 48 :: rest)
  | digits => (10, digits)

/-- `strtol` with base 0: the number and the text behind it, or `none` for `ERANGE`. -/
def strtol (s : Bytes) : Option (ℤ × Bytes) :=
  let (sign, text) : ℤ × Bytes := match s.dropWhile isSpace with
    | 45 :: text => (-1, text)
    | 43 :: text => (1, text)
    | text => (1, text)
  let (base, text) := numberBase text
  let digits := text.takeWhile fun c => digitValue c < base
  if digits = [] then some (0, s)
  else
    let num := sign * digits.foldl (fun n c => base * n + digitValue c) 0
    if num < -2 ^ 63 ∨ 2 ^ 63 ≤ num then none else some (num, text.drop digits.length)

/-- One entry of the slave list: the host and the number of slaves, or the error. -/
def parseSlave (entry : Bytes) : Option (Bytes × ℤ) :=
  let entry := entry.dropWhile isSpace
  let host := entry.takeWhile fun c => ¬isSpace c
  -- the blank behind the host is stepped over
  match entry.dropWhile fun c => ¬isSpace c with
  | [] => none
  | _ :: rest =>
    match strtol rest with
    | none => none
    | some (num, rest) =>
      if host = [] ∨ num = -1 ∨ rest.dropWhile isSpace ≠ [] then none else some (host, num)

/-- `generator_t`. -/
structure Generator (V : Type) where
  pid : ℕ
  step : ℤ
  mesg : HMesg V
  hostname : Bytes

variable {V : Type}

/-- `HMESG_INITIALIZER`. -/
def hmesgInitializer : HMesg V :=
  { dest := 0, type := .unknown, status := .unknown, srcId := none, data := .none }

/-- The slots of a host. The step of a new slot is not initialised, and set before it is read. -/
def newSlots (host : Bytes) (num : ℤ) : List (Generator V) :=
  (List.range num.toNat).map fun i =>
    { pid := 0, step := 0, mesg := hmesgInitializer,
      hostname := host ++ cstr "_" ++ TextScan.decimal (i + 1) }

/-- The loop of `parse_slave_list` over the entries of the list. `none` if it reads behind the list, which
it does where nothing separates the last host from the end. -/
def parseEntries : List Bytes → List (Generator V) → Option (ℤ × List (Generator V))
  | [], genList => some (0, genList)
  | entry :: entries, genList =>
    if entry = [] ∧ entries = [] then some (0, genList)
    else
      match parseSlave entry with
      | some (host, num) => parseEntries entries (genList ++ newSlots host num)
      | none =>
        if entries = [] ∧ (entry.dropWhile isSpace).all (fun c => ¬isSpace c) then none
        else some (-1, [])

/-- `parse_slave_list`: its return value and the new `gen_list`. -/
def parseSlaveList (hostlist : Bytes) : Option (ℤ × List (Generator V)) :=
  parseEntries (hostlist.splitOn 44) []

/-! ## The main loop -/

/-- A slave process that was not waited for, with the candidate that it was forked for. -/
structure Child (V : Type) where
  pid : ℕ
  step : ℤ
  mesg : HMesg V
  exited : Bool

/-- Where the code server is: at the top of a loop, in the loop that looks for completed slaves, waiting
for a slave while all are busy, or stopped by the assertion. -/
inductive Pc where
  | top | polling | waiting | aborted
deriving DecidableEq, Repr

/-- The code server, the files it reads and writes, and its child processes. `candidates` are the files
by their directory and step, and `replies` are the files that were written. -/
structure State (V : Type) where
  genList : List (Generator V)
  numReady : ℤ
  timestep : ℕ
  localUrl : Url
  initFile : Option (HMesg V)
  candidates : Bytes → ℕ → Option (HMesg V)
  children : List (Child V)
  replies : List (ℤ × HMesg V)
  pc : Pc

/-- `CFGKEY_SERVER_URL`. -/
def cfgkeyServerUrl : Bytes := cstr "SERVER_URL"

/-- `CFGKEY_TARGET_URL`. -/
def cfgkeyTargetUrl : Bytes := cstr "TARGET_URL"

/-- `CFGKEY_REPLY_URL`. -/
def cfgkeyReplyUrl : Bytes := cstr "REPLY_URL"

/-- `CFGKEY_SLAVE_LIST`. -/
def cfgkeySlaveList : Bytes := cstr "SLAVE_LIST"

/-- `CFGKEY_SLAVE_PATH`. -/
def cfgkeySlavePath : Bytes := cstr "SLAVE_PATH"

/-- `mesg_write`. -/
def State.mesgWrite (s : State V) (mesg : HMesg V) (step : ℤ) : State V :=
  { s with replies := s.replies ++ [(step, { mesg with status := .ok })] }

/-- `dir_erase` for the local directory. -/
def State.dirErase (s : State V) : State V :=
  { s with candidates := fun dir => if dir = s.localUrl.path then fun _ => none else s.candidates dir }

/-- Whether a configuration value is a URL. -/
def validUrl (val : Option Bytes) : Bool :=
  match val with
  | none => false
  | some val => 0 ≤ (urlParse val { path := [], host := [], user := [], port := [] }).1

/-- The part of `codeserver_init` in front of the slave list; of the target and the reply URL only the
check is kept. `opened` says whether the directory can be opened. -/
def initUrls (s : State V) (cfg : Hcfg) (opened : Bool) : ℤ × State V :=
  if ¬opened then (-1, s)
  else
    let s := s.dirErase
    match hcfgGet cfg cfgkeyServerUrl with
    | none => (-1, s)
    | some cfgval =>
      let (ret, url) := urlParse cfgval s.localUrl
      let s := { s with localUrl := url }
      if ret < 0 then (-1, s)
      else if ¬validUrl (hcfgGet cfg cfgkeyTargetUrl) then (-1, s)
      else if ¬validUrl (hcfgGet cfg cfgkeyReplyUrl) then (-1, s)
      else (0, s)

/-- The rest of `codeserver_init`; `setup` says whether the script that prepares the hosts succeeds. -/
def initSlaves (s : State V) (mesg : HMesg V) (cfg : Hcfg) (setup : Bool) : Option (ℤ × State V) :=
  match hcfgGet cfg cfgkeySlaveList with
  | none => some (-1, s)
  | some cfgval =>
    (parseSlaveList cfgval).map fun parsed =>
      let s := { s with genList := parsed.2 }
      if parsed.1 < 0 then (-1, s)
      else if (hcfgGet cfg cfgkeySlavePath).isNone then (-1, s)
      else if ¬setup then (-1, s)
      else (0, s.mesgWrite mesg (-1))

/-- `codeserver_init`; `none` if the message is not of a session, or the slave list is read behind its
end. -/
def codeserverInit (s : State V) (mesg : HMesg V) (opened setup : Bool) : Option (ℤ × State V) :=
  match mesg.data with
  | .session sess =>
    let (ret, s) := initUrls { s with initFile := none } sess.cfg opened
    if ret < 0 then some (-1, s) else initSlaves s mesg sess.cfg setup
  | _ => none

/-- `slave_complete`. -/
def slaveComplete (s : State V) (pid : ℕ) : ℤ × State V :=
  match s.genList.findIdx? fun gen => gen.pid = pid with
  | none => (-1, s)
  | some i =>
    match s.genList[i]? with
    | none => (-1, s)
    | some gen =>
      let done := { gen with pid := 0, mesg := { gen.mesg with type := .unknown } }
      (0, { s.mesgWrite gen.mesg gen.step with genList := s.genList.set i done })

/-- The end of an iteration of the main loop. -/
def State.finish (s : State V) : State V :=
  { s with
    candidates := fun dir step =>
      if dir = s.localUrl.path ∧ step = s.timestep then none else s.candidates dir step
    timestep := s.timestep + 1
    pc := .top }

/-- The candidate of this step; `pid` is the process that `fork` makes. -/
def State.candidate (s : State V) (mesg : HMesg V) (pid : ℕ) : State V :=
  -- find an available generator slot
  match s.genList.findIdx? fun gen => gen.pid = 0 with
  | none => { s with pc := .aborted }
  | some i =>
    let s : State V := { s with
      genList := s.genList.modify i fun gen => { gen with pid := pid, step := s.timestep, mesg := mesg }
      children := s.children ++ [{ pid := pid, step := s.timestep, mesg := mesg, exited := false }]
      numReady := s.numReady - 1 }
    -- all slaves are busy: sit and wait until one returns
    if s.numReady = 0 then { s with pc := .waiting } else s.finish

/-- `waitpid` has found this process. -/
def State.waited (s : State V) (pid : ℕ) : State V :=
  { s with children := s.children.filter fun child => child.pid ≠ pid }

/-- A completed slave is waited for. -/
def State.reap (s : State V) (pid : ℕ) : State V :=
  let res := slaveComplete (s.waited pid) pid
  if res.1 = 0 then { res.2 with numReady := res.2.numReady + 1 } else res.2

/-- The process `pid` exits. -/
def Child.exit (pid : ℕ) (child : Child V) : Child V :=
  if child.pid = pid then { child with exited := true } else child

/-- What happens. -/
inductive Event (V : Type) where
  /-- A file with a candidate, or with a session, is there. -/
  | candidateFile (dir : Bytes) (step : ℕ) (mesg : HMesg V)
  | sessionFile (mesg : HMesg V)
  /-- A slave exits with status 0. -/
  | exit (pid : ℕ)
  /-- The code server looks at the files, and does what is to be done. -/
  | look (pid : ℕ) (opened setup : Bool)
  /-- The code server waits for a process. -/
  | reap (pid : ℕ)
  | sleep

/-- One event; `none` if it cannot happen. -/
def step (s : State V) : Event V → Option (State V)
  | .candidateFile dir step mesg =>
    some { s with candidates := Function.update s.candidates dir
                    (Function.update (s.candidates dir) step (some mesg)) }
  | .sessionFile mesg => some { s with initFile := some mesg }
  | .exit pid => some { s with children := s.children.map (Child.exit pid) }
  | .look pid opened setup =>
    if s.pc ≠ .top then none
    else
      match s.initFile with
      | some mesg =>
        (codeserverInit s mesg opened setup).map fun res =>
          if res.1 < 0 then res.2 else { res.2 with timestep := 0, numReady := res.2.genList.length }
      | none =>
        match s.candidates s.localUrl.path s.timestep with
        | some mesg =>
          if pid = 0 ∨ pid ∈ s.children.map Child.pid then none else some (s.candidate mesg pid)
        | none => some { s with pc := .polling }
  | .reap pid =>
    if (s.children.find? fun child => child.pid = pid).map Child.exited ≠ some true then none
    else
      match s.pc with
      | .polling => some (s.reap pid)
      | .waiting => some (s.reap pid).finish
      | _ => none
  | .sleep =>
    if s.pc = .polling ∧ s.children.all (fun child => ¬child.exited) then some { s with pc := .top }
    else none

/-! ## Runs -/

/-- The slave list that an initialisation reads. -/
def slaveListReached (cfg : Hcfg) (opened : Bool) : Option Bytes :=
  if opened ∧ validUrl (hcfgGet cfg cfgkeyServerUrl) ∧ validUrl (hcfgGet cfg cfgkeyTargetUrl) ∧
      validUrl (hcfgGet cfg cfgkeyReplyUrl)
  then hcfgGet cfg cfgkeySlaveList
  else none

/-- A message with a session, whose slave list is not empty. -/
def SessionOk (mesg : HMesg V) : Prop :=
  ∃ sess, mesg.data = .session sess ∧ ∀ list, hcfgGet sess.cfg cfgkeySlaveList = some list →
    ∃ gen gens, parseSlaveList (V := V) list = some (0, gen :: gens)

/-- The files with sessions are as they should be. -/
def Event.Valid : Event V → Prop
  | .sessionFile mesg => SessionOk mesg
  | _ => True

/-- No candidate comes before the first session. While slaves are running no slave list is read, and an
initialisation that has read its slave list succeeds, or has as many slots as were free before. -/
def Event.Clear (s : State V) : Event V → Prop
  | .look _ opened setup =>
    match s.initFile with
    | some mesg => ∀ sess, mesg.data = .session sess → ∀ list,
        slaveListReached sess.cfg opened = some list → s.children = [] ∧
          ((hcfgGet sess.cfg cfgkeySlavePath).isSome ∧ setup ∨
            ∀ ret gens, parseSlaveList (V := V) list = some (ret, gens) → s.numReady = gens.length)
    | none => (s.candidates s.localUrl.path s.timestep).isSome → s.genList ≠ []
  | _ => True

/-- The slave that an event completes. -/
def Event.completed (s : State V) : Event V → List (Child V)
  | .reap pid => (s.children.find? fun child => child.pid = pid).toList
  | _ => []

/-- The code server when it starts; `garbage` is what lies in the memory of `num_ready`. -/
def start (garbage : ℤ) (path : Bytes) : State V where
  genList := []
  numReady := garbage
  timestep := 0
  localUrl := { path := path, host := [], user := [], port := [] }
  initFile := none
  candidates := fun _ _ => none
  children := []
  replies := []
  pc := .top

/-- The states that events lead to, each of which meets the condition, with the completed slaves. -/
inductive Run (cond : State V → Event V → Prop) (first : State V) : State V → List (Child V) → Prop
  | start : Run cond first first []
  | step {s s' : State V} {done : List (Child V)} {e : Event V} :
      Run cond first s done → e.Valid → cond s e → CodeServer.step s e = some s' →
      Run cond first s' (done ++ e.completed s)

/-- The number of generator slots with pid 0. -/
def freeSlots (s : State V) : ℕ := SlotTable.vacancies Generator.pid 0 s.genList

/-- The reply to the candidate of a slave. -/
def Child.reply (child : Child V) : ℤ × HMesg V := (child.step, { child.mesg with status := .ok })

/-- The replies to candidates; the reply to a session has step -1. -/
def State.answers (s : State V) : List (ℤ × HMesg V) := s.replies.filter fun reply => 0 ≤ reply.1

/-- What a code server should do. -/
structure Accounted (garbage : ℤ) (s : State V) (done : List (Child V)) : Prop where
  /-- Before the first session `num_ready` has no value. -/
  numReady_eq : s.pc = .top → s.genList ≠ [] ∨ garbage = 0 → s.numReady = freeSlots s
  answered : s.answers = done.map Child.reply
  not_aborted : s.pc ≠ .aborted

/-! ## What an initialisation does -/

/-- What was in the URL before does not matter for the check. -/
lemma urlParse_ret (str : Bytes) (url url' : Url) : (urlParse str url).1 = (urlParse str url').1 := by
  unfold urlParse
  match splitScheme str with
  | none => rfl
  | some (scheme, rest) =>
    dsimp only
    by_cases hdir : scheme = cstr "dir://"
    · rw [if_pos hdir, if_pos hdir]
    · rw [if_neg hdir, if_neg hdir]
      by_cases hssh : scheme = cstr "ssh://"
      · rw [if_pos hssh, if_pos hssh]
        cases strchr ((strchr rest 64).getD ([], rest)).2 47 <;> rfl
      · rw [if_neg hssh, if_neg hssh]

lemma initUrls_same (s : State V) (cfg : Hcfg) (opened : Bool) :
    ∃ candidates localUrl, (initUrls s cfg opened).2 =
      { s with candidates := candidates, localUrl := localUrl } := by
  unfold initUrls
  cases opened with
  | false => exact ⟨s.candidates, s.localUrl, rfl⟩
  | true =>
    cases hcfgGet cfg cfgkeyServerUrl with
    | none => exact ⟨s.dirErase.candidates, s.localUrl, rfl⟩
    | some cfgval =>
      refine ⟨s.dirErase.candidates, (urlParse cfgval s.localUrl).2, ?_⟩
      simp only [not_true_eq_false, if_false]
      split_ifs <;> rfl

lemma initUrls_ret (s : State V) (cfg : Hcfg) (opened : Bool) :
    (initUrls s cfg opened).1 < 0 ∧ slaveListReached cfg opened = none ∨
      (initUrls s cfg opened).1 = 0 ∧
        slaveListReached cfg opened = hcfgGet cfg cfgkeySlaveList := by
  unfold initUrls slaveListReached
  cases opened with
  | false => exact Or.inl ⟨(by decide : (-1 : ℤ) < 0), rfl⟩
  | true =>
    cases hserver : hcfgGet cfg cfgkeyServerUrl with
    | none => exact Or.inl ⟨(by decide : (-1 : ℤ) < 0), rfl⟩
    | some cfgval =>
      have hvalid : validUrl (some cfgval) = decide (0 ≤ (urlParse cfgval s.localUrl).1) := by
        show decide (0 ≤ (urlParse cfgval _).1) = _
        rw [urlParse_ret cfgval _ s.localUrl]
      rw [hvalid]
      simp only [State.dirErase, not_true_eq_false, if_false]
      by_cases hneg : (urlParse cfgval s.localUrl).1 < 0
      · simp [hneg]
      · have hnonneg := not_lt.mp hneg
        cases validUrl (hcfgGet cfg cfgkeyTargetUrl) <;>
          cases validUrl (hcfgGet cfg cfgkeyReplyUrl) <;> simp [hneg, hnonneg]

/-- An initialisation that does not get to its slave list leaves the slots alone; another one has the new
slots, and a reply if it succeeds. -/
lemma codeserverInit_spec {s s' : State V} {mesg : HMesg V} {sess : HSession V} {opened setup : Bool}
    {ret : ℤ} (hsess : mesg.data = .session sess)
    (h : codeserverInit s mesg opened setup = some (ret, s')) :
    ∃ candidates localUrl, ret < 0 ∧ slaveListReached sess.cfg opened = none ∧
        s' = { s with initFile := none, candidates := candidates, localUrl := localUrl } ∨
      ∃ list err gens, slaveListReached sess.cfg opened = some list ∧
        parseSlaveList list = some (err, gens) ∧
        (ret < 0 ∧ (0 ≤ err → ¬((hcfgGet sess.cfg cfgkeySlavePath).isSome ∧ setup)) ∧
            s' = { s with
              initFile := none, candidates := candidates, localUrl := localUrl, genList := gens } ∨
          ret = 0 ∧ s' = { s with
            initFile := none, candidates := candidates, localUrl := localUrl, genList := gens,
            replies := s.replies ++ [(-1, { mesg with status := .ok })] }) := by
  obtain ⟨candidates, localUrl, hsame⟩ := initUrls_same { s with initFile := none } sess.cfg opened
  refine ⟨candidates, localUrl, ?_⟩
  unfold codeserverInit at h
  rw [hsess] at h
  dsimp only at h
  obtain ⟨hneg, hnone⟩ | ⟨hzero, hlist⟩ := initUrls_ret { s with initFile := none } sess.cfg opened
  · rw [if_pos hneg, hsame] at h
    obtain ⟨rfl, rfl⟩ := Prod.mk.inj (Option.some.inj h)
    exact Or.inl ⟨by decide, hnone, rfl⟩
  · rw [if_neg (by rw [hzero]; decide), hsame] at h
    unfold initSlaves at h
    cases hget : hcfgGet sess.cfg cfgkeySlaveList with
    | none =>
      rw [hget] at h hlist
      obtain ⟨rfl, rfl⟩ := Prod.mk.inj (Option.some.inj h)
      exact Or.inl ⟨by decide, hlist, rfl⟩
    | some list =>
      rw [hget] at h hlist
      obtain ⟨⟨err, gens⟩, hparse, hres⟩ := Option.map_eq_some_iff.mp h
      refine Or.inr ⟨list, err, gens, hlist, hparse, ?_⟩
      dsimp only at hres
      by_cases herr : err < 0
      · rw [if_pos herr] at hres
        obtain ⟨rfl, rfl⟩ := Prod.mk.inj hres
        exact Or.inl ⟨by decide, fun hle => absurd herr (not_lt.mpr hle), rfl⟩
      · rw [if_neg herr] at hres
        cases hpath : hcfgGet sess.cfg cfgkeySlavePath with
        | none =>
          rw [hpath] at hres
          obtain ⟨rfl, rfl⟩ := Prod.mk.inj hres
          exact Or.inl ⟨by decide, fun _ hsome => absurd hsome.1 (by decide), rfl⟩
        | some path =>
          rw [hpath] at hres
          cases setup with
          | false =>
            obtain ⟨rfl, rfl⟩ := Prod.mk.inj hres
            exact Or.inl ⟨by decide, fun _ hsome => absurd hsome.2 (by decide), rfl⟩
          | true =>
            obtain ⟨rfl, rfl⟩ := Prod.mk.inj hres
            exact Or.inr ⟨rfl, rfl⟩

/-! ## The books of the code server -/

/-- What a slot and a slave have in common. -/
abbrev Job (V : Type) : Type := ℕ × ℤ × HMesg V

def Generator.job (gen : Generator V) : Job V := (gen.pid, gen.step, gen.mesg)

def Child.job (child : Child V) : Job V := (child.pid, child.step, child.mesg)

/-- The slots that are in use. -/
def busySlots (s : State V) : List (Generator V) := SlotTable.tenants Generator.pid 0 s.genList

/-- The slaves are those of the slots in use, and the slots are counted. -/
structure Books (garbage : ℤ) (s : State V) (done : List (Child V)) : Prop where
  jobs_perm : ((busySlots s).map Generator.job).Perm (s.children.map Child.job)
  nodup : (s.children.map Child.pid).Nodup
  steps : ∀ child ∈ s.children, 0 ≤ child.step
  numReady_eq : s.genList ≠ [] → s.numReady = freeSlots s
  unused : s.genList = [] → s.numReady = garbage
  answered : s.answers = done.map Child.reply

lemma Books.pids_perm {garbage : ℤ} {s : State V} {done : List (Child V)} (h : Books garbage s done) :
    ((busySlots s).map Generator.pid).Perm (s.children.map Child.pid) := by
  have hpids := h.jobs_perm.map Prod.fst
  rw [List.map_map, List.map_map] at hpids
  exact hpids

/-- What the books are about. -/
lemma Books.congr {garbage : ℤ} {s s' : State V} {done : List (Child V)} (h : Books garbage s done)
    (hgen : s'.genList = s.genList) (hready : s'.numReady = s.numReady)
    (hchildren : s'.children = s.children) (hreplies : s'.replies = s.replies) :
    Books garbage s' done := by
  obtain ⟨hjobs, hnodup, hsteps, hnum, hunused, hanswered⟩ := h
  constructor
  · unfold busySlots
    rw [hgen, hchildren]
    exact hjobs
  · rw [hchildren]
    exact hnodup
  · rw [hchildren]
    exact hsteps
  · unfold freeSlots
    rw [hgen, hready]
    exact hnum
  · rw [hgen, hready]
    exact hunused
  · unfold State.answers
    rw [hreplies]
    exact hanswered

/-- New slots are free. -/
lemma newSlots_free {host : Bytes} {num : ℤ} :
    ∀ gen ∈ (newSlots host num : List (Generator V)), gen.pid = 0 := by
  intro gen hgen
  obtain ⟨i, -, rfl⟩ := List.mem_map.mp hgen
  rfl

lemma parseEntries_free {entries : List Bytes} {genList gens : List (Generator V)} {ret : ℤ}
    (hfree : ∀ gen ∈ genList, gen.pid = 0) (h : parseEntries entries genList = some (ret, gens)) :
    ∀ gen ∈ gens, gen.pid = 0 := by
  induction entries generalizing genList with
  | nil =>
    obtain ⟨-, rfl⟩ := Prod.mk.inj (Option.some.inj h)
    exact hfree
  | cons entry entries ih =>
    unfold parseEntries at h
    by_cases hlast : entry = [] ∧ entries = []
    · rw [if_pos hlast] at h
      obtain ⟨-, rfl⟩ := Prod.mk.inj (Option.some.inj h)
      exact hfree
    · rw [if_neg hlast] at h
      cases hentry : parseSlave entry with
      | none =>
        rw [hentry] at h
        dsimp only at h
        split_ifs at h
        obtain ⟨-, rfl⟩ := Prod.mk.inj (Option.some.inj h)
        exact fun _ hgen => absurd hgen List.not_mem_nil
      | some slave =>
        rw [hentry] at h
        refine ih ?_ h
        intro gen hgen
        obtain hold | hnew := List.mem_append.mp hgen
        · exact hfree gen hold
        · exact newSlots_free gen hnew

lemma parseSlaveList_free {list : Bytes} {gens : List (Generator V)} {ret : ℤ}
    (h : parseSlaveList list = some (ret, gens)) : ∀ gen ∈ gens, gen.pid = 0 :=
  parseEntries_free (fun _ hgen => absurd hgen List.not_mem_nil) h

/-- A table of free slots. -/
lemma slots_of_free {s : State V} (h : ∀ gen ∈ s.genList, gen.pid = 0) :
    busySlots s = [] ∧ freeSlots s = s.genList.length := by
  constructor
  · apply List.filter_eq_nil_iff.mpr
    intro gen hgen
    rw [h gen hgen]
    decide
  · apply List.countP_eq_length.mpr
    intro gen hgen
    exact decide_eq_true (h gen hgen)

/-- The books of a new session. -/
lemma Books.fresh {garbage : ℤ} {s : State V} {done : List (Child V)}
    (hfree : ∀ gen ∈ s.genList, gen.pid = 0) (hne : s.genList ≠ []) (hchildren : s.children = [])
    (hready : s.numReady = s.genList.length) (hanswered : s.answers = done.map Child.reply) :
    Books garbage s done := by
  obtain ⟨hbusy, hcount⟩ := slots_of_free hfree
  constructor
  · rw [hbusy, hchildren]
    exact List.Perm.nil
  · rw [hchildren]
    exact List.nodup_nil
  · rw [hchildren]
    exact fun _ hchild => absurd hchild List.not_mem_nil
  · intro _
    rw [hready, hcount]
  · exact fun hnil => absurd hnil hne
  · exact hanswered

/-- A candidate goes to a free slot, if there is one. -/
lemma Books.candidate {garbage : ℤ} {s : State V} {done : List (Child V)} (h : Books garbage s done)
    (hne : s.genList ≠ []) (hready : 0 < s.numReady) (mesg : HMesg V) {pid : ℕ} (hpid : pid ≠ 0)
    (hnew : pid ∉ s.children.map Child.pid) :
    ∃ s' : State V, Books garbage s' done ∧ s'.genList ≠ [] ∧ s'.initFile = s.initFile ∧
      s.candidate mesg pid = if s'.numReady = 0 then { s' with pc := .waiting } else s'.finish := by
  have hcount := h.numReady_eq hne
  have hfree : 0 < SlotTable.vacancies Generator.pid 0 s.genList := by
    unfold freeSlots at hcount
    omega
  obtain ⟨i, gen, hfind, hget, hvacant⟩ := SlotTable.exists_vacant Generator.pid 0 s.genList hfree
  let job : Generator V := { gen with pid := pid, step := s.timestep, mesg := mesg }
  let s' : State V := { s with
    genList := s.genList.set i job
    children := s.children ++ [{ pid := pid, step := s.timestep, mesg := mesg, exited := false }]
    numReady := s.numReady - 1 }
  have hset : (s.genList.modify i fun gen => { gen with pid := pid, step := s.timestep, mesg := mesg }) =
      s.genList.set i job := ListModify.eq_set hget
  obtain ⟨htenants, hvacancies⟩ := SlotTable.move_in (y := job) hget hvacant hpid
  have hne' : s'.genList ≠ [] := by
    rw [← List.length_pos_iff, List.length_set]
    exact List.length_pos_iff.mpr hne
  refine ⟨s', ⟨?_, ?_, ?_, ?_, fun hnil => absurd hnil hne', h.answered⟩, hne', rfl, ?_⟩
  · have hjobs : ((busySlots s').map Generator.job).Perm (job.job :: (busySlots s).map Generator.job) :=
      htenants.map Generator.job
    refine hjobs.trans ((h.jobs_perm.cons _).trans ?_)
    show (_ :: s.children.map Child.job).Perm ((s.children ++ [_]).map Child.job)
    rw [List.map_append]
    exact (List.perm_append_singleton _ _).symm
  · show ((s.children ++ [_]).map Child.pid).Nodup
    rw [List.map_append]
    exact h.nodup.append (List.nodup_singleton pid)
      (List.disjoint_singleton.mpr hnew)
  · intro child hchild
    obtain hold | hadded := List.mem_append.mp hchild
    · exact h.steps child hold
    · rw [List.mem_singleton.mp hadded]
      exact Int.natCast_nonneg s.timestep
  · intro _
    show s.numReady - 1 = (SlotTable.vacancies Generator.pid 0 (s.genList.set i job) : ℤ)
    unfold freeSlots at hcount
    omega
  · unfold State.candidate
    rw [hfind]
    dsimp only
    rw [hset]

lemma slaveComplete_eq {s : State V} {pid i : ℕ} {gen : Generator V}
    (hfind : (s.genList.findIdx? fun gen => gen.pid = pid) = some i) (hget : s.genList[i]? = some gen) :
    slaveComplete s pid = (0, { s.mesgWrite gen.mesg gen.step with
      genList :=
        s.genList.set i { gen with pid := 0, mesg := { gen.mesg with type := .unknown } } }) := by
  unfold slaveComplete
  rw [hfind]
  dsimp only
  rw [hget]

lemma answers_mesgWrite (s : State V) (mesg : HMesg V) {step : ℤ} (h : 0 ≤ step) :
    (s.mesgWrite mesg step).answers = s.answers ++ [(step, { mesg with status := .ok })] := by
  have hstep : ([(step, { mesg with status := .ok })] : List (ℤ × HMesg V)).filter
      (fun reply => 0 ≤ reply.1) = [(step, { mesg with status := .ok })] :=
    List.filter_cons_of_pos (decide_eq_true h)
  unfold State.answers State.mesgWrite
  rw [List.filter_append, hstep]

lemma answers_session (s : State V) (mesg : HMesg V) : (s.mesgWrite mesg (-1)).answers = s.answers := by
  unfold State.answers State.mesgWrite
  rw [List.filter_append, List.filter_cons_of_neg (by simp), List.filter_nil, List.append_nil]

/-- The other slaves. -/
lemma perm_children {children : List (Child V)} (h : (children.map Child.pid).Nodup) {child : Child V}
    (hchild : child ∈ children) :
    children.Perm (child :: children.filter fun c => c.pid ≠ child.pid) := by
  obtain ⟨i, hi⟩ := List.mem_iff_getElem?.mp hchild
  rw [← PrefixArray.eraseIdx_eq_filter h hi]
  exact SlotTable.perm_cons_eraseIdx hi

/-- A completed slave is answered, and its slot is free again. -/
lemma Books.reap {garbage : ℤ} {s : State V} {done : List (Child V)} (h : Books garbage s done)
    {child : Child V} (hchild : child ∈ s.children) :
    Books garbage (s.reap child.pid) (done ++ [child]) ∧ (s.reap child.pid).genList ≠ [] ∧
      0 < (s.reap child.pid).numReady ∧ (s.reap child.pid).initFile = s.initFile ∧
      (s.reap child.pid).pc = s.pc := by
  obtain ⟨gen, hgen, hjob⟩ : ∃ gen ∈ busySlots s, gen.job = child.job :=
    List.mem_map.mp (h.jobs_perm.mem_iff.mpr (List.mem_map_of_mem hchild))
  obtain ⟨hpid, hrest⟩ := Prod.mk.inj hjob
  obtain ⟨hstep, hmesg⟩ := Prod.mk.inj hrest
  have hpids : ((busySlots s).map Generator.pid).Nodup := h.pids_perm.nodup_iff.mpr h.nodup
  obtain ⟨i, hfind, hget⟩ := SlotTable.find_tenant hpids hgen
  have hkey := (SlotTable.mem_tenants.mp hgen).2
  let free : Generator V := { gen with pid := 0, mesg := { gen.mesg with type := .unknown } }
  obtain ⟨htenants, hvacancies⟩ := SlotTable.move_out (y := free) hget hkey rfl
  have hne : s.genList ≠ [] := by
    intro hnil
    rw [hnil] at hget
    exact absurd hget nofun
  have hcount := h.numReady_eq hne
  rw [hpid] at hfind
  let s' : State V := { s with
    children := s.children.filter fun c => c.pid ≠ child.pid
    replies := s.replies ++ [(gen.step, { gen.mesg with status := .ok })]
    genList := s.genList.set i free
    numReady := s.numReady + 1 }
  have heq : s.reap child.pid = s' := by
    unfold State.reap
    rw [slaveComplete_eq (s := s.waited child.pid) hfind hget]
    rfl
  have hne' : s'.genList ≠ [] := by
    rw [← List.length_pos_iff, List.length_set]
    exact List.length_pos_iff.mpr hne
  have hready : s'.numReady = freeSlots s' := by
    show s.numReady + 1 = (SlotTable.vacancies Generator.pid 0 (s.genList.set i free) : ℤ)
    unfold freeSlots at hcount
    omega
  rw [heq]
  refine ⟨⟨?_, ?_, ?_, fun _ => hready, fun hnil => absurd hnil hne', ?_⟩, hne', ?_, rfl, rfl⟩
  · apply List.Perm.cons_inv (a := child.job)
    have hslots := (htenants.map Generator.job).trans h.jobs_perm
    rw [List.map_cons, hjob] at hslots
    exact hslots.trans ((perm_children h.nodup hchild).map Child.job)
  · exact h.nodup.sublist (List.filter_sublist.map _)
  · exact fun c hc => h.steps c (List.mem_filter.mp hc).1
  · have hnonneg : 0 ≤ gen.step := hstep ▸ h.steps child hchild
    have hanswers := answers_mesgWrite s gen.mesg hnonneg
    rw [h.answered, hstep, hmesg] at hanswers
    rw [List.map_append]
    show (s.mesgWrite gen.mesg gen.step).answers = _
    rw [hstep, hmesg]
    exact hanswers
  · rw [hready]
    show 0 < (SlotTable.vacancies Generator.pid 0 (s.genList.set i free) : ℤ)
    omega

/-- What holds in every run. -/
structure Inv (garbage : ℤ) (s : State V) (done : List (Child V)) : Prop where
  books : Books garbage s done
  ready : s.pc ≠ .waiting → s.genList ≠ [] → 0 < s.numReady
  not_aborted : s.pc ≠ .aborted
  sessions : ∀ mesg, s.initFile = some mesg → SessionOk mesg

lemma no_session (mesg : HMesg V) (hfile : none = some mesg) : SessionOk mesg := by cases hfile

lemma start_inv (garbage : ℤ) (path : Bytes) : Inv garbage (start garbage path : State V) [] := by
  refine ⟨⟨List.Perm.nil, List.nodup_nil, ?_, fun hne => absurd rfl hne, fun _ => rfl, rfl⟩,
    fun _ hne => absurd rfl hne, (by decide : Pc.top ≠ .aborted), no_session⟩
  exact fun _ hchild => absurd hchild List.not_mem_nil

lemma finish_inv {garbage : ℤ} {s : State V} {done : List (Child V)} (hbooks : Books garbage s done)
    (hready : s.genList ≠ [] → 0 < s.numReady)
    (hsessions : ∀ mesg, s.initFile = some mesg → SessionOk mesg) :
    Inv garbage s.finish done :=
  ⟨hbooks.congr rfl rfl rfl rfl, fun _ => hready, nofun, hsessions⟩

/-- A slave exits. -/
lemma Inv.exit {garbage : ℤ} {s : State V} {done : List (Child V)} (h : Inv garbage s done) (pid : ℕ) :
    Inv garbage { s with children := s.children.map (Child.exit pid) } done := by
  have hjob : ∀ child : Child V, (child.exit pid).job = child.job := by
    intro child
    unfold Child.exit
    split_ifs <;> rfl
  have hjobs : (s.children.map (Child.exit pid)).map Child.job = s.children.map Child.job := by
    rw [List.map_map]
    exact List.map_congr_left fun child _ => hjob child
  have hpids : (s.children.map (Child.exit pid)).map Child.pid = s.children.map Child.pid := by
    rw [List.map_map]
    exact List.map_congr_left fun child _ => congrArg Prod.fst (hjob child)
  obtain ⟨hperm, hnodup, hsteps, hnum, hunused, hanswered⟩ := h.books
  refine ⟨⟨?_, ?_, ?_, hnum, hunused, hanswered⟩, h.ready, h.not_aborted, h.sessions⟩
  · rw [hjobs]
    exact hperm
  · rw [hpids]
    exact hnodup
  · intro child hchild
    obtain ⟨child', hchild', rfl⟩ := List.mem_map.mp hchild
    have hstep : (child'.exit pid).step = child'.step := congrArg (fun job => job.2.1) (hjob child')
    rw [hstep]
    exact hsteps child' hchild'

/-- An initialisation, where no slave is running if the slave list is read. -/
lemma Inv.init {garbage : ℤ} {s s' : State V} {done : List (Child V)} (h : Inv garbage s done)
    (htop : s.pc = .top) {mesg : HMesg V} (hfile : s.initFile = some mesg) {pid : ℕ}
    {opened setup : Bool} {ret : ℤ} (hclear : (Event.look pid opened setup).Clear s)
    (hinit : codeserverInit s mesg opened setup = some (ret, s')) :
    Inv garbage (if ret < 0 then s' else { s' with timestep := 0, numReady := s'.genList.length })
      done := by
  obtain ⟨sess, hsess, hlist⟩ := h.sessions mesg hfile
  have hrunning : s.pc ≠ .waiting := by
    rw [htop]
    decide
  unfold Event.Clear at hclear
  simp only [hfile] at hclear
  obtain ⟨candidates, localUrl, ⟨hneg, -, rfl⟩ | ⟨list, err, gens, hreached, hparse, hres⟩⟩ :=
    codeserverInit_spec hsess hinit
  · rw [if_pos hneg]
    exact ⟨h.books.congr rfl rfl rfl rfl, h.ready, h.not_aborted, no_session⟩
  · obtain ⟨hchildren, hgood⟩ := hclear sess hsess list hreached
    have hget : hcfgGet sess.cfg cfgkeySlaveList = some list := by
      unfold slaveListReached at hreached
      split_ifs at hreached
      exact hreached
    obtain ⟨gen, gens', hslots⟩ := hlist list hget
    obtain ⟨rfl, rfl⟩ := Prod.mk.inj (Option.some.inj (hparse.symm.trans hslots))
    have hfree := parseSlaveList_free hparse
    have hne : gen :: gens' ≠ [] := List.cons_ne_nil _ _
    have hpos : 0 < ((gen :: gens').length : ℤ) := Int.natCast_pos.mpr (List.length_pos_iff.mpr hne)
    obtain ⟨hneg, hfails, rfl⟩ | ⟨rfl, rfl⟩ := hres
    · rw [if_pos hneg]
      have hcount : s.numReady = (gen :: gens').length :=
        (hgood.resolve_left (hfails le_rfl)) _ _ hparse
      refine ⟨Books.fresh hfree hne hchildren hcount h.books.answered, ?_, h.not_aborted, no_session⟩
      intro _ _
      exact hcount ▸ hpos
    · rw [if_neg (by decide)]
      refine ⟨Books.fresh hfree hne hchildren rfl ?_, fun _ _ => hpos, h.not_aborted, no_session⟩
      exact (answers_session s mesg).trans h.books.answered

lemma Inv.step {garbage : ℤ} {s s' : State V} {done : List (Child V)} (h : Inv garbage s done)
    {e : Event V} (hvalid : e.Valid) (hclear : e.Clear s) (hstep : step s e = some s') :
    Inv garbage s' (done ++ e.completed s) := by
  cases e with
  | candidateFile dir k mesg =>
    rw [← Option.some.inj hstep]
    unfold Event.completed
    rw [List.append_nil]
    exact ⟨h.books.congr rfl rfl rfl rfl, h.ready, h.not_aborted, h.sessions⟩
  | sessionFile mesg =>
    rw [← Option.some.inj hstep]
    unfold Event.completed
    rw [List.append_nil]
    refine ⟨h.books.congr rfl rfl rfl rfl, h.ready, h.not_aborted, ?_⟩
    intro mesg' hmesg
    exact Option.some.inj hmesg ▸ hvalid
  | exit pid =>
    rw [← Option.some.inj hstep]
    unfold Event.completed
    rw [List.append_nil]
    exact h.exit pid
  | look pid opened setup =>
    unfold Event.completed
    rw [List.append_nil]
    unfold CodeServer.step at hstep
    dsimp only at hstep
    by_cases htop : s.pc = .top
    · rw [if_neg (not_not.mpr htop)] at hstep
      cases hfile : s.initFile with
      | some mesg =>
        rw [hfile] at hstep
        obtain ⟨⟨ret, t⟩, hinit, rfl⟩ := Option.map_eq_some_iff.mp hstep
        exact h.init htop hfile hclear hinit
      | none =>
        rw [hfile] at hstep
        dsimp only at hstep
        cases hcand : s.candidates s.localUrl.path s.timestep with
        | none =>
          rw [hcand] at hstep
          rw [← Option.some.inj hstep]
          exact ⟨h.books.congr rfl rfl rfl rfl, fun _ => h.ready (by rw [htop]; decide), nofun, no_session⟩
        | some mesg =>
          rw [hcand] at hstep
          dsimp only at hstep
          split_ifs at hstep with hpid
          obtain ⟨hzero, hnew⟩ := not_or.mp hpid
          rw [← Option.some.inj hstep]
          have hne : s.genList ≠ [] := by
            unfold Event.Clear at hclear
            simp only [hfile] at hclear
            exact hclear (by rw [hcand]; rfl)
          have hready := h.ready (by rw [htop]; decide) hne
          obtain ⟨t, hbooks, hne', hinit, heq⟩ := h.books.candidate hne hready mesg hzero hnew
          have hsessions : ∀ mesg, t.initFile = some mesg → SessionOk mesg := hinit ▸ h.sessions
          rw [heq]
          split_ifs with hfull
          · exact ⟨hbooks.congr rfl rfl rfl rfl, fun hrunning => absurd rfl hrunning, nofun, hsessions⟩
          · apply finish_inv hbooks _ hsessions
            intro _
            have hcount := hbooks.numReady_eq hne'
            omega
    · rw [if_pos htop] at hstep
      exact absurd hstep nofun
  | reap pid =>
    unfold CodeServer.step at hstep
    dsimp only at hstep
    split_ifs at hstep with hexited
    obtain ⟨child, hfind, -⟩ := Option.map_eq_some_iff.mp (not_not.mp hexited)
    have hchild : child ∈ s.children := List.mem_of_find?_eq_some hfind
    have hfound := List.find?_some hfind
    have hpid : child.pid = pid := of_decide_eq_true hfound
    have hdone : (Event.reap pid : Event V).completed s = [child] := by
      unfold Event.completed
      dsimp only
      rw [hfind]
      rfl
    obtain ⟨hbooks, hne, hready, hinit, hpc⟩ := h.books.reap hchild
    rw [hpid] at hbooks hne hready hinit hpc
    have hsessions : ∀ mesg, (s.reap pid).initFile = some mesg → SessionOk mesg := hinit ▸ h.sessions
    rw [hdone]
    match hcase : s.pc with
    | .polling =>
      rw [hcase] at hstep
      rw [← Option.some.inj hstep]
      refine ⟨hbooks, fun _ _ => hready, ?_, hsessions⟩
      rw [hpc, hcase]
      decide
    | .waiting =>
      rw [hcase] at hstep
      rw [← Option.some.inj hstep]
      exact finish_inv hbooks (fun _ => hready) hsessions
    | .top =>
      rw [hcase] at hstep
      exact absurd hstep nofun
    | .aborted => exact absurd hcase h.not_aborted
  | sleep =>
    unfold CodeServer.step at hstep
    dsimp only at hstep
    split_ifs at hstep with hpolling
    unfold Event.completed
    rw [← Option.some.inj hstep, List.append_nil]
    refine ⟨h.books.congr rfl rfl rfl rfl, fun _ => h.ready ?_, nofun, h.sessions⟩
    rw [hpolling.1]
    decide

/-- In every run in which the sessions come one after the other, the free slots are counted, every
completed slave is answered once with the step of its candidate, and the assertion is not reached. -/
theorem slots_accounted {garbage : ℤ} {path : Bytes} {s : State V} {done : List (Child V)}
    (hrun : Run Event.Clear (start garbage path) s done) : Accounted garbage s done := by
  have hinv : Inv garbage s done := by
    induction hrun with
    | start => exact start_inv garbage path
    | step _ hvalid hclear hstep ih => exact ih.step hvalid hclear hstep
  refine ⟨?_, hinv.books.answered, hinv.not_aborted⟩
  intro _ hsession
  by_cases hne : s.genList = []
  · have hzero : garbage = 0 := hsession.resolve_left (not_not.mpr hne)
    have hfree : freeSlots s = 0 := by
      unfold freeSlots
      rw [hne]
      rfl
    rw [hinv.books.unused hne, hzero, hfree]
    rfl
  · exact hinv.books.numReady_eq hne

/-! ## A session that comes while a slave is running -/

/-- Several events. -/
def runEvents (s : State V) (done : List (Child V)) (es : List (Event V)) :
    Option (State V × List (Child V)) :=
  es.foldlM (fun st e => (step st.1 e).map fun s => (s, st.2 ++ e.completed st.1)) (s, done)

lemma Run.events {first : State V} {s s' : State V} {done done' : List (Child V)}
    {es : List (Event V)} (hrun : Run (fun _ _ => True) first s done) (hvalid : ∀ e ∈ es, e.Valid)
    (h : runEvents s done es = some (s', done')) : Run (fun _ _ => True) first s' done' := by
  induction es generalizing s done with
  | nil =>
    obtain ⟨rfl, rfl⟩ := Prod.mk.inj (Option.some.inj h)
    exact hrun
  | cons e es ih =>
    unfold runEvents at h
    rw [List.foldlM_cons] at h
    obtain ⟨st, hmap, hrest⟩ := Option.bind_eq_some_iff.mp h
    obtain ⟨t, hstep, rfl⟩ := Option.map_eq_some_iff.mp hmap
    obtain ⟨he, hes⟩ := List.forall_mem_cons.mp hvalid
    exact ih (Run.step hrun he trivial hstep) hes hrest

/-- The configuration of a session with two slaves. -/
def twoSlaves : Hcfg :=
  [(cfgkeyServerUrl, "dir:///in"), (cfgkeyTargetUrl, "dir:///bin"), (cfgkeyReplyUrl, "dir:///out"),
    (cfgkeySlaveList, "node 2"), (cfgkeySlavePath, "/slave")].foldl
    (fun cfg entry => ((hcfgSet cfg entry.1 (some (cstr entry.2))).getD (0, cfg)).2) hcfgAlloc

def twoSlavesMesg : HMesg ℕ :=
  { dest := 0, type := .session, status := .req, srcId := none
    data := .session { sig := { name := some (cstr "tile"), range := [] }, cfg := twoSlaves } }

/-- A candidate with one value. -/
def candidateMesg (val : ℤ) : HMesg ℕ :=
  { dest := 0, type := .fetch, status := .req, srcId := none
    data := .point { id := val, val := [.int val] } }

lemma twoSlavesMesg_ok : SessionOk twoSlavesMesg := by
  refine ⟨_, rfl, ?_⟩
  intro list hlist
  have hget : hcfgGet twoSlaves cfgkeySlaveList = some (cstr "node 2") := by decide +kernel
  obtain rfl : cstr "node 2" = list := Option.some.inj (hget.symm.trans hlist)
  exact ⟨_, _, rfl⟩

/-- A candidate of the first session is with a slave when the next session comes, which has three
candidates. -/
def staleSlave : List (Event ℕ) :=
  [.sessionFile twoSlavesMesg, .look 0 true true,
    .candidateFile (cstr "/in") 0 (candidateMesg 1), .look 101 true true,
    .sessionFile twoSlavesMesg, .look 0 true true,
    .candidateFile (cstr "/in") 0 (candidateMesg 2), .look 102 true true,
    .candidateFile (cstr "/in") 1 (candidateMesg 3), .look 103 true true,
    .exit 101, .reap 101,
    .candidateFile (cstr "/in") 2 (candidateMesg 4), .look 104 true true]

/-- The code server with the file of a session. -/
def sessionReady : State ℕ := { start 5 (cstr "/in") with initFile := some twoSlavesMesg }

/-- The slots of a session are all free at first. -/
theorem session_accounted : ∃ (s : State ℕ) (done : List (Child ℕ)),
    Run Event.Clear (start 5 (cstr "/in")) s done ∧ s.genList.length = 2 ∧ done = [] ∧
      Accounted 5 s done := by
  have hend : (step sessionReady (.look 0 true true)).map (fun s => s.genList.length) = some 2 := by
    decide +kernel
  obtain ⟨s, hlook, hlen⟩ := Option.map_eq_some_iff.mp hend
  have hvalid : (Event.sessionFile twoSlavesMesg).Valid := twoSlavesMesg_ok
  have hfile : Run Event.Clear (start 5 (cstr "/in")) sessionReady [] :=
    Run.step Run.start hvalid trivial rfl
  have hclear : (Event.look 0 true true).Clear sessionReady := by
    intro sess hsess list _
    obtain rfl := HMesgData.session.inj hsess
    exact ⟨rfl, Or.inl ⟨by decide +kernel, rfl⟩⟩
  have hnothing : (Event.look 0 true true : Event ℕ).Valid := trivial
  have hrun := Run.step hfile hnothing hclear hlook
  exact ⟨s, _, hrun, hlen, rfl, slots_accounted hrun⟩

/-- A slave of the session before makes the code server wait for a slot that is not freed. -/
theorem stale_slave_overflows : ¬ ∀ (garbage : ℤ) (path : Bytes) (s : State ℕ) (done : List (Child ℕ)),
    Run (fun _ _ => True) (start garbage path) s done → Accounted garbage s done := by
  intro hall
  have hend : (runEvents (start 0 (cstr "/in")) [] staleSlave).map (fun st => st.1.pc) =
      some .aborted := by decide +kernel
  obtain ⟨⟨s, done⟩, hevents, hpc⟩ := Option.map_eq_some_iff.mp hend
  have hvalid : ∀ e ∈ staleSlave, e.Valid := by
    intro e he
    simp only [staleSlave, List.mem_cons, List.not_mem_nil, or_false] at he
    obtain rfl | rfl | rfl | rfl | rfl | rfl | rfl | rfl | rfl | rfl | rfl | rfl | rfl | rfl := he
    all_goals first | exact twoSlavesMesg_ok | trivial
  exact (hall _ _ _ _ (Run.start.events hvalid hevents)).not_aborted hpc

end ActiveHarmony.CodeServer

import ActiveHarmony.Data
import Mathlib.Data.Int.Basic
import Mathlib.Logic.Function.Basic
import Mathlib.Order.Notation

/-!
# The session core of `session-core.c`

The workflow of trials through the plug-ins: `generateTrial`, `pluginWorkflow`,
`workflowTransition`, `handleReject`, `handleWait`, `handleCallback` and the message handlers.

The global variables are the fields of `Sess`. Plug-ins are functions on a state of their own,
of any type `σ`, and on the session configuration; their answers are the values these functions
return. `V` stands for the doubles of a point and `W` for those of a performance.

A function returns its C return value with the state after it, or `none` where the source reads
outside an array or, in `pluginWorkflow`, has not returned after `fuel` rounds of its loop.
The field `trace` is not in the source: it records the calls made and the trials moved.
-/

namespace ActiveHarmony

/-! ## The data of a session -/

/-- `hflow_status_t`. -/
inductive FlowStatus where
  | unknown | accept | ret | wait | reject | retry
deriving DecidableEq, Repr

/-- `hflow_t`. -/
structure Flow (V : Type) where
  status : FlowStatus
  point : HPoint V

/-- `htrial_t`. -/
structure HTrial (V W : Type) where
  point : HPoint V
  perf : HPerf W

/-- The error messages of the core. -/
inductive CoreError where
  | pointOverflow | readyOverflow | invalidLayer | invalidStatus | rejectInAnalysis
  | waitAppend | emptyWaitlist | copyPoint | rougePoint
deriving DecidableEq, Repr

/-- The text of an error message. -/
def CoreError.text : CoreError → Bytes
  | pointOverflow => cstr "Internal error: Point generation overflow."
  | readyOverflow => cstr "Internal error: Ready queue overflow."
  | invalidLayer => cstr "Internal error: Invalid current plug-in layer."
  | invalidStatus => cstr "Internal error: Invalid workflow status."
  | rejectInAnalysis => cstr "Internal error: REJECT invalid for analysis workflow."
  | waitAppend => cstr "Internal error: Could not append to wait list."
  | emptyWaitlist => cstr "Internal error: Callback on layer with empty waitlist."
  | copyPoint => cstr "Internal error: Could not copy candidate point data."
  | rougePoint => cstr "Rouge point support not yet implemented."

/-- What the core does, in the order it does it. Trials are named by their slots, and `ids` are
the ids of all slots in front of the call. -/
inductive Act where
  /-- `strategy_generate` filled slot `i` and left the id `id` there. -/
  | generate (i : ℕ) (ids : List ℤ) (ret : ℤ) (status : FlowStatus) (id : ℤ)
  /-- The layer `|c|` was called: `generate` if `c > 0`, `analyze` if `c < 0`. -/
  | layer (c : ℤ) (i : ℕ) (ret : ℤ) (status : FlowStatus)
  /-- A callback for the wait list `c` chose the trial at position `pos`. -/
  | callback (c : ℤ) (pos i : ℕ) (status : FlowStatus)
  /-- `strategy_rejected` refilled slot `i`. -/
  | rejected (i : ℕ) (ids : List ℤ) (ret : ℤ) (status : FlowStatus) (id : ℤ)
  /-- `strategy_analyze` got the trial. -/
  | analyzed (i : ℕ) (ret : ℤ)
  /-- The trial entered the ready queue. -/
  | enqueue (i : ℕ)
  /-- A client fetched the trial. -/
  | deliver (i : ℕ) (id : ℤ)
  /-- A client fetched the best point instead. -/
  | busy (id : ℤ)
  /-- A client reported `id`, which was found in slot `i`. -/
  | report (id : ℤ) (i : Option ℕ)
  /-- `session_restart` initialised the strategy again. -/
  | init (ret : ℤ)
  /-- An internal error was raised. -/
  | raised (e : CoreError)
deriving DecidableEq, Repr

/-- The state plug-ins can change: their own, the configuration, and the error message. -/
structure World (σ : Type) where
  plug : σ
  cfg : Hcfg
  errmsg : Option Bytes

/-- A wait list of a layer; `cap` is the length of `cells`. -/
structure WaitList where
  cells : List ℤ
  len : ℕ
deriving DecidableEq, Repr

/-- `layer_t`, without the wait lists. A layer hook may change the performance of the trial. -/
structure Layer (σ V W : Type) where
  generate : Option (World σ → Flow V → HTrial V W → ℤ × World σ × Flow V × HPerf W)
  analyze : Option (World σ → Flow V → HTrial V W → ℤ × World σ × Flow V × HPerf W)
  init : Option (World σ → ℤ × World σ)
  fini : Option (World σ → ℤ × World σ)

/-- `callback_t`. `func` returns a wait list index. -/
structure Callback (σ V W : Type) where
  index : ℤ
  func : World σ → Flow V → List (HTrial V W) → ℤ × World σ × Flow V × List (HPerf W)

/-- The loaded plug-ins. Callbacks are registered for loaded layers. -/
structure Plugins (σ V W : Type) where
  strategyGenerate : World σ → Flow V → HPoint V → ℤ × World σ × Flow V × HPoint V
  strategyRejected : World σ → Flow V → HPoint V → ℤ × World σ × Flow V × HPoint V
  strategyAnalyze : World σ → HTrial V W → ℤ × World σ
  strategyBest : World σ → HPoint V → ℤ × World σ × HPoint V
  strategyInit : Option (World σ → ℤ × World σ)
  lstack : List (Layer σ V W)
  cb : List (Callback σ V W)
  cb_index : ∀ c ∈ cb, c.index ≠ 0 ∧ c.index.natAbs ≤ lstack.length

/-- The variables of `session-core.c`. The wait list of layer `k` is `wait k` for its
`wait_generate` and `wait (-k)` for its `wait_analyze`; the capacities `pending_cap` and
`ready_cap` are the lengths of `pending` and `ready`. -/
structure Sess (σ V W : Type) where
  world : World σ
  pending : List (HTrial V W)
  pendingLen : ℤ
  ready : List ℤ
  readyHead : ℕ
  readyTail : ℕ
  wait : ℤ → WaitList
  currLayer : ℤ
  flow : Flow V
  pausedId : ℤ
  pollstate : Bool
  trace : List Act

variable {σ V W : Type}

/-- Record what was done. -/
def Sess.log (s : Sess σ V W) (a : Act) : Sess σ V W := { s with trace := s.trace ++ [a] }

/-- Set `errmsg` to a message of the core. -/
def Sess.raise (s : Sess σ V W) (e : CoreError) : Sess σ V W :=
  ({ s with world := { s.world with errmsg := some e.text } }).log (.raised e)

/-- The ids of all slots. -/
def Sess.ids (s : Sess σ V W) : List ℤ := s.pending.map fun trial => trial.point.id

/-! ## Wait lists -/

/-- `array_grow` on a wait list, with the new cells set to -1. -/
def WaitList.grow (l : WaitList) : WaitList :=
  let cap := if l.cells.length ≥ 8 then l.cells.length * 2 else 8
  { l with cells := l.cells ++ List.replicate (cap - l.cells.length) (-1) }

/-- `handle_wait`. -/
def handleWait (s : Sess σ V W) (trialIdx : ℕ) : Option (ℤ × Sess σ V W) :=
  let c := s.currLayer
  let l := if (s.wait c).len = (s.wait c).cells.length then (s.wait c).grow else s.wait c
  match l.cells[l.len]? with
  | none => none
  | some cell =>
    if cell ≠ -1 then
      some (-1, ({ s with wait := Function.update s.wait c l }).raise .waitAppend)
    else
      let l := { cells := l.cells.set l.len (trialIdx : ℤ), len := l.len + 1 }
      some (0, { s with wait := Function.update s.wait c l })

/-! ## The workflow -/

variable (P : Plugins σ V W)

/-- `handle_reject`. -/
def handleReject (s : Sess σ V W) (trialIdx : ℕ) : Option (ℤ × Sess σ V W) :=
  if s.currLayer < 0 then some (-1, s.raise .rejectInAnalysis)
  else
    match s.pending[trialIdx]? with
    | none => none
    | some trial =>
      -- Regenerate this rejected point.
      let (ret, world, flow, point) := P.strategyRejected s.world s.flow trial.point
      let act := Act.rejected trialIdx s.ids ret flow.status point.id
      let pending := s.pending.set trialIdx { trial with point := point }
      let s := ({ s with world := world, flow := flow, pending := pending }).log act
      if ret ≠ 0 then some (-1, s)
      else if s.flow.status = .wait then some (0, { s with pollstate := false })
      else some (0, s)

/-- `workflow_transition`. -/
def workflowTransition (s : Sess σ V W) (trialIdx : ℕ) : Option (ℤ × Sess σ V W) :=
  match s.flow.status with
  | .accept => some (0, { s with currLayer := s.currLayer + 1 })
  | .wait => do
    let (ret, s) ← handleWait s trialIdx
    if ret ≠ 0 then some (-1, s) else some (1, s)
  | .ret | .retry => some (0, { s with currLayer := -s.currLayer })
  | .reject => do
    let (ret, s) ← handleReject P s trialIdx
    if ret ≠ 0 then some (-1, s)
    else if s.flow.status = .wait then some (1, s)
    else some (0, { s with currLayer := 1 })
  | .unknown => some (-1, s.raise .invalidStatus)

/-- The call of a plug-in in the loop of `plugin_workflow`. A missing hook accepts. -/
def callLayer (s : Sess σ V W) (trialIdx : ℕ) : Option (ℤ × Sess σ V W) :=
  let stackIdx := s.currLayer.natAbs - 1
  match P.lstack[stackIdx]?, s.pending[trialIdx]? with
  | some layer, some trial =>
    let s := { s with flow := { s.flow with status := .accept } }
    let hook := if s.currLayer < (0 : ℤ) then layer.analyze else layer.generate
    match hook with
    | none => some (0, s.log (.layer s.currLayer trialIdx 0 .accept))
    | some hook =>
      let (ret, world, flow, perf) := hook s.world s.flow trial
      let pending := s.pending.set trialIdx { trial with perf := perf }
      some (ret, ({ s with world := world, flow := flow, pending := pending }).log
        (.layer s.currLayer trialIdx ret flow.status))
  | _, _ => none

/-- What `plugin_workflow` does after its loop. -/
def finishWorkflow (s : Sess σ V W) (trialIdx : ℕ) : Option (ℤ × Sess σ V W) :=
  if s.currLayer = 0 then
    match s.pending[trialIdx]? with
    | none => none
    | some trial =>
      -- Completed analysis layers. Send trial to strategy.
      let (ret, world) := P.strategyAnalyze s.world trial
      let s := ({ s with world := world }).log (.analyzed trialIdx ret)
      if ret ≠ 0 then some (-1, s)
      else
        let pending := s.pending.set trialIdx { trial with point := hpointInitializer V }
        some (0, { s with
          pending := pending, pendingLen := s.pendingLen - 1, pollstate := true })
  else if s.currLayer > P.lstack.length then
    -- Completed generation layers. Enqueue trial in ready queue.
    match s.ready[s.readyTail]? with
    | none => none
    | some cell =>
      if cell ≠ -1 then some (-1, s.raise .readyOverflow)
      else
        some (0, ({ s with
          ready := s.ready.set s.readyTail (trialIdx : ℤ)
          readyTail := (s.readyTail + 1) % s.ready.length }).log (.enqueue trialIdx))
  else some (-1, s.raise .invalidLayer)

/-- `plugin_workflow`, for at most `fuel` rounds of its loop. -/
def pluginWorkflow : ℕ → Sess σ V W → ℕ → Option (ℤ × Sess σ V W)
  | 0, _, _ => none
  | fuel + 1, s, trialIdx =>
    if s.currLayer ≠ 0 ∧ s.currLayer ≤ P.lstack.length then do
      let (ret, s) ← callLayer P s trialIdx
      if ret ≠ 0 then some (-1, s)
      else
        let (retval, s) ← workflowTransition P s trialIdx
        if retval < 0 then some (-1, s)
        else if retval > 0 then some (0, s)
        else pluginWorkflow fuel s trialIdx
    else finishWorkflow P s trialIdx

/-- `hperf_reset`. -/
def hperfReset [Top W] (perf : HPerf W) : HPerf W := { p := perf.p.map fun _ => ⊤ }

/-- `generate_trial`. -/
def generateTrial [Top W] (fuel : ℕ) (s : Sess σ V W) : Option (ℤ × Sess σ V W) :=
  -- Find a free point.
  let idx := s.pending.findIdx fun trial => trial.point.id = -1
  match s.pending[idx]? with
  | none => some (-1, s.raise .pointOverflow)
  | some trial =>
    let perf := hperfReset trial.perf
    let (ret, world, flow, point) := P.strategyGenerate s.world s.flow trial.point
    let act := Act.generate idx s.ids ret flow.status point.id
    let pending := s.pending.set idx { point := point, perf := perf }
    let s := ({ s with world := world, flow := flow, pending := pending }).log act
    if ret ≠ 0 then some (-1, s)
    else if s.flow.status = .wait then some (0, { s with pollstate := false })
    else
      -- Begin generation workflow for new point.
      pluginWorkflow P fuel { s with pendingLen := s.pendingLen + 1, currLayer := 1 } idx

/-- The trials that a callback is shown. -/
def waitingTrials (s : Sess σ V W) (l : WaitList) : Option (List (HTrial V W)) :=
  (l.cells.take l.len).mapM fun cell => if cell < 0 then none else s.pending[cell.toNat]?

/-- The performances that a callback left in the trials it was shown. -/
def setPerfs : List (HTrial V W) → List (ℤ × HPerf W) → List (HTrial V W)
  | pending, [] => pending
  | pending, (cell, perf) :: perfs =>
    setPerfs (pending.modify cell.toNat fun trial => { trial with perf := perf }) perfs

/-- Take the trial at position `idx` off a wait list: the last one takes its place. -/
def WaitList.remove (l : WaitList) (idx : ℕ) : WaitList :=
  let len := l.len - 1
  { cells := (l.cells.set idx ((l.cells[len]?).getD (-1))).set len (-1), len := len }

/-- `handle_callback`. -/
def handleCallback (fuel : ℕ) (s : Sess σ V W) (cb : Callback σ V W) :
    Option (ℤ × Sess σ V W) :=
  let s := { s with currLayer := cb.index }
  let l := s.wait s.currLayer
  if l.len < 1 then some (-1, s.raise .emptyWaitlist)
  else do
    let trialList ← waitingTrials s l
    let (idx, world, flow, perfs) := cb.func s.world s.flow trialList
    -- the index must point into the wait list
    if idx < 0 ∨ idx ≥ l.len then none
    else
      let cell ← l.cells[idx.toNat]?
      let trialIdx := cell.toNat
      let pending := setPerfs s.pending ((l.cells.take l.len).zip perfs)
      let s := ({ s with world := world, flow := flow, pending := pending }).log
        (.callback cb.index idx.toNat trialIdx flow.status)
      let (retval, s) ← workflowTransition P s trialIdx
      if retval < 0 then some (-1, s)
      else if retval > 0 then some (0, s)
      else
        let l := s.wait cb.index
        pluginWorkflow P fuel
          { s with wait := Function.update s.wait cb.index (l.remove idx.toNat) } trialIdx

/-! ## Requests of clients -/

/-- The requests of this model. -/
inductive Request (W : Type) where
  | best
  | fetch
  | report (candId : ℤ) (perf : HPerf W)
  | restart

/-- The answers to requests: a message with a status, and a point if it carries one. -/
inductive Reply (V : Type) where
  | ok
  | point (status : HMesgStatus) (pt : HPoint V)
  | fail (errmsg : Option Bytes)

/-- `hpoint_copy`. -/
def hpointCopy (orig : HPoint V) : HPoint V := if orig.id = -1 then hpointInitializer V else orig

/-- `handle_best`. -/
def handleBest (s : Sess σ V W) : ℤ × Sess σ V W × Reply V :=
  let (ret, world, pt) := P.strategyBest s.world (hpointInitializer V)
  let s := { s with world := world }
  if ret ≠ 0 then (-1, s, .ok) else (0, s, .point .ok pt)

/-- `CFGKEY_SESSION_PAUSED`. -/
def cfgkeySessionPaused : Bytes := cstr "SESSION_PAUSED"

/-- `CFGKEY_CURRENT_CLIENT`. -/
def cfgkeyCurrentClient : Bytes := cstr "CURRENT_CLIENT"

/-- Whether the session is paused. -/
def Sess.paused (s : Sess σ V W) : Bool :=
  match hcfgGet s.world.cfg cfgkeySessionPaused with
  | some cfgval => cfgval.head? = some 49
  | none => false

/-- `handle_fetch`. -/
def handleFetch (s : Sess σ V W) : Option (ℤ × Sess σ V W × Reply V) :=
  match s.ready[s.readyHead]? with
  | none => none
  | some idx =>
    if !s.paused ∧ idx ≥ 0 then
      -- Send the next point on the ready queue.
      match s.pending[idx.toNat]? with
      | none => none
      | some next =>
        let s := { s with
          ready := s.ready.set s.readyHead (-1)
          readyHead := (s.readyHead + 1) % s.ready.length }
        some (0, s.log (.deliver idx.toNat next.point.id), .point .ok (hpointCopy next.point))
    else
      -- Ready queue is empty, or session is paused. Send the best known point.
      let (ret, world, pt) := P.strategyBest s.world (hpointInitializer V)
      let s := { s with world := world }
      if ret ≠ 0 then some (-1, s, .ok)
      else some (0, ({ s with pausedId := pt.id }).log (.busy pt.id), .point .busy pt)

/-- `handle_report`. -/
def handleReport (fuel : ℕ) (s : Sess σ V W) (candId : ℤ) (perf : HPerf W) :
    Option (ℤ × Sess σ V W × Reply V) :=
  -- Find the associated trial in the pending list.
  let idx := s.pending.findIdx fun trial => trial.point.id = candId
  match s.pending[idx]? with
  | none =>
    let s := s.log (.report candId none)
    if candId = s.pausedId then some (0, s, .ok)
    else some (-1, s.raise .rougePoint, .ok)
  | some trial => do
    -- Update performance in our local records.
    let pending := s.pending.set idx { trial with perf := perf }
    -- Begin the workflow at the outermost analysis layer.
    let s := ({ s with
      pausedId := 0, pending := pending, currLayer := -P.lstack.length }).log
      (.report candId (some idx))
    let (ret, s) ← pluginWorkflow P fuel s idx
    if ret ≠ 0 then some (-1, s, .ok) else some (0, s, .ok)

/-- Call a list of optional hooks until one fails. -/
def callHooks : List (Option (World σ → ℤ × World σ)) → World σ → ℤ × World σ
  | [], world => (0, world)
  | none :: hooks, world => callHooks hooks world
  | some hook :: hooks, world =>
    let (ret, world) := hook world
    if ret ≠ 0 then (-1, world) else callHooks hooks world

/-- `session_restart`. -/
def sessionRestart (s : Sess σ V W) : ℤ × Sess σ V W :=
  let (ret, world) := callHooks (P.lstack.reverse.map Layer.fini) s.world
  let s := { s with world := world }
  if ret ≠ 0 then (-1, s)
  else
    let (ret, s) := match P.strategyInit with
      | none => (0, s)
      | some strategyInit =>
        let (ret, world) := strategyInit s.world
        (ret, ({ s with world := world }).log (.init ret))
    if ret ≠ 0 then (-1, s)
    else
      let (ret, world) := callHooks (P.lstack.map Layer.init) s.world
      (ret, { s with world := world })

/-- `handle_restart`. The return value of `session_restart` is not looked at. -/
def handleRestart (s : Sess σ V W) : ℤ × Sess σ V W × Reply V :=
  let (_, s) := sessionRestart P s
  (0, s, .ok)

/-! ## The main loop -/

/-- The switch of the main loop on the message type. -/
def handleRequest (fuel : ℕ) (s : Sess σ V W) :
    Request W → Option (ℤ × Sess σ V W × Reply V)
  | .best => some (handleBest P s)
  | .fetch => handleFetch P s
  | .report candId perf => handleReport P fuel s candId perf
  | .restart => some (handleRestart P s)

/-- The part of the main loop that handles a message of the client `srcId`. The result tells
whether the session goes on, and what it answers. -/
def handleMesg (fuel : ℕ) (s : Sess σ V W) (srcId : Option Bytes) (req : Request W) :
    Option (Bool × Sess σ V W × Reply V) := do
  let (_, cfg) ← hcfgSet s.world.cfg cfgkeyCurrentClient srcId
  let s := { s with world := { s.world with cfg := cfg } }
  let (ret, s, reply) ← handleRequest P fuel s req
  if ret ≠ 0 then some (false, s, .fail s.world.errmsg)
  else
    let (_, cfg) ← hcfgSet s.world.cfg cfgkeyCurrentClient none
    some (true, { s with world := { s.world with cfg := cfg } }, reply)

/-- What happens in the main loop, in any order: the top of the loop, a callback, a message, and
a call of `generate_trial` by the loop at its end. -/
inductive Event (W : Type) where
  | top
  | callback (j : ℕ)
  | mesg (srcId : Option Bytes) (req : Request W)
  | generate

/-- One event of the main loop: whether the session goes on, its state and its answer. -/
def sessEvent [Top W] (fuel : ℕ) (s : Sess σ V W) :
    Event W → Option (Bool × Sess σ V W × Option (Reply V))
  | .top => some (true, { s with flow := { status := .accept, point := hpointInitializer V } }, none)
  | .callback j => do
    let cb ← P.cb[j]?
    -- the return value is not looked at
    let (_, s) ← handleCallback P fuel s cb
    some (true, s, none)
  | .mesg srcId req => do
    let (alive, s, reply) ← handleMesg P fuel s srcId req
    some (alive, s, some reply)
  | .generate =>
    if s.pollstate ∧ s.pendingLen < s.pending.length then do
      let (_, s) ← generateTrial P fuel s
      some (true, s, none)
    else none

/-- The state after `init_session`: no trials, and point generation may begin. -/
structure Sess.Initial (s : Sess σ V W) : Prop where
  room : 0 < s.pending.length
  pending : ∀ trial ∈ s.pending, trial.point.id = -1
  ready : s.ready = List.replicate s.pending.length (-1)
  pendingLen : s.pendingLen = 0
  readyHead : s.readyHead = 0
  readyTail : s.readyTail = 0
  wait : s.wait = fun _ => { cells := [], len := 0 }
  pollstate : s.pollstate = true
  pausedId : s.pausedId = 0
  trace : s.trace = []

/-- A session with `cap` free slots. -/
def Sess.start (world : World σ) (cap : ℕ) : Sess σ V W where
  world := world
  pending := List.replicate cap { point := hpointInitializer V, perf := { p := [] } }
  pendingLen := 0
  ready := List.replicate cap (-1)
  readyHead := 0
  readyTail := 0
  wait := fun _ => { cells := [], len := 0 }
  currLayer := 0
  flow := { status := .accept, point := hpointInitializer V }
  pausedId := 0
  pollstate := true
  trace := []

lemma Sess.start_initial (world : World σ) {cap : ℕ} (hcap : 0 < cap) :
    (Sess.start (V := V) (W := W) world cap).Initial where
  room := by rwa [Sess.start, List.length_replicate]
  pending := by
    intro trial htrial
    rw [List.eq_of_mem_replicate htrial]
    rfl
  ready := by rw [Sess.start, List.length_replicate]
  pendingLen := rfl
  readyHead := rfl
  readyTail := rfl
  wait := rfl
  pollstate := rfl
  pausedId := rfl
  trace := rfl

/-- The states a session reaches; the flag tells whether its main loop is still running. -/
inductive Reachable [Top W] : Bool → Sess σ V W → Prop where
  | init {s : Sess σ V W} : s.Initial → Reachable true s
  | step {s s' : Sess σ V W} {alive : Bool} {fuel : ℕ} {e : Event W} {reply : Option (Reply V)} :
      Reachable true s → sessEvent P fuel s e = some (alive, s', reply) → Reachable alive s'

/-- Several events, as long as the session goes on. -/
def sessRun [Top W] (fuel : ℕ) : Sess σ V W → List (Event W) → Option (Sess σ V W)
  | s, [] => some s
  | s, e :: es =>
    match sessEvent P fuel s e with
    | some (true, s, _) => sessRun fuel s es
    | _ => none

variable {P}

lemma Reachable.run [Top W] {fuel : ℕ} {s s' : Sess σ V W} {es : List (Event W)}
    (h : Reachable P true s) (hrun : sessRun P fuel s es = some s') : Reachable P true s' := by
  induction es generalizing s with
  | nil =>
    cases hrun
    exact h
  | cons e es ih =>
    rw [sessRun] at hrun
    rcases hevent : sessEvent P fuel s e with _ | ⟨alive, s₁, reply⟩
    · simp only [hevent] at hrun
      cases hrun
    · cases alive with
      | false =>
        simp only [hevent] at hrun
        cases hrun
      | true =>
        simp only [hevent] at hrun
        exact ih (h.step hevent) hrun

end ActiveHarmony

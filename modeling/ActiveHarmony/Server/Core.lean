import ActiveHarmony.Strategy.Common
import Mathlib.Logic.Function.Basic

/-!
# The server `hserver.c`

The main loop calls one handler for each descriptor that is ready. A run is a sequence of such calls,
in any order, with the answers of the operating system as part of the event.

A descriptor is a number that may be used again after it was closed; `conn` says which connection it
stands for now, and connections are numbered in the order of their creation. `outstanding` keeps, for
each session process, the requests it has not answered yet, and `delivered` the answers that were
written to a connection. The three are not variables of the server. The data for the pages of the
HTTP interface is left out, but for the logs that the handlers of messages keep.
-/

namespace ActiveHarmony.Hserver

/-- What is known about the peer of a descriptor. -/
inductive ConnKind where
  | unknown | client | http | session
deriving DecidableEq, Repr

/-- An open connection. -/
structure Conn where
  serial : ℕ
  kind : ConnKind
deriving DecidableEq, Repr

/-- A request on its way through a session: the descriptor that identifies the requester, and the
connection it came from. -/
structure Request where
  fd : ℤ
  serial : ℕ
deriving DecidableEq, Repr

/-- `session_state_t`. The capacity of a list is its length. -/
structure SessionState (V : Type) where
  name : Option Bytes
  fd : ℤ
  client : List ℤ
  clientLen : ℤ
  best : HPoint V
  bestPerf : V
  log : List (HPoint V × V)
  fetched : List (HPoint V)
  reported : ℕ
  outstanding : List Request
deriving DecidableEq, Repr

/-- The variables of `hserver.c`. -/
structure Server (V : Type) where
  unkFds : List ℤ
  clientFds : List ℤ
  httpFds : List ℤ
  httpLen : ℤ
  slist : List (SessionState V)
  conn : ℤ → Option Conn
  nextSerial : ℕ
  delivered : List (ℕ × ℕ)

/-- What the operating system answers during one event. -/
structure Net where
  /-- The last `mesg_send` succeeds. -/
  sent : Bool
  /-- The socket of a session that is launched. -/
  launched : Option ℤ
  /-- `shutdown` succeeds. -/
  shutdown : ℤ → Bool

/-- The first bytes of a connection. -/
inductive Header where
  | harmony | http | missing
deriving DecidableEq, Repr

/-- The calls of the main loop. A message is `none` where `mesg_recv` finds the end of the stream or
an error. -/
inductive Event (V : Type) where
  | accept (fd : ℤ)
  | unknown (i : ℕ) (header : Header)
  | client (i : ℕ) (recv : Option (HMesg V)) (net : Net)
  | session (idx : ℕ) (recv : Option (HMesg V)) (infoOk : Bool) (net : Net)
  /-- A page that ends a session. -/
  | httpKill (i : ℕ) (name : Bytes) (net : Net)
  /-- The peer has closed the connection. -/
  | httpClosed (i : ℕ)

variable {V : Type}

/-- The capacity after `array_grow`. -/
def grownCap (cap : ℕ) : ℕ := if 8 ≤ cap then 2 * cap else 8

/-- `available_index`: the index, and the list, perhaps grown. -/
def availableIndex (list : List ℤ) : ℕ × List ℤ :=
  let idx := list.findIdx (· = -1)
  if idx < list.length then (idx, list)
  else (list.length, list ++ List.replicate (grownCap list.length - list.length) (-1))

/-- Store a descriptor at the available index. -/
def addFd (list : List ℤ) (fd : ℤ) : List ℤ :=
  let (idx, list) := availableIndex list
  list.set idx fd

/-- A loop that overwrites the first occurrence of a descriptor. -/
def clearFirst (list : List ℤ) (fd : ℤ) : List ℤ := list.set (list.findIdx (· = fd)) (-1)

/-- A new connection on `fd`. -/
def Server.connect (s : Server V) (fd : ℤ) (kind : ConnKind) : Server V :=
  { s with conn := Function.update s.conn fd (some { serial := s.nextSerial, kind := kind })
           nextSerial := s.nextSerial + 1 }

/-- What is known about the peer of `fd` from now on. -/
def Server.classify (s : Server V) (fd : ℤ) (kind : ConnKind) : Server V :=
  { s with conn := Function.update s.conn fd ((s.conn fd).map fun c => { c with kind := kind }) }

/-- `close`. -/
def Server.close (s : Server V) (fd : ℤ) : Server V :=
  { s with conn := Function.update s.conn fd none }

/-- A change to one session. -/
def Server.onSession (s : Server V) (idx : ℕ) (f : SessionState V → SessionState V) : Server V :=
  { s with slist := s.slist.modify idx f }

/-- The loop of `client_close` over the client list of one session. -/
def SessionState.lose (sess : SessionState V) (fd : ℤ) : SessionState V :=
  if fd ∈ sess.client then
    { sess with client := clearFirst sess.client fd, clientLen := sess.clientLen - 1 }
  else sess

/-- `client_close`. A descriptor that cannot be shut down is not closed. -/
def clientClose (s : Server V) (net : Net) (fd : ℤ) : Server V :=
  let s := { s with slist := s.slist.map (·.lose fd), clientFds := clearFirst s.clientFds fd }
  if net.shutdown fd then s.close fd else s

/-- One round of the loop of `session_close`. -/
def closeCell (net : Net) (idx : ℕ) (s : Server V) (i : ℕ) : Server V :=
  match s.slist[idx]? with
  | none => s
  | some sess =>
    let fd := sess.client.getD i (-1)
    if fd ≠ -1 then clientClose s net fd else s

/-- `session_close`. -/
def sessionClose (s : Server V) (net : Net) (idx : ℕ) : Server V :=
  let s := s.onSession idx fun sess => { sess with name := none }
  let cap := (s.slist[idx]?.map fun sess => sess.client.length).getD 0
  (List.range cap).foldl (closeCell net idx) s

/-- `handle_new_connection`. -/
def handleNewConnection (s : Server V) (fd : ℤ) : Server V :=
  { s.connect fd .unknown with unkFds := addFd s.unkFds fd }

/-- `http_connection_limit`. -/
def httpConnectionLimit : ℤ := 32

/-- `handle_unknown_connection`. -/
def handleUnknownConnection (s : Server V) (fd : ℤ) (header : Header) : Server V :=
  match header with
  | .missing => s.close fd
  | .harmony => { s.classify fd .client with clientFds := addFd s.clientFds fd }
  | .http =>
    if httpConnectionLimit ≤ s.httpLen then s.close fd
    else { s.classify fd .http with httpFds := addFd s.httpFds fd, httpLen := s.httpLen + 1 }

/-- A session with the given name. -/
def findSession (s : Server V) (name : Bytes) : Option ℕ := s.slist.findIdx? (·.name = some name)

section

variable [Add V] [Zero V] [LT V] [DecidableLT V] [Top V]

/-- An element of the session list that `array_grow` has cleared. -/
def SessionState.zeroed : SessionState V where
  name := none
  fd := 0
  client := []
  clientLen := 0
  best := { id := 0, val := [] }
  bestPerf := 0
  log := []
  fetched := []
  reported := 0
  outstanding := []

/-- The first slot without a session, in a list that is expanded if necessary. -/
def freeSlot (slist : List (SessionState V)) : ℕ × List (SessionState V) :=
  let idx := slist.findIdx (·.name.isNone)
  if idx < slist.length then (idx, slist)
  else (slist.length, slist ++ List.replicate (grownCap slist.length - slist.length) .zeroed)

/-- `session_open`: the index of the session. The launch fails also where the configuration of the
request is refused. -/
def sessionOpen (s : Server V) (name : Option Bytes) (launched : Option ℤ) :
    Option (ℕ × Server V) :=
  match name with
  | none => none
  | some name =>
    -- Check if the session already exists.
    if (findSession s name).isSome then none
    else
      let (idx, slist) := freeSlot s.slist
      launched.map fun fd =>
        let slist := slist.modify idx fun sess =>
          { sess with
            name := some name
            fd := fd
            clientLen := 0
            best := hpointInitializer V
            bestPerf := ⊤
            log := []
            reported := 0
            outstanding := [] }
        (idx, { s.connect fd .session with slist := slist })

/-- The bookkeeping for a report. -/
def SessionState.report (sess : SessionState V) (candId : ℤ) (perf : V) : SessionState V :=
  match sess.fetched.findIdx? (·.id = candId) with
  | some i =>
    let pt := sess.fetched.getD i (hpointInitializer V)
    let sess := { sess with log := sess.log ++ [(hpointCopy pt, perf)] }
    -- Also update our best point data, if necessary.
    let sess :=
      if perf < sess.bestPerf ∧ sess.best.id ≠ pt.id then
        { sess with bestPerf := perf, best := hpointCopy pt }
      else sess
    -- Remove the point from the fetched list: the last one takes its place.
    let last := sess.fetched.getD (sess.fetched.length - 1) (hpointInitializer V)
    { sess with fetched := (sess.fetched.set i (hpointCopy last)).take (sess.fetched.length - 1) }
  | none => { sess with log := sess.log ++ [(hpointCopy sess.best, perf)] }

/-- The session a request is for, after the bookkeeping of its type. `none` is an error; a message
whose data are not those of its type is one. -/
def handleRequest (s : Server V) (fd : ℤ) (mesg : HMesg V) (net : Net) : Option (ℕ × Server V) :=
  match mesg.type, mesg.data with
  | .session, .session sess => sessionOpen s sess.sig.name net.launched
  | .join, .join sig =>
    match sig.name.bind (findSession s) with
    | none => none
    | some idx =>
      some (idx, s.onSession idx fun sess =>
        { sess with client := addFd sess.client fd, clientLen := sess.clientLen + 1 })
  | .session, _ | .join, _ => none
  | type, data =>
    -- Sanity check input.
    if mesg.dest < 0 ∨ (s.slist[mesg.dest.toNat]?.bind (·.name)).isNone then none
    else
      let idx := mesg.dest.toNat
      match type, data with
      | .getcfg, _ | .setcfg, _ | .best, _ | .fetch, _ | .restart, _ => some (idx, s)
      | .report, .report candId perf =>
        some (idx, s.onSession idx fun sess => sess.report candId (hperfUnify perf))
      | _, _ => none

/-- `handle_client_socket`. -/
def handleClientSocket (s : Server V) (fd : ℤ) (recv : Option (HMesg V)) (net : Net) :
    ℤ × Server V :=
  match recv with
  | none => (-1, s)
  | some mesg =>
    -- Message was intended to be ignored.
    if mesg.dest = -1 then (0, s)
    else
      match handleRequest s fd mesg net with
      | none => (-1, s)
      | some (idx, s) =>
        if net.sent then
          let serial := ((s.conn fd).map Conn.serial).getD 0
          (0, s.onSession idx fun sess =>
            { sess with outstanding := sess.outstanding ++ [{ fd := fd, serial := serial }] })
        else (-1, sessionClose s net idx)

/-- The part of the main loop for cell `i` of `client_fds`. -/
def clientEvent (s : Server V) (i : ℕ) (fd : ℤ) (recv : Option (HMesg V)) (net : Net) : Server V :=
  let (ret, s) := handleClientSocket s fd recv net
  if ret < 0 then
    -- The handler may have cleared the cell.
    let s := clientClose s net (s.clientFds.getD i (-1))
    { s with clientFds := s.clientFds.set i (-1) }
  else s

/-- `handle_session_socket` for a message that is forwarded to `mesg.dest`, the answer to `req`. -/
def forwardReply (s : Server V) (idx : ℕ) (mesg : HMesg V) (req : Request) (net : Net) : Server V :=
  let s := s.onSession idx fun sess =>
    let sess := { sess with outstanding := sess.outstanding.tail }
    match mesg.type, mesg.status, mesg.data with
    -- Log this point before we forward it to the client.
    | .fetch, .ok, .point pt => { sess with fetched := sess.fetched ++ [hpointCopy pt] }
    | .report, .ok, _ => { sess with reported := sess.reported + 1 }
    | _, _, _ => sess
  if net.sent then
    { s with delivered := s.delivered ++ [(req.serial, ((s.conn mesg.dest).map Conn.serial).getD 0)] }
  else clientClose s net mesg.dest

/-- The types of the answers that `handle_session_socket` forwards. -/
def isReply (type : HMesgType) : Bool := type != .unknown

/-- One call of the main loop; `none` if it cannot happen. -/
def step (s : Server V) : Event V → Option (Server V)
  | .accept fd => if 0 ≤ fd ∧ s.conn fd = none then some (handleNewConnection s fd) else none
  | .unknown i header =>
    let fd := s.unkFds.getD i (-1)
    if fd = -1 ∨ (header ≠ .missing ∧ s.conn fd = none) then none
    else some { handleUnknownConnection s fd header with unkFds := s.unkFds.set i (-1) }
  | .client i recv net =>
    let fd := s.clientFds.getD i (-1)
    if fd = -1 ∨ (recv.isSome ∧ s.conn fd = none) ∨
        net.launched.any fun fd' => fd' < 0 ∨ (s.conn fd').isSome then none
    else some (clientEvent s i fd recv net)
  | .session idx recv infoOk net =>
    match s.slist[idx]? with
    | none => none
    | some sess =>
      if sess.name = none then none
      else
        match recv with
        | none => some (sessionClose s net idx)
        | some mesg =>
          if mesg.dest = -1 then
            if mesg.status = .req ∧ !infoOk then some (sessionClose s net idx) else some s
          else if !isReply mesg.type then some (sessionClose s net idx)
          else
            -- A session answers one request after the other, and returns the descriptor it got.
            match sess.outstanding with
            | [] => none
            | req :: _ =>
              if mesg.dest ≠ req.fd ∨ (net.sent ∧ s.conn mesg.dest = none) then none
              else some (forwardReply s idx mesg req net)
  | .httpKill i name net =>
    if s.httpFds.getD i (-1) = -1 then none
    else
      match findSession s name with
      | none => some s
      | some idx => some (sessionClose s net idx)
  | .httpClosed i =>
    let fd := s.httpFds.getD i (-1)
    if fd = -1 then none
    else some { s.close fd with httpFds := s.httpFds.set i (-1), httpLen := s.httpLen - 1 }

/-- The state after `vars_init` and `network_init`. -/
def Server.start : Server V where
  unkFds := List.replicate 8 (-1)
  clientFds := List.replicate 8 (-1)
  httpFds := List.replicate 8 (-1)
  httpLen := 0
  slist := List.replicate 8 .zeroed
  conn := fun _ => none
  nextSerial := 0
  delivered := []

/-- Several calls of the main loop. -/
def run (s : Server V) (es : List (Event V)) : Option (Server V) := es.foldlM step s

end

end ActiveHarmony.Hserver

import OpenIdea.Lib.Runs
import OpenIdea.Rpc.HoldList

/-!
# A routed connection (oi_rpc_route.cpp)

A `RouteConnection` sends the calls of any threads to one address. Without a session `Submit` holds
the call in `vHeld` and asks for one (`Ensure`); the poll thread resolves the address, connects and
adopts the socket (`Begin`, `OnResolved`, `Connect`, `Connected`), and `Finish` sends or fails what
is held. A session that ends says so (`Disconnected`), and the pool retires a connection that is
idle (`Retire`).

`Link` has the fields that say how far the connection has come, with what the poll thread is doing
for it. The poll thread does one thing at a time, so the functions that run there have their steps
in `Link.pollStep`, and `Link.poll` says which one comes next. All other threads are a `Task` each.
A step is one critical section of `stMutex`, one use of the call table or of a session, or one call
out of the class; the sections of `Submit` use the call table once, so each of them is one step.
-/

set_option autoImplicit false

namespace OpenIdea.Rpc.RouteConnection

open OpenIdea.Lib OpenIdea.Lib.Runs

/-- The policy of the route, and whether `sPort` is a number from 1 to 65535. -/
structure Config where
  iSendBytes : ℕ
  iHeldCount : ℕ
  iHeldBytes : ℕ
  bPort : Bool

/-! ## The poll thread -/

/-- What the poll thread does next for the connection. -/
inductive PollTask where
  /-- In `Begin`, after its lock. -/
  | begin
  /-- In `OnResolved`, before its lock. -/
  | onResolved (bOk : Bool)
  /-- Before `Connect`. -/
  | connect
  /-- In `Connected`, before `Adopt`. -/
  | adopt
  /-- Before `Finish`. -/
  | finish (iSessionId : ℤ)
  /-- In `Retire`, after its lock. -/
  | retire (iSessionId : ℤ)
  /-- In `Retire`, before `CloseSession`. -/
  | closeSession (iSessionId : ℤ)
  /-- In `ActiveClose`, which `Retire` has called through `CloseSession`. -/
  | activeClose (iSessionId : ℤ)
  /-- In `Retire`, before its `Finish`. -/
  | retired
  deriving DecidableEq, Repr

/-- How far the connection has come. -/
structure Link where
  iSessionId : ℤ
  bConnecting : Bool
  bPosted : Bool
  bRetired : Bool
  /-- `pConnector` is not null. -/
  pConnector : Bool
  poll : Option PollTask
  /-- The calls of `Begin` in the queue of the poll thread. -/
  begins : ℕ
  /-- The calls of `Resolve` whose `OnResolved` is still to come. -/
  resolves : ℕ

/-- How a call out of the class ends: at once, with a result, or later. -/
inductive Outcome where
  | ok
  | failed
  | pending
  deriving DecidableEq, Repr

/-- The steps of the poll thread. `Finish` is a step of its own. -/
inductive PollStep where
  /-- `Begin`, up to the end of its lock. -/
  | begin
  /-- The rest of `Begin`, and how `Resolve` ends. -/
  | resolve (outcome : Outcome)
  /-- The loop calls `OnResolved`. -/
  | onResolved (bOk : Bool)
  /-- `OnResolved`, up to the end of its lock. -/
  | checkRetired
  /-- `Connect`, and how the connect ends. -/
  | connect (outcome : Outcome)
  /-- `RouteConnector::DataOut`, with a connected socket or none. -/
  | dataOut (bOk : Bool)
  /-- `Adopt`, which may fail to register the channel. -/
  | adopt (bOk : Bool)
  /-- `Retire`, up to the end of its lock. -/
  | retire
  /-- `Retire` takes the connector back. -/
  | cancel
  /-- `Retire` closes the session, if there is one. -/
  | closeSession
  /-- The session that `Retire` closes says so. -/
  | activeClose
  deriving DecidableEq, Repr

namespace Link

def init : Link := ⟨invalidSid, false, false, false, false, none, 0, 0⟩

/-- `Begin`, up to the end of its lock. -/
def begin (l : Link) : Link :=
  let l := { l with bPosted := false, begins := l.begins - 1 }
  if l.bRetired || l.bConnecting || decide (l.iSessionId ≠ invalidSid) then l
  else { l with bConnecting := true, poll := some .begin }

/-- `Disconnected` -/
def disconnected (l : Link) (iSessionId : ℤ) : Link :=
  if l.iSessionId = iSessionId then { l with iSessionId := invalidSid } else l

/-- What `Finish` does apart from the calls. -/
def finish (l : Link) (iSessionId : ℤ) : Link :=
  { l with bConnecting := false, iSessionId := iSessionId, poll := none }

/-- The session of the `Finish` that comes next. -/
def finishing (l : Link) : Option ℤ :=
  match l.poll with
  | some (.finish iSessionId) => some iSessionId
  | some .retired => some invalidSid
  | _ => none

/-- What comes after a call that gives a socket or an address. -/
def next (l : Link) (poll : PollTask) : Link := { l with poll := some poll }

/-- One step of the poll thread; `none` where it is not the next one. The manager has the sessions
`inMap`, and a session that is adopted gets the id `iNewId`. -/
def pollStep (cfg : Config) (l : Link) (inMap : ℤ → Bool) (iNewId : ℤ) : PollStep → Option Link
  | .begin => if l.poll = none ∧ 0 < l.begins then some l.begin else none
  | .resolve outcome =>
      if l.poll ≠ some .begin then none
      else if !cfg.bPort then some (l.next (.finish invalidSid))
      else
        match outcome with
        | .ok => some (l.next (.onResolved true))
        | .failed => some (l.next (.onResolved false))
        | .pending => some { l with poll := none, resolves := l.resolves + 1 }
  | .onResolved bOk =>
      if l.poll = none ∧ 0 < l.resolves then
        some ({ l with resolves := l.resolves - 1 }.next (.onResolved bOk))
      else none
  | .checkRetired =>
      match l.poll with
      | some (.onResolved bOk) =>
          if !bOk || l.bRetired then some (l.next (.finish invalidSid)) else some (l.next .connect)
      | _ => none
  | .connect outcome =>
      if l.poll ≠ some .connect then none
      else
        match outcome with
        | .ok => some (l.next .adopt)
        | .failed => some (l.next (.finish invalidSid))
        | .pending => some { l with poll := none, pConnector := true }
  | .dataOut bOk =>
      if l.poll = none ∧ l.pConnector = true then
        some ({ l with pConnector := false }.next (if bOk then .adopt else .finish invalidSid))
      else none
  | .adopt bOk =>
      if l.poll ≠ some .adopt then none
      else some (l.next (.finish (if bOk then iNewId else invalidSid)))
  | .retire =>
      if l.poll = none then some ({ l with bRetired := true }.next (.retire l.iSessionId)) else none
  | .cancel =>
      match l.poll with
      | some (.retire iSessionId) =>
          some ({ l with pConnector := false }.next (.closeSession iSessionId))
      | _ => none
  | .closeSession =>
      match l.poll with
      | some (.closeSession iSessionId) =>
          some (l.next (if iSessionId ≠ invalidSid ∧ inMap iSessionId then .activeClose iSessionId
            else .retired))
      | _ => none
  | .activeClose =>
      match l.poll with
      | some (.activeClose iSessionId) => some ((l.disconnected iSessionId).next .retired)
      | _ => none

end Link

/-! ## All threads -/

/-- Where a thread is. -/
inductive Task where
  /-- In `Submit`, before `SendBytesResult`. -/
  | submit (stCall : HeldCall) (iSessionId : ℤ)
  /-- In `Submit`, before `Ensure`. -/
  | ensure
  /-- In `Ensure`, before `CallOnLoop`. -/
  | callOnLoop
  /-- Before `WakeRpcCall`. -/
  | wake (iCallId : ℕ) (iCode : ℤ)
  /-- Before `FinishRpcSlot` of a slot that has been taken out. -/
  | finishSlot (iCallId : ℕ) (bAwaitingConnect : Bool)
  /-- In the loop of `Finish`. -/
  | flush (iSessionId : ℤ) (vReady : List HeldCall)
  /-- In the loop of `Finish`, before `SendBytesResult` of a claimed call. -/
  | flushSend (iSessionId : ℤ) (stCall : HeldCall) (vReady : List HeldCall)
  deriving DecidableEq

/-- The connection, the sessions, and what it uses of the call table. -/
structure State where
  link : Link
  /-- `vHeld`, `mHeld` and `iHeldBytes`. -/
  hold : HoldList
  calls : CallTable
  /-- The calls bound so far. -/
  bound : ℕ
  /-- The calls given to `Submit`. -/
  submitted : List ℕ
  sessions : ℤ → SessionState
  /-- `iCurrentSessionId` of the route manager, which all routes share. -/
  iCurrentSessionId : ℕ
  tasks : List Task
  /-- The calls for which `ClaimRpcSend` found a slot, with their sessions. -/
  claimed : List (ℕ × ℤ)
  /-- The calls whose bytes a session has accepted, oldest first. -/
  handed : List (ℕ × ℤ)
  /-- The calls that `WakeRpcCall` took out, with its code. -/
  woken : List (ℕ × ℤ)

def init : State where
  link := .init
  hold := .empty
  calls := fun _ => none
  bound := 0
  submitted := []
  sessions := fun _ => .absent
  iCurrentSessionId := 0
  tasks := []
  claimed := []
  handed := []
  woken := []

namespace State

def spawn (s : State) (stTask : Task) : State := { s with tasks := stTask :: s.tasks }

def setSession (s : State) (iSessionId : ℤ) (stSession : SessionState) : State :=
  { s with sessions := Function.update s.sessions iSessionId stSession }

/-- `SendBytesResult`: its code, and the session after it. -/
def sendBytesResult (s : State) (iSessionId : ℤ) (size : ℕ) : ℤ × SessionState :=
  if (s.sessions iSessionId).inMap then (s.sessions iSessionId).sendResult size
  else (oiErrConnect, s.sessions iSessionId)

/-- `TakeRpcSlot` and what removes a slot like it; `FinishRpcSlot` follows. -/
def takeSlot (s : State) (iCallId : ℕ) : State :=
  match s.calls iCallId with
  | none => s
  | some stSlot =>
      { s with calls := s.calls.erase iCallId }.spawn (.finishSlot iCallId stSlot.bAwaitingConnect)

/-- `WakeRpcCall` -/
def wakeRpcCall (s : State) (iCallId : ℕ) (iCode : ℤ) : State :=
  if s.calls iCallId = none then s
  else { s.takeSlot iCallId with woken := (iCallId, iCode) :: s.woken }

/-- `ClaimRpcSend`; `none` is its `false`. -/
def claimRpcSend (s : State) (iCallId : ℕ) (iSessionId : ℤ) : Option State :=
  (s.calls.claim iCallId iSessionId).map fun calls =>
    { s with calls := calls, claimed := (iCallId, iSessionId) :: s.claimed }

/-- The send of a claimed call; its code is the first component. -/
def sendCall (s : State) (stCall : HeldCall) (iSessionId : ℤ) : ℤ × State :=
  let r := s.sendBytesResult iSessionId stCall.size
  if r.1 = oiOk then
    (r.1, { s.setSession iSessionId r.2 with handed := s.handed ++ [(stCall.callId, iSessionId)] })
  else (r.1, s)

/-- `Submit` up to the end of its lock. -/
def submit (cfg : Config) (s : State) (stCall : HeldCall) : State :=
  let s := { s with submitted := stCall.callId :: s.submitted }
  if s.link.bRetired then s.spawn (.wake stCall.callId oiErrConnect)
  else if s.link.iSessionId ≠ invalidSid then
    match s.claimRpcSend stCall.callId s.link.iSessionId with
    | none => s
    | some s' => s'.spawn (.submit stCall s.link.iSessionId)
  else if s.hold.full cfg.iHeldCount cfg.iHeldBytes stCall.size then
    s.spawn (.wake stCall.callId oiErrBusy)
  else
    match s.calls.mark stCall.callId with
    -- it has timed out already
    | none => s
    | some calls => { s with calls := calls, hold := s.hold.push stCall }.spawn .ensure

/-- `Ensure` up to the end of its lock. -/
def ensure (s : State) : State :=
  if s.link.bRetired || s.link.bConnecting || s.link.bPosted ||
      decide (s.link.iSessionId ≠ invalidSid) then s
  else { s with link := { s.link with bPosted := true } }.spawn .callOnLoop

/-- `Finish` up to the end of its lock. -/
def finish (s : State) (iSessionId : ℤ) : State :=
  { s with link := s.link.finish iSessionId, hold := s.hold.swapped }.spawn
    (.flush iSessionId s.hold.held)

/-- What a step of the poll thread does to the sessions. -/
def withSessions (cfg : Config) (s : State) : PollStep → State
  | .adopt bOk =>
      let iSessionId : ℤ := (s.iCurrentSessionId + 1 : ℕ)
      -- a channel that is not registered is closed again
      { s.setSession iSessionId ⟨bOk, !bOk, 0, cfg.iSendBytes, none⟩ with
        iCurrentSessionId := s.iCurrentSessionId + 1 }
  | .closeSession =>
      match s.link.poll with
      | some (.closeSession iSessionId) =>
          s.setSession iSessionId { s.sessions iSessionId with inMap := false }
      | _ => s
  | .activeClose =>
      match s.link.poll with
      | some (.activeClose iSessionId) =>
          s.setSession iSessionId (s.sessions iSessionId).close
      | _ => s
  | _ => s

end State

/-- The next step of a task, which has been taken off the list. `none` where it uses a dangling
iterator. -/
def runTask (s : State) : Task → Option State
  | .submit stCall iSessionId =>
      match s.sendCall stCall iSessionId with
      | (iResult, s') =>
          if iResult = oiOk then some s' else some (s'.spawn (.wake stCall.callId iResult))
  | .ensure => some s.ensure
  | .callOnLoop => some { s with link := { s.link with begins := s.link.begins + 1 } }
  | .wake iCallId iCode => some (s.wakeRpcCall iCallId iCode)
  | .finishSlot _ false => some s
  | .finishSlot iCallId true => (s.hold.drop iCallId).map fun hold => { s with hold := hold }
  | .flush _ [] => some s
  | .flush iSessionId (stCall :: vReady) =>
      if iSessionId = invalidSid then
        some ((s.spawn (.flush iSessionId vReady)).wakeRpcCall stCall.callId oiErrConnect)
      else
        match s.claimRpcSend stCall.callId iSessionId with
        | none => some (s.spawn (.flush iSessionId vReady))
        | some s' => some (s'.spawn (.flushSend iSessionId stCall vReady))
  | .flushSend iSessionId stCall vReady =>
      match s.sendCall stCall iSessionId with
      | (iResult, s') =>
          if iResult = oiOk then some (s'.spawn (.flush iSessionId vReady))
          else some ((s'.spawn (.wake stCall.callId iResult)).spawn (.flush iSessionId vReady))

/-- What can happen. -/
inductive Event where
  /-- `BindRpcCall` -/
  | bindRpcCall
  | submit (stCall : HeldCall)
  /-- A slot is taken out: by the sweep, a reply, an abandon or the end of its session. -/
  | takeSlot (iCallId : ℕ)
  /-- `ActiveClose` or `OnClose` of a session of the route. -/
  | disconnected (iSessionId : ℤ)
  /-- Another route gets a session. -/
  | addSession
  | closeSession (iSessionId : ℤ)
  | onBytesSent (iSessionId : ℤ) (iBytes : ℕ)
  | poll (stStep : PollStep)
  /-- The poll thread runs the `Finish` that comes next. -/
  | finish
  | run (stTask : Task)
  deriving DecidableEq

/-- One step; `none` where the event cannot happen. A call is submitted once, after it has been
bound. -/
def step (cfg : Config) (s : State) : Event → Option State
  | .bindRpcCall =>
      some { s with
        bound := s.bound + 1
        calls := Function.update s.calls s.bound (some ⟨false, invalidSid⟩) }
  | .submit stCall =>
      if stCall.callId < s.bound ∧ stCall.callId ∉ s.submitted then some (s.submit cfg stCall)
      else none
  | .takeSlot iCallId => some (s.takeSlot iCallId)
  | .disconnected iSessionId => some { s with link := s.link.disconnected iSessionId }
  | .addSession =>
      some { s.setSession (s.iCurrentSessionId + 1 : ℕ) ⟨true, false, 0, cfg.iSendBytes, none⟩ with
        iCurrentSessionId := s.iCurrentSessionId + 1 }
  | .closeSession iSessionId =>
      some (s.setSession iSessionId { s.sessions iSessionId with inMap := false, closed := true })
  | .onBytesSent iSessionId iBytes =>
      some (s.setSession iSessionId
        { s.sessions iSessionId with queuedBytes := (s.sessions iSessionId).queuedBytes - iBytes })
  | .poll stStep =>
      (s.link.pollStep cfg (fun i => (s.sessions i).inMap) (s.iCurrentSessionId + 1 : ℕ) stStep).map
        fun link => { s.withSessions cfg stStep with link := link }
  | .finish => s.link.finishing.map s.finish
  | .run stTask =>
      if stTask ∈ s.tasks then runTask { s with tasks := s.tasks.erase stTask } stTask else none

end OpenIdea.Rpc.RouteConnection

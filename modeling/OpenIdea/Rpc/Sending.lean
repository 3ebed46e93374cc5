import OpenIdea.Rpc.CallSystem

/-!
# Sending a call and closing its session

The threads around the call table: `Dispatch` of `proto/inc/oi_rpc_coro.h`, `SubmitCall` and
`FlushHeldCalls` of `proto/src/oi_rpc_session_manager.cpp`, `Submit` and `Finish` of
`proto/src/oi_rpc_route.cpp`, and `SendBytesResult` and `CloseSession` of
`net/src/oi_session_manager.cpp`. A thread is a task (where it stands in the operation it runs) and
the slots it has taken out of the table and not completed yet. One step is one critical section,
one `FinishRpcSlot`, or one step between locks; threads interleave in any order. An operation that
a completion starts from inside `FinishRpcSlot` is a thread of its own.

Not here: what `Ensure` does to connect, raw data that waits for a connection, and what the poll
thread does with the bytes sent.
-/

set_option autoImplicit false

namespace OpenIdea.Rpc

open OpenIdea.Lib OpenIdea.Lib.LinkedIndex OpenIdea.Lib.Runs

/-! ## Sessions -/

def oiOk : Int := 0

/-- `INVALID_SID` -/
def invalidSid : Int := -1

/-- A session and its entry in `mSessionMap`. -/
structure SessionState where
  /-- the manager's map has the session -/
  inMap : Bool
  /-- `IsClosed` -/
  closed : Bool
  queuedBytes : Nat
  maxSendQueueBytes : Nat
  /-- the route connection of a `RouteSession` -/
  connection : Option Nat

def SessionState.absent : SessionState := ⟨false, false, 0, 0, none⟩

/-- `Session::SendResult`. -/
def SessionState.sendResult (s : SessionState) (size : Nat) : Int × SessionState :=
  if s.closed then (oiErrConnect, s)
  else if s.queuedBytes > s.maxSendQueueBytes ∨ size > s.maxSendQueueBytes - s.queuedBytes then
    (oiErrBusy, s)
  else (oiOk, { s with queuedBytes := s.queuedBytes + size })

/-- `NetSession::Close` -/
def SessionState.close (s : SessionState) : SessionState := { s with closed := true }

/-! ## Senders -/

/-- A call that waits for a connection. -/
structure HeldCall where
  callId : Nat
  size : Nat

/-- The calls a sender holds, and how many it may hold. -/
structure HeldCalls where
  calls : List HeldCall
  bytes : Nat
  maxCount : Nat
  maxBytes : Nat

namespace HeldCalls

/-- There is no room for `size` more bytes. -/
def full (h : HeldCalls) (size : Nat) : Bool :=
  h.calls.length ≥ h.maxCount || h.bytes > h.maxBytes || size > h.maxBytes - h.bytes

def push (h : HeldCalls) (iCallId size : Nat) : HeldCalls :=
  { h with calls := h.calls ++ [⟨iCallId, size⟩], bytes := h.bytes + size }

/-- `DropPendingCall`, `Drop` -/
def drop (h : HeldCalls) (iCallId : Nat) : HeldCalls :=
  match h.calls.find? fun c => c.callId = iCallId with
  | none => h
  | some c =>
      { h with calls := h.calls.eraseP fun c => c.callId = iCallId, bytes := h.bytes - c.size }

/-- What is left after the list has been swapped out. -/
def swapped (h : HeldCalls) : HeldCalls := { h with calls := [], bytes := 0 }

end HeldCalls

/-- What `m_stClientLocker` protects in `ProtoClientManager`. -/
structure ClientState where
  sessionId : Int
  connected : Bool
  everConnected : Bool
  held : HeldCalls

/-- What the mutex of `RouteConnection` protects. -/
structure RouteState where
  sessionId : Int
  retired : Bool
  held : HeldCalls

/-- `RpcSender`: a client manager or a route connection behind one interface. -/
inductive RpcSender where
  | client (c : ClientState)
  | route (r : RouteState)

namespace RpcSender

def held : RpcSender → HeldCalls
  | .client c => c.held
  | .route r => r.held

def setHeld (h : HeldCalls) : RpcSender → RpcSender
  | .client c => .client { c with held := h }
  | .route r => .route { r with held := h }

/-- The state change of `OnAddSession`. `Finish` makes its own when it swaps the list out. -/
def onAddSession (iSessionId : Int) : RpcSender → RpcSender
  | .client c =>
      .client { c with connected := true, sessionId := iSessionId, everConnected := true }
  | .route r => .route r

/-- The swap at the start of `FlushHeldCalls`, `FailHeldCalls` and `Finish`. -/
def swapHeld (iSessionId : Int) : RpcSender → RpcSender
  | .client c => .client { c with held := c.held.swapped }
  | .route r => .route { r with sessionId := iSessionId, held := r.held.swapped }

/-- `OnDelSession`, `Disconnected` -/
def disconnected (iSessionId : Int) : RpcSender → RpcSender
  | .client c =>
      .client (if c.sessionId = iSessionId then
        { c with sessionId := invalidSid, connected := false } else c)
  | .route r => .route (if r.sessionId = iSessionId then { r with sessionId := invalidSid } else r)

def retire : RpcSender → RpcSender
  | .client c => .client c
  | .route r => .route { r with retired := true }

/-- What `SubmitCall` and `Submit` do with a call of `size` bytes. -/
inductive Decision where
  | claim (iSessionId : Int)
  | hold
  | refuse (iCode : Int)

/-- The branch of `SubmitCall` or `Submit` that is taken, under the sender's lock. -/
def decide (size : Nat) : RpcSender → Decision
  | .client c =>
      if c.connected ∧ c.sessionId ≠ invalidSid then .claim c.sessionId
      else if c.everConnected then .refuse oiErrConnect
      else if c.held.full size then .refuse oiErrBusy
      else .hold
  | .route r =>
      if r.retired then .refuse oiErrConnect
      else if r.sessionId ≠ invalidSid then .claim r.sessionId
      else if r.held.full size then .refuse oiErrBusy
      else .hold

end RpcSender

/-! ## Threads -/

/-- Where a call goes: to a given session, or to whatever session a sender has. -/
inductive Target (M : Type) where
  | session (pManager : M) (iSessionId : Int)
  | sender (p : Nat)

/-- What follows the send of one call. -/
inductive After where
  /-- the end of the `try` block of `Dispatch` -/
  | dispatch (iCallId : Nat)
  /-- the end of its handler -/
  | caught
  /-- the rest of the loop of `FlushHeldCalls` or `Finish` -/
  | flush (p : Nat) (iSessionId : Int) (rest : List HeldCall)

inductive Task (M : Type) where
  | idle
  /-- `BindRpcCall` has drawn a number -/
  | drawn (iCallId : Nat) (target : Target M) (args : BindArgs M) (size : Nat)
  /-- the call is bound, the request is not serialised yet -/
  | encode (iCallId : Nat) (target : Target M) (size : Nat)
  | submit (p iCallId size : Nat)
  /-- `Submit` holds the call and calls `Ensure` -/
  | ensure (iCallId : Nat)
  /-- before the swap of `FlushHeldCalls`, `FailHeldCalls` or `Finish` -/
  | flushStart (p : Nat) (iSessionId : Int)
  | flush (p : Nat) (iSessionId : Int) (rest : List HeldCall)
  /-- `SendBytesResult` before it looks the session up -/
  | lookup (iCallId : Nat) (key : M × Int) (size : Nat) (next : After)
  /-- `SendBytesResult` holds the session -/
  | send (iCallId : Nat) (key : M × Int) (size : Nat) (next : After)
  /-- before `WakeRpcCall` -/
  | wake (iCallId : Nat) (iCode : Int) (next : After)
  /-- after `WakeRpcCall` -/
  | woken (next : After)
  /-- `CloseSession` has erased the session from the map -/
  | activeClose (key : M × Int)
  /-- `FailRpcCalls` has passed the shards before `shard` -/
  | fail (key : M × Int) (shard : Nat)

structure Thread (M : Type) where
  task : Task M
  /-- slots taken out whose `FinishRpcSlot` has not run -/
  held : List (Completion M)

structure NetState (M : Type) where
  calls : CallSystem M
  sessions : M × Int → SessionState
  /-- `iCurrentSessionId` of each manager -/
  currentSessionId : M → Nat
  senders : Nat → RpcSender
  threads : Nat → Thread M
  /-- how many shards `FailRpcCalls` has passed for a session; all of them once its
  `CloseSession` has returned -/
  passed : M × Int → Nat
  /-- the runs of `FinishRpcSlot` so far -/
  finished : List (Completion M)
  /-- calls taken out by `AbandonRpcCall` -/
  abandoned : List Nat
  /-- calls destroyed without completion when another one threw in `SweepRpcCalls` -/
  lost : List Nat

def NetState.init (M : Type) (senders : Nat → RpcSender) : NetState M where
  calls := CallSystem.init M
  sessions _ := .absent
  currentSessionId _ := 0
  senders p := (senders p).setHeld { (senders p).held with calls := [], bytes := 0 }
  threads _ := ⟨.idle, []⟩
  passed _ := 0
  finished := []
  abandoned := []
  lost := []

/-- What the environment decides in a step: allocations that fail, whether the code called there
throws, and the time. -/
structure Choice where
  fails : AllocPoint → Bool
  threw : Bool
  iNow : Int

/-- An operation an idle thread starts. -/
inductive Operation (M : Type) where
  | dispatch (target : Target M) (args : BindArgs M) (size : Nat)
  /-- `OnAddSession` of a client or `Finish` of a route -/
  | connected (p : Nat) (iSessionId : Int)
  /-- `FailHeldCalls`, or the `Finish(INVALID_SID)` of a failed or retired route -/
  | failHeld (p : Nat)
  | closeSession (key : M × Int)
  | deliver (iId : Nat) (bytes : List UInt8) (pManager : M) (iSessionId : Int)
  | sweep (shard : Nat) (iNow : Int) (fails : Nat → Bool)
  | abandon (iCallId : Nat)

inductive NetEvent (M : Type) where
  | start (t : Nat) (op : Operation M)
  | run (t : Nat) (ch : Choice)
  | addSession (pManager : M) (maxSendQueueBytes : Nat) (connection : Option Nat)
  | delSession (p : Nat) (iSessionId : Int)
  | retire (p : Nat)
  /-- the poll thread finds the connection broken: `Close` of `PassiveClose` -/
  | passiveClose (key : M × Int)
  | sent (key : M × Int) (iBytes : Nat)

/-! ## Steps -/

/-- `Submit` goes on with `Ensure`, `SubmitCall` returns. -/
def RpcSender.afterHold {M : Type} (iCallId : Nat) : RpcSender → Task M
  | .client _ => .idle
  | .route _ => .ensure iCallId

def After.resume {M : Type} : After → Task M
  | .dispatch _ => .idle
  | .caught => .idle
  | .flush p iSessionId rest => .flush p iSessionId rest

/-- Where an exception goes: `Dispatch` wakes the call from its handler, the loops do not catch. -/
def After.handler {M : Type} : After → Task M
  | .dispatch iCallId => .wake iCallId oiErrFail .caught
  | .caught => .idle
  | .flush _ _ _ => .idle

/-- The completion loop of `FailRpcCalls` catches every exception. -/
def Task.catches {M : Type} : Task M → Bool
  | .fail _ _ => true
  | _ => false

def Task.handler {M : Type} : Task M → Task M
  | .woken next => next.handler
  | _ => .idle

section Steps

variable {M : Type} [DecidableEq M] (managerOf : Nat → M)

namespace NetState

variable (N : NetState M)

def setThread (t : Nat) (task : Task M) (held : List (Completion M)) : NetState M :=
  { N with threads := Function.update N.threads t ⟨task, held⟩ }

def setSender (p : Nat) (s : RpcSender) : NetState M :=
  { N with senders := Function.update N.senders p s }

def setSession (key : M × Int) (s : SessionState) : NetState M :=
  { N with sessions := Function.update N.sessions key s }

/-- Go on with `task` after an event of the table: what the event takes out is the thread's. -/
def onTable (t : Nat) (task : Task M) (e : CallEvent M) : Option (NetState M) :=
  (callStep N.calls e).map fun S =>
    { N with calls := { S with inFlight := [] } }.setThread t task S.inFlight

/-- `DropPendingCall` of a slot that waits for a connection. -/
def dropPending (s : RpcCoroSlot M) : NetState M :=
  match s.awaitingConnect, s.sender with
  | true, some p => N.setSender p ((N.senders p).setHeld ((N.senders p).held.drop s.callId))
  | _, _ => N

/-- `RouteSession::ActiveClose` tells its connection that the session is gone. -/
def disconnect (key : M × Int) : NetState M :=
  match (N.sessions key).connection with
  | none => N
  | some p => N.setSender p ((N.senders p).disconnected key.2)

/-- What `AbandonRpcCall` does with the slot it has taken out. -/
def forget (iCallId : Nat) : Option (RpcCoroSlot M) → NetState M
  | none => N
  | some s => { N with abandoned := iCallId :: N.abandoned }.dropPending s

/-- Claim a call for a session and go on by the answer. -/
def claimThen (t iCallId : Nat) (iSessionId : Int) (ch : Choice) (next : ClaimResult → Task M) :
    Option (NetState M) :=
  (claimRpcSend ch.fails (N.calls.shards (shardOf iCallId)) iCallId iSessionId).bind fun r =>
    N.onTable t (next r.2) (.claim iCallId iSessionId ch.fails)

/-- Hold a call: mark it, then append it to the list of its sender. A route connects next. -/
def hold (t p iCallId size : Nat) (ch : Choice) : Option (NetState M) :=
  if (markRpcAwaitingConnect (N.calls.shards (shardOf iCallId)) iCallId).2 then
    if ch.threw then N.onTable t (.wake iCallId oiErrFail .caught) (.mark iCallId)
    else
      (N.setSender p ((N.senders p).setHeld ((N.senders p).held.push iCallId size))).onTable t
        ((N.senders p).afterHold iCallId) (.mark iCallId)
  else N.onTable t .idle (.mark iCallId)

/-- One completion of the thread `t`, which then goes on with the rest of what it holds. An
exception is caught by `FailRpcCalls`; elsewhere it leaves the operation, and slots still held are
destroyed. -/
def complete (t : Nat) (task : Task M) (c : Completion M) (rest : List (Completion M))
    (ch : Choice) : NetState M :=
  let N := { N with
    calls := { N.calls with guards := releaseGuard N.calls.guards c.slot }
    finished := N.finished ++ [c] }.dropPending c.slot
  if ch.threw && !task.catches then
    let destroyed := rest.map fun c : Completion M => c.slot.callId
    { N with lost := destroyed ++ N.lost }.setThread t task.handler []
  else N.setThread t task rest

/-- The next step of the task of thread `t`, which holds no slots. -/
def runTask (t : Nat) (ch : Choice) : Task M → Option (NetState M)
  | .idle => some N
  | .drawn iCallId target args size =>
      if iCallId ∈ N.calls.pending then
        (bindRpcCall ch.fails ch.iNow (N.calls.shards (shardOf iCallId)) iCallId args).bind fun r =>
          N.onTable t (if r.2 then .encode iCallId target size else .idle)
            (.bind iCallId args ch.fails ch.iNow)
      else some N
  | .encode iCallId target size =>
      if ch.threw then some (N.setThread t (.wake iCallId oiErrFail .caught) [])
      else
        match target with
        | .session pManager iSessionId =>
            some (N.setThread t
              (.lookup iCallId (pManager, iSessionId) size (.dispatch iCallId)) [])
        | .sender p => some (N.setThread t (.submit p iCallId size) [])
  | .submit p iCallId size =>
      match (N.senders p).decide size with
      | .claim iSessionId =>
          N.claimThen t iCallId iSessionId ch fun
            | .notFound => .idle
            | .threw => .wake iCallId oiErrFail .caught
            | .claimed => .lookup iCallId (managerOf p, iSessionId) size (.dispatch iCallId)
      | .hold => N.hold t p iCallId size ch
      | .refuse iCode => some (N.setThread t (.wake iCallId iCode (.dispatch iCallId)) [])
  | .ensure iCallId =>
      some (N.setThread t (if ch.threw then .wake iCallId oiErrFail .caught else .idle) [])
  | .flushStart p iSessionId =>
      some ((N.setSender p ((N.senders p).swapHeld iSessionId)).setThread t
        (.flush p iSessionId (N.senders p).held.calls) [])
  | .flush _ _ [] => some (N.setThread t .idle [])
  | .flush p iSessionId (c :: rest) =>
      if iSessionId = invalidSid then
        some (N.setThread t (.wake c.callId oiErrConnect (.flush p iSessionId rest)) [])
      else
        N.claimThen t c.callId iSessionId ch fun
          | .notFound => .flush p iSessionId rest
          | .threw => .idle
          | .claimed =>
              .lookup c.callId (managerOf p, iSessionId) c.size (.flush p iSessionId rest)
  | .lookup iCallId key size next =>
      some (N.setThread t (if (N.sessions key).inMap then .send iCallId key size next
        else .wake iCallId oiErrConnect next) [])
  | .send iCallId key size next =>
      let r := (N.sessions key).sendResult size
      if r.1 = oiOk then
        -- the bytes are appended before the queue counts them
        if ch.threw then some (N.setThread t next.handler [])
        else some ((N.setSession key r.2).setThread t next.resume [])
      else some (N.setThread t (.wake iCallId r.1 next) [])
  | .wake iCallId iCode next => N.onTable t (.woken next) (.wake iCallId iCode)
  | .woken next => some (N.setThread t next.resume [])
  | .activeClose key =>
      some (((N.setSession key (N.sessions key).close).disconnect key).setThread t (.fail key 0) [])
  | .fail key shard =>
      if shard < callShards then
        match (N.calls.shards shard).sessions key with
        | none =>
            some ({ N with
              passed := Function.update N.passed key (max (N.passed key) (shard + 1)) }.setThread t
                (.fail key (shard + 1)) [])
        | some _ => N.onTable t (.fail key shard) (.fail shard key.1 key.2)
      else some (N.setThread t .idle [])

/-- The arguments of `BindRpcCall` in `Dispatch`: a call through a sender starts without a
session. -/
def dispatchArgs : Target M → BindArgs M → BindArgs M
  | .session pManager iSessionId, args =>
      { args with manager := pManager, sessionId := iSessionId, sender := none }
  | .sender p, args =>
      { args with manager := managerOf p, sessionId := invalidSid, sender := some p }

/-- An idle thread starts an operation. -/
def startOp (t : Nat) : Operation M → Option (NetState M)
  | .dispatch target args size =>
      N.onTable t (.drawn (callIdOf N.calls.issued) target (dispatchArgs managerOf target args)
        size) .draw
  | .connected p iSessionId =>
      some ((N.setSender p ((N.senders p).onAddSession iSessionId)).setThread t
        (.flushStart p iSessionId) [])
  | .failHeld p => some (N.setThread t (.flushStart p invalidSid) [])
  | .closeSession key =>
      if (N.sessions key).inMap then
        some ((N.setSession key { N.sessions key with inMap := false }).setThread t
          (.activeClose key) [])
      else some N
  | .deliver iId bytes pManager iSessionId =>
      N.onTable t .idle (.deliver iId bytes pManager iSessionId)
  | .sweep shard iNow fails => N.onTable t .idle (.sweep shard iNow fails)
  | .abandon iCallId =>
      (N.onTable t .idle (.abandon iCallId)).map fun N' : NetState M =>
        N'.forget iCallId ((N.calls.shards (shardOf iCallId)).slots iCallId)

end NetState

/-- One step of the system. `none` is undefined behaviour. -/
def netStep (N : NetState M) : NetEvent M → Option (NetState M)
  | .start t op =>
      match (N.threads t).task, (N.threads t).held with
      | .idle, [] => N.startOp managerOf t op
      | _, _ => some N
  | .run t ch =>
      match (N.threads t).held with
      | c :: rest => some (N.complete t (N.threads t).task c rest ch)
      | [] => N.runTask managerOf t ch (N.threads t).task
  | .addSession pManager maxSendQueueBytes connection =>
      let iSessionId := N.currentSessionId pManager + 1
      if iSessionId ≥ 2 ^ 31 then none
      else some { N.setSession (pManager, (iSessionId : Int))
          ⟨true, false, 0, maxSendQueueBytes, connection⟩ with
        currentSessionId := Function.update N.currentSessionId pManager iSessionId }
  | .delSession p iSessionId => some (N.setSender p ((N.senders p).disconnected iSessionId))
  | .retire p => some (N.setSender p (N.senders p).retire)
  | .passiveClose key => some (N.setSession key (N.sessions key).close)
  | .sent key iBytes =>
      some (N.setSession key
        { N.sessions key with queuedBytes := (N.sessions key).queuedBytes - iBytes })

end Steps

end OpenIdea.Rpc

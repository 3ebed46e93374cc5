import OpenIdea.Lib.Runs
import OpenIdea.Rpc.HoldList

/-!
# Sending before and after a client connects (oi_rpc_session_manager.cpp)

A `ProtoClientManager` has one connection. Before the first connect it holds calls in `m_vHeldCalls`
(`SubmitCall`, `TryPendCall`) and whenever it has no connection it keeps raw data in `m_vPending`
(`SendRawOrPend`). `OnAddSession` sends the raw data under the client lock and the held calls, in
`FlushHeldCalls`, after it; `FailHeldCalls` gives both up. Other threads take slots out of the call
table at any time (the sweep, replies, abandons, a closed session), and `FinishRpcSlot` then drops
the call from the hold.

Every thread that is inside one of these operations is a `Task`: what it does next. A step takes one
task one critical section further, or begins an operation, so that all threads interleave. `locked`
says that some task holds the client lock. The shard lock of the call table is held inside one step
only.
-/

set_option autoImplicit false

namespace OpenIdea.Rpc.ClientManager

open OpenIdea.Lib OpenIdea.Lib.Runs

/-- `iMaxSendQueueBytes`, which `Init` reads. -/
structure Config where
  iMaxSendQueueBytes : ℕ

/-- Data given to `SendRaw` or `SendRawOrPend`. The messages are numbered in the order in which
their callers take the client lock. -/
structure Message where
  number : ℕ
  size : ℕ
  deriving DecidableEq, Repr

/-- Where a thread is. -/
inductive Task where
  /-- In `HoldCallLocked`, before `MarkRpcAwaitingConnect`; it has the client lock. -/
  | mark (stCall : HeldCall)
  /-- In `HoldCallLocked`, before `push_back`; it has the client lock. -/
  | queue (stCall : HeldCall)
  /-- In `SubmitCall`, before `ClaimRpcSend`; it has the client lock. -/
  | claim (stCall : HeldCall) (iSessionId : ℤ)
  /-- In `SubmitCall`, before `SendBytesResult`. -/
  | submit (stCall : HeldCall) (iSessionId : ℤ)
  /-- Before `WakeRpcCall`. -/
  | wake (iCallId : ℕ)
  /-- Before `FinishRpcSlot` of a slot that has been taken out. -/
  | finish (iCallId : ℕ) (bAwaitingConnect : Bool)
  /-- In `SendRaw` or `SendRawOrPend`, before `SendBytes`. -/
  | sendRaw (stMessage : Message) (iSessionId : ℤ)
  /-- In `AddSession`, before `OnAddSession`. -/
  | addSession (iSessionId : ℤ)
  /-- In the loop of `OnAddSession`; it has the client lock. -/
  | flushPending (iSessionId : ℤ)
  /-- In `FlushHeldCalls`, before the swap. -/
  | flushHeld (iSessionId : ℤ)
  /-- In the loop of `FlushHeldCalls`. -/
  | flush (iSessionId : ℤ) (vHeld : List HeldCall)
  /-- In the loop of `FlushHeldCalls`, before `SendBytesResult` of a claimed call. -/
  | flushSend (iSessionId : ℤ) (stCall : HeldCall) (vHeld : List HeldCall)
  /-- In the loop of `FailHeldCalls`. -/
  | fail (vHeld : List HeldCall)
  deriving DecidableEq

/-- The manager, its sessions and what it uses of the call table. -/
structure State where
  m_iSessionId : ℤ
  m_bConnected : Bool
  m_bEverConnected : Bool
  /-- `m_vHeldCalls`, `m_mHeldIndex` and `m_iHeldBytes`. -/
  hold : HoldList
  m_iHeldMaxCount : ℕ
  m_iHeldMaxBytes : ℕ
  m_vPending : List Message
  m_iPendingBytes : ℕ
  /-- A task has `m_stClientLocker`. -/
  locked : Bool
  calls : CallTable
  /-- The calls bound so far. -/
  bound : ℕ
  /-- The calls given to `SubmitCall`, or to a `TryPendCall` that took them. -/
  submitted : List ℕ
  /-- The messages given to `SendRaw` and `SendRawOrPend` so far. -/
  messages : ℕ
  sessions : ℤ → SessionState
  iCurrentSessionId : ℕ
  tasks : List Task
  /-- The calls for which `ClaimRpcSend` found a slot, with their sessions. -/
  claimed : List (ℕ × ℤ)
  /-- The calls whose bytes a session has accepted, oldest first. -/
  handed : List (ℕ × ℤ)
  /-- The messages that a session has accepted, oldest first. -/
  handedRaw : List (ℕ × ℤ)

def init : State where
  m_iSessionId := invalidSid
  m_bConnected := false
  m_bEverConnected := false
  hold := .empty
  m_iHeldMaxCount := 65536
  m_iHeldMaxBytes := 64 * 1024 * 1024
  m_vPending := []
  m_iPendingBytes := 0
  locked := false
  calls := fun _ => none
  bound := 0
  submitted := []
  messages := 0
  sessions := fun _ => .absent
  iCurrentSessionId := 0
  tasks := []
  claimed := []
  handed := []
  handedRaw := []

namespace State

/-- `m_bConnected && m_iSessionId != INVALID_SID` -/
def canSend (s : State) : Bool := s.m_bConnected && decide (s.m_iSessionId ≠ invalidSid)

def spawn (s : State) (stTask : Task) : State := { s with tasks := stTask :: s.tasks }

def lock (s : State) : State := { s with locked := true }

def unlock (s : State) : State := { s with locked := false }

/-- `SendBytesResult`: its code, and the session after it. -/
def sendBytesResult (s : State) (iSessionId : ℤ) (size : ℕ) : ℤ × SessionState :=
  if (s.sessions iSessionId).inMap then (s.sessions iSessionId).sendResult size
  else (oiErrConnect, s.sessions iSessionId)

def setSession (s : State) (iSessionId : ℤ) (stSession : SessionState) : State :=
  { s with sessions := Function.update s.sessions iSessionId stSession }

/-- `TakeRpcSlot` and what removes a slot like it; `FinishRpcSlot` follows. -/
def takeSlot (s : State) (iCallId : ℕ) : State :=
  match s.calls iCallId with
  | none => s
  | some stSlot =>
      { s with calls := s.calls.erase iCallId }.spawn (.finish iCallId stSlot.bAwaitingConnect)

/-- `ClaimRpcSend`; `none` is its `false`. -/
def claimRpcSend (s : State) (iCallId : ℕ) (iSessionId : ℤ) : Option State :=
  (s.calls.claim iCallId iSessionId).map fun calls =>
    { s with calls := calls, claimed := (iCallId, iSessionId) :: s.claimed }

/-- The send of a claimed call. `none` is a code other than `OI_OK`. -/
def sendCall (s : State) (stCall : HeldCall) (iSessionId : ℤ) : Option State :=
  let r := s.sendBytesResult iSessionId stCall.size
  if r.1 = oiOk then
    some { s.setSession iSessionId r.2 with handed := s.handed ++ [(stCall.callId, iSessionId)] }
  else none

/-- `SendBytes` of raw data. `none` is its `false`. -/
def sendMessage (s : State) (stMessage : Message) (iSessionId : ℤ) : Option State :=
  let r := s.sendBytesResult iSessionId stMessage.size
  if r.1 = oiOk then
    some { s.setSession iSessionId r.2 with
      handedRaw := s.handedRaw ++ [(stMessage.number, iSessionId)] }
  else none

/-- `HoldCallLocked` up to its check, and what its callers do where it returns false. -/
def holdCallLocked (s : State) (stCall : HeldCall) : State :=
  if s.hold.full s.m_iHeldMaxCount s.m_iHeldMaxBytes stCall.size then
    s.spawn (.wake stCall.callId)
  else s.lock.spawn (.mark stCall)

/-- `SubmitCall` up to its first use of the call table. -/
def submitCall (s : State) (stCall : HeldCall) : State :=
  let s := { s with submitted := stCall.callId :: s.submitted }
  if s.canSend then s.lock.spawn (.claim stCall s.m_iSessionId)
  else if s.m_bEverConnected then s.spawn (.wake stCall.callId)
  else s.holdCallLocked stCall

/-- `TryPendCall`: it leaves the call alone where it returns false. -/
def tryPendCall (s : State) (stCall : HeldCall) : State :=
  if s.m_bEverConnected || s.canSend then s
  else { s with submitted := stCall.callId :: s.submitted }.holdCallLocked stCall

/-- `SendRaw` up to `SendBytes`. -/
def sendRaw (s : State) (size : ℕ) : State :=
  let stMessage : Message := ⟨s.messages, size⟩
  let s := { s with messages := s.messages + 1 }
  if s.canSend then s.spawn (.sendRaw stMessage s.m_iSessionId) else s

/-- There is no room for `size` more bytes of raw data. -/
def pendingFull (s : State) (iMaxPendingBytes size : ℕ) : Bool :=
  s.m_iPendingBytes > iMaxPendingBytes || size > iMaxPendingBytes - s.m_iPendingBytes

/-- `SendRawOrPend` up to `SendBytes`. -/
def sendRawOrPend (cfg : Config) (s : State) (size iMaxPendingBytes : ℕ) : State :=
  let stMessage : Message := ⟨s.messages, size⟩
  let s := { s with messages := s.messages + 1 }
  if s.canSend then s.spawn (.sendRaw stMessage s.m_iSessionId)
  else if s.pendingFull (min iMaxPendingBytes cfg.iMaxSendQueueBytes) size then s
  else
    { s with
      m_vPending := s.m_vPending ++ [stMessage]
      m_iPendingBytes := s.m_iPendingBytes + size }

/-- `AddSession` up to `OnAddSession`. -/
def addSession (cfg : Config) (s : State) : State :=
  let iSessionId : ℤ := (s.iCurrentSessionId + 1 : ℕ)
  { s.setSession iSessionId ⟨true, false, 0, cfg.iMaxSendQueueBytes, none⟩ with
    iCurrentSessionId := s.iCurrentSessionId + 1 }.spawn (.addSession iSessionId)

/-- `FailHeldCalls` up to its loop. -/
def failHeldCalls (s : State) : State :=
  { s with hold := s.hold.swapped, m_vPending := [], m_iPendingBytes := 0 }.spawn
    (.fail s.hold.held)

/-- `OnDelSession` -/
def onDelSession (s : State) (iSessionId : ℤ) : State :=
  if s.m_iSessionId = iSessionId then
    { s with m_iSessionId := invalidSid, m_bConnected := false }
  else s

/-- The start of `OnAddSession`. -/
def onAddSession (s : State) (iSessionId : ℤ) : State :=
  { s with m_bConnected := true, m_iSessionId := iSessionId }.lock.spawn (.flushPending iSessionId)

/-- The end of the loop of `OnAddSession`. -/
def pendingFlushed (s : State) (iSessionId : ℤ) : State :=
  { s with m_bEverConnected := true }.unlock.spawn (.flushHeld iSessionId)

/-- `FlushHeldCalls` up to its loop. -/
def flushHeldCalls (s : State) (iSessionId : ℤ) : State :=
  { s with hold := s.hold.swapped }.spawn (.flush iSessionId s.hold.held)

end State

/-- The next step of a task, which has been taken off the list. `none` where it waits for the client
lock, or uses a dangling iterator. -/
def runTask (s : State) : Task → Option State
  | .mark stCall =>
      match s.calls.mark stCall.callId with
      -- it has timed out already
      | none => some s.unlock
      | some calls => some ({ s with calls := calls }.spawn (.queue stCall))
  | .queue stCall => some { s with hold := s.hold.push stCall }.unlock
  | .claim stCall iSessionId =>
      match s.claimRpcSend stCall.callId iSessionId with
      | none => some s.unlock
      | some s' => some (s'.unlock.spawn (.submit stCall iSessionId))
  | .submit stCall iSessionId =>
      match s.sendCall stCall iSessionId with
      | none => some (s.spawn (.wake stCall.callId))
      | some s' => some s'
  | .wake iCallId => some (s.takeSlot iCallId)
  | .finish _ false => some s
  | .finish iCallId true =>
      if s.locked then none else (s.hold.drop iCallId).map fun hold => { s with hold := hold }
  | .sendRaw stMessage iSessionId =>
      match s.sendMessage stMessage iSessionId with
      | none => some s
      | some s' => some s'
  | .addSession iSessionId => if s.locked then none else some (s.onAddSession iSessionId)
  | .flushPending iSessionId =>
      match s.m_vPending with
      | [] => some (s.pendingFlushed iSessionId)
      | stMessage :: vRest =>
          match s.sendMessage stMessage iSessionId with
          | none => some (s.pendingFlushed iSessionId)
          | some s' =>
              some ({ s' with
                m_vPending := vRest
                m_iPendingBytes := subSize s.m_iPendingBytes stMessage.size }.spawn
                  (.flushPending iSessionId))
  | .flushHeld iSessionId => if s.locked then none else some (s.flushHeldCalls iSessionId)
  | .flush _ [] => some s
  | .flush iSessionId (stCall :: vHeld) =>
      match s.claimRpcSend stCall.callId iSessionId with
      | none => some (s.spawn (.flush iSessionId vHeld))
      | some s' => some (s'.spawn (.flushSend iSessionId stCall vHeld))
  | .flushSend iSessionId stCall vHeld =>
      match s.sendCall stCall iSessionId with
      | none => some ((s.spawn (.wake stCall.callId)).spawn (.flush iSessionId vHeld))
      | some s' => some (s'.spawn (.flush iSessionId vHeld))
  | .fail [] => some s
  | .fail (stCall :: vHeld) => some ((s.takeSlot stCall.callId).spawn (.fail vHeld))

/-- What can happen. -/
inductive Event where
  /-- `BindRpcCall` -/
  | bindRpcCall
  | submitCall (stCall : HeldCall)
  | tryPendCall (stCall : HeldCall)
  | sendRaw (size : ℕ)
  | sendRawOrPend (size iMaxPendingBytes : ℕ)
  | setPendingCallLimits (iCount iBytes : ℕ)
  | addSession
  | failHeldCalls
  | onDelSession (iSessionId : ℤ)
  /-- A slot is taken out: by the sweep, a reply, an abandon or the end of its session. -/
  | takeSlot (iCallId : ℕ)
  | closeSession (iSessionId : ℤ)
  | onBytesSent (iSessionId : ℤ) (iBytes : ℕ)
  | run (stTask : Task)
  deriving DecidableEq

/-- A call is submitted once, after it has been bound. -/
def State.canSubmit (s : State) (iCallId : ℕ) : Bool :=
  !s.locked && decide (iCallId < s.bound) && decide (iCallId ∉ s.submitted)

/-- One step; `none` where the event cannot happen. -/
def step (cfg : Config) (s : State) : Event → Option State
  | .bindRpcCall =>
      some { s with
        bound := s.bound + 1
        calls := Function.update s.calls s.bound (some ⟨false, invalidSid⟩) }
  | .submitCall stCall => if s.canSubmit stCall.callId then some (s.submitCall stCall) else none
  | .tryPendCall stCall => if s.canSubmit stCall.callId then some (s.tryPendCall stCall) else none
  | .sendRaw size => if s.locked then none else some (s.sendRaw size)
  | .sendRawOrPend size iMaxPendingBytes =>
      if s.locked then none else some (s.sendRawOrPend cfg size iMaxPendingBytes)
  | .setPendingCallLimits iCount iBytes =>
      if s.locked then none
      else some { s with m_iHeldMaxCount := iCount, m_iHeldMaxBytes := iBytes }
  | .addSession => some (s.addSession cfg)
  | .failHeldCalls => if s.locked then none else some s.failHeldCalls
  | .onDelSession iSessionId => if s.locked then none else some (s.onDelSession iSessionId)
  | .takeSlot iCallId => some (s.takeSlot iCallId)
  | .closeSession iSessionId =>
      some (s.setSession iSessionId (s.sessions iSessionId).close)
  | .onBytesSent iSessionId iBytes =>
      some (s.setSession iSessionId
        { s.sessions iSessionId with queuedBytes := (s.sessions iSessionId).queuedBytes - iBytes })
  | .run stTask =>
      if stTask ∈ s.tasks then runTask { s with tasks := s.tasks.erase stTask } stTask else none

end OpenIdea.Rpc.ClientManager

import Mathlib.Data.Int.Order.Basic
import OpenIdea.Lib.LinkedIndex
import OpenIdea.Lib.OrdMap

/-!
# The RPC wait table

The call shards of `proto/src/oi_rpc_call.cpp`: slots of waiting calls, the session index and the
expiry buckets, with the operations that run under a shard lock. `std::list` nodes have addresses,
and the slots store addresses and bucket keys as the source stores iterators.

A result `none` is undefined behaviour of the source: an iterator that names no node, or `end()`
dereferenced. Exceptions are results: an operation that may throw returns the shard it leaves
behind. A manager is a value of an arbitrary type `M` (the source's `SessionManager*`).
-/

set_option autoImplicit false

namespace OpenIdea.Rpc

open OpenIdea.Lib OpenIdea.Lib.LinkedIndex

/-! ## Constants -/

/-- Error codes of the completion callbacks. -/
def oiErrFail : Int := -1
def oiErrTimeout : Int := -2
def oiErrConnect : Int := -3
def oiErrBusy : Int := -5

/-- `kCallShards` -/
def callShards : Nat := 64

/-- `kSweepMs` -/
def sweepMs : Int := 200

/-- The largest `int64_t`. -/
def int64Max : Int := 2 ^ 63 - 1

/-- The capacity of `vFailed` in `FailRpcCalls`. -/
def failBatchSize : Nat := 32

/-! ## Slots and shards -/

structure RpcExpire where
  deadlineMilliseconds : Int
  callId : Nat
  deriving DecidableEq

/-- `RpcCoroSlot`. Of the callbacks and pointers only whether they are set matters here. -/
structure RpcCoroSlot (M : Type) where
  sender : Option Nat
  manager : M
  sessionId : Int
  handle : Bool
  result : Bool
  decode : Bool
  resume : Bool
  responseId : Nat
  callId : Nat
  awaitingConnect : Bool
  guardArmed : Bool
  guard : Option Nat
  hasExpiry : Bool
  indexed : Bool
  /-- `stSessionIndex`, the address of the node in the session list -/
  sessionIndex : Nat
  /-- `stExpiryBucket`, the key of the bucket -/
  expiryBucket : Int
  /-- `stExpiry`, the address of the node in the bucket -/
  expiry : Nat
  deriving DecidableEq

/-- `RpcSessionKey` of a slot. -/
def RpcCoroSlot.key {M : Type} (s : RpcCoroSlot M) : M × Int := (s.manager, s.sessionId)

structure RpcCallShard (M : Type) where
  slots : Nat → Option (RpcCoroSlot M)
  /-- `mExpire`, in key order -/
  expire : List (Int × List (Node RpcExpire))
  sessions : M × Int → Option (List (Node Nat))
  /-- the address of the next list node -/
  nextNode : Nat

/-- An empty shard. -/
def RpcCallShard.empty (M : Type) : RpcCallShard M where
  slots _ := none
  expire := []
  sessions _ := none
  nextNode := 0

/-- The counters the slots' `pGuard` point to. -/
abbrev Guards := Nat → Int

/-- The allocations of `BindRpcCall` and `ClaimRpcSend`. -/
inductive AllocPoint where
  /-- `mSlots.emplace` -/
  | slot
  /-- `mSessions.try_emplace` -/
  | sessionList
  /-- `push_back` on a session list -/
  | sessionNode
  /-- `mExpire.try_emplace` -/
  | bucket
  /-- `push_back` on a bucket -/
  | expiryNode
  deriving DecidableEq

section Operations

variable {M : Type} [DecidableEq M]

/-! ## Index maintenance -/

def RpcCallShard.setSlot (sh : RpcCallShard M) (iCallId : Nat) (s : Option (RpcCoroSlot M)) :
    RpcCallShard M :=
  { sh with slots := Function.update sh.slots iCallId s }

def RpcCallShard.setSession (sh : RpcCallShard M) (k : M × Int) (l : Option (List (Node Nat))) :
    RpcCallShard M :=
  { sh with sessions := Function.update sh.sessions k l }

/-- The list to store: an empty one is erased from its map. -/
def keepNonempty {α : Type} (l : List α) : Option (List α) := if l.isEmpty then none else some l

/-- `AddSessionIndex`: the shard, and the iterator of the new node unless an allocation threw. -/
def addSessionIndex (fails : AllocPoint → Bool) (sh : RpcCallShard M) (s : RpcCoroSlot M)
    (iSessionId : Int) : RpcCallShard M × Option Nat :=
  let k := (s.manager, iSessionId)
  let l := (sh.sessions k).getD []
  if (sh.sessions k).isNone && fails .sessionList then (sh, none)
  else if fails .sessionNode then (sh.setSession k (keepNonempty l), none)
  else ({ sh.setSession k (some (l ++ [⟨sh.nextNode, s.callId⟩])) with
    nextNode := sh.nextNode + 1 }, some sh.nextNode)

/-- `RemoveSessionIndex` -/
def removeSessionIndex (sh : RpcCallShard M) (s : RpcCoroSlot M) :
    Option (RpcCallShard M × RpcCoroSlot M) :=
  if s.indexed then
    (sh.sessions s.key).bind fun l => (eraseNode l s.sessionIndex).map fun l' =>
      (sh.setSession s.key (keepNonempty l'), { s with indexed := false })
  else some (sh, s)

/-- Store a bucket: an empty one is erased from `mExpire`. -/
def RpcCallShard.setBucket (sh : RpcCallShard M) (b : Int) (q : List (Node RpcExpire)) :
    RpcCallShard M :=
  { sh with expire := if q.isEmpty then OrdMap.erase sh.expire b else OrdMap.put sh.expire b q }

/-- `RemoveRpcExpiry` -/
def removeRpcExpiry (sh : RpcCallShard M) (s : RpcCoroSlot M) :
    Option (RpcCallShard M × RpcCoroSlot M) :=
  if s.hasExpiry then
    (OrdMap.find sh.expire s.expiryBucket).bind fun q => (eraseNode q s.expiry).map fun q' =>
      (sh.setBucket s.expiryBucket q',
        { s with hasExpiry := false, expiry := 0, expiryBucket := 0 })
  else some (sh, s)

/-- `ArmRpcGuard` -/
def armRpcGuard (g : Guards) (s : RpcCoroSlot M) : Guards × RpcCoroSlot M :=
  match s.guard with
  | none => (g, s)
  | some p =>
      if s.guardArmed then (g, s)
      else (Function.update g p (g p + 1), { s with guardArmed := true })

/-! ## Registering a call -/

/-- The arguments of `BindRpcCall`. -/
structure BindArgs (M : Type) where
  manager : M
  sessionId : Int
  responseId : Nat
  handle : Bool
  result : Bool
  timeoutMilliseconds : Int
  decode : Bool
  resume : Bool
  guard : Option Nat
  sender : Option Nat

/-- The slot `BindRpcCall` fills in before it takes the lock. -/
def BindArgs.slot (args : BindArgs M) (iCallId : Nat) : RpcCoroSlot M where
  sender := args.sender
  manager := args.manager
  sessionId := args.sessionId
  handle := args.handle
  result := args.result
  decode := args.decode
  resume := args.resume
  responseId := args.responseId
  callId := iCallId
  awaitingConnect := false
  guardArmed := false
  guard := args.guard
  hasExpiry := false
  indexed := false
  sessionIndex := 0
  expiryBucket := 0
  expiry := 0

/-- The deadline of a call, saturated at the end of the 64-bit range. -/
def bindDeadline (iNow iTimeoutMilliseconds : Int) : Int :=
  if iTimeoutMilliseconds > int64Max - iNow then int64Max else iNow + iTimeoutMilliseconds

/-- The handler of `BindRpcCall`: undo the registration before the lock is released. -/
def bindRollback (sh : RpcCallShard M) (iCallId : Nat) (s : RpcCoroSlot M) :
    Option (RpcCallShard M) :=
  (removeSessionIndex sh s).map fun p => p.1.setSlot iCallId none

/-- The second half of `BindRpcCall`: the bucket entry of a slot `s` with a timeout. -/
def bindExpiry (fails : AllocPoint → Bool) (iNow : Int) (sh : RpcCallShard M) (iCallId : Nat)
    (s : RpcCoroSlot M) (iTimeoutMilliseconds : Int) : Option (RpcCallShard M × Bool) :=
  if iTimeoutMilliseconds > 0 then
    let iDeadline := bindDeadline iNow iTimeoutMilliseconds
    let iBucket := iDeadline.tdiv sweepMs
    let q := (OrdMap.find sh.expire iBucket).getD []
    if (OrdMap.find sh.expire iBucket).isNone && fails .bucket then
      (bindRollback sh iCallId s).map fun sh => (sh, false)
    else if fails .expiryNode then
      (bindRollback (sh.setBucket iBucket q) iCallId s).map fun sh => (sh, false)
    else
      let s := { s with expiryBucket := iBucket, expiry := sh.nextNode, hasExpiry := true }
      let sh' := sh.setBucket iBucket (q ++ [⟨sh.nextNode, ⟨iDeadline, iCallId⟩⟩])
      some ({ sh'.setSlot iCallId (some s) with nextNode := sh.nextNode + 1 }, true)
  else some (sh, true)

/-- The locked part of `BindRpcCall`, with the time `NowMs` returns in it. The second component
tells whether it returned. -/
def bindRpcCall (fails : AllocPoint → Bool) (iNow : Int) (sh : RpcCallShard M) (iCallId : Nat)
    (args : BindArgs M) : Option (RpcCallShard M × Bool) :=
  if fails .slot then some (sh, false)
  else
    -- `emplace` keeps the entry of a key that is already there
    let s := (sh.slots iCallId).getD (args.slot iCallId)
    match addSessionIndex fails (sh.setSlot iCallId (some s)) s args.sessionId with
    | (sh', none) => (bindRollback sh' iCallId s).map fun sh'' => (sh'', false)
    | (sh', some a) =>
        let s' := { s with sessionIndex := a, indexed := true }
        bindExpiry fails iNow (sh'.setSlot iCallId (some s')) iCallId s' args.timeoutMilliseconds

/-- `MarkRpcAwaitingConnect` -/
def markRpcAwaitingConnect (sh : RpcCallShard M) (iCallId : Nat) : RpcCallShard M × Bool :=
  match sh.slots iCallId with
  | none => (sh, false)
  | some s => (sh.setSlot iCallId (some { s with awaitingConnect := true }), true)

/-- How `ClaimRpcSend` ends. -/
inductive ClaimResult where
  | notFound
  | threw
  | claimed
  deriving DecidableEq

/-- `ClaimRpcSend` -/
def claimRpcSend (fails : AllocPoint → Bool) (sh : RpcCallShard M) (iCallId : Nat)
    (iSessionId : Int) : Option (RpcCallShard M × ClaimResult) :=
  match sh.slots iCallId with
  | none => some (sh, .notFound)
  | some s =>
      if s.sessionId ≠ iSessionId then
        match addSessionIndex fails sh s iSessionId with
        | (sh, none) => some (sh, .threw)
        | (sh, some a) =>
            (removeSessionIndex sh s).map fun p =>
              (p.1.setSlot iCallId (some { p.2 with
                sessionIndex := a, indexed := true, sessionId := iSessionId,
                awaitingConnect := false }), .claimed)
      else some (sh.setSlot iCallId (some { s with awaitingConnect := false }), .claimed)

/-! ## Taking calls out -/

/-- What `DeliverRpc` asks of the slot: the manager, the session and the response protocol. -/
structure TakeFilter (M : Type) where
  manager : M
  sessionId : Int
  responseId : Nat
  deriving DecidableEq

/-- The reply with this source and protocol is for the slot. -/
def TakeFilter.Matches (f : TakeFilter M) (s : RpcCoroSlot M) : Prop :=
  s.manager = f.manager ∧ s.sessionId = f.sessionId ∧ s.responseId = f.responseId

instance (f : TakeFilter M) (s : RpcCoroSlot M) : Decidable (f.Matches s) :=
  inferInstanceAs (Decidable (_ ∧ _ ∧ _))

/-- `TakeRpcSlot`; no filter stands for the null manager of `WakeRpcCall`. -/
def takeRpcSlot (sh : RpcCallShard M) (g : Guards) (iCallId : Nat)
    (filter : Option (TakeFilter M)) :
    Option (RpcCallShard M × Guards × Option (RpcCoroSlot M)) :=
  match sh.slots iCallId with
  | none => some (sh, g, none)
  | some s =>
      if ∀ f ∈ filter, f.Matches s then
        (removeRpcExpiry sh s).bind fun p₁ => (removeSessionIndex p₁.1 p₁.2).map fun p₂ =>
          let armed := armRpcGuard g p₂.2
          (p₂.1.setSlot iCallId none, armed.1, some armed.2)
      else some (sh, g, none)

/-- The locked part of `AbandonRpcCall`. -/
def abandonRpcCall (sh : RpcCallShard M) (iCallId : Nat) :
    Option (RpcCallShard M × Option (RpcCoroSlot M)) :=
  match sh.slots iCallId with
  | none => some (sh, none)
  | some s =>
      (removeRpcExpiry sh s).bind fun p₁ => (removeSessionIndex p₁.1 p₁.2).map fun p₂ =>
        (p₂.1.setSlot iCallId none, some p₂.2)

/-- The inner loop of `FailRpcCalls` with room for `n` more slots, over the session's list `l`:
what is left of the list, the shard, the guards and the slots taken out. -/
def failTake : Nat → List (Node Nat) → RpcCallShard M → Guards →
    Option (List (Node Nat) × RpcCallShard M × Guards × List (RpcCoroSlot M))
  | 0, l, sh, g => some (l, sh, g, [])
  | _ + 1, [], sh, g => some ([], sh, g, [])
  | n + 1, front :: l, sh, g =>
      (sh.slots front.val).bind fun s => (removeRpcExpiry sh s).bind fun p =>
        let armed := armRpcGuard g { p.2 with indexed := false }
        (failTake n l (p.1.setSlot front.val none) armed.1).map fun r =>
          (r.1, r.2.1, r.2.2.1, armed.2 :: r.2.2.2)

/-- One locked batch of `FailRpcCalls`. No slots means that the session has no list here. -/
def failBatch (sh : RpcCallShard M) (g : Guards) (k : M × Int) :
    Option (RpcCallShard M × Guards × Option (List (RpcCoroSlot M))) :=
  match sh.sessions k with
  | none => some (sh, g, none)
  | some l =>
      (failTake failBatchSize l sh g).map fun r =>
        (r.2.1.setSession k (keepNonempty r.1), r.2.2.1, some r.2.2.2)

/-! ## Completing a call -/

/-- What `FinishRpcSlot` calls, and what it writes. -/
inductive RpcAction (M : Type) where
  /-- `pSender->DropPendingCall` -/
  | senderDrop (pSender : Nat) (iCallId : Nat)
  /-- `pManager->DropPendingCall` -/
  | managerDrop (pManager : M) (iCallId : Nat)
  | decode (iCallId : Nat) (body : List UInt8) (iSessionId : Int)
  /-- `*pResult = iCode` -/
  | writeResult (iCallId : Nat) (iCode : Int)
  | resume (iCallId : Nat)
  /-- `Schedule(stHandle)` -/
  | schedule (iCallId : Nat)
  deriving DecidableEq

/-- Everything but the plain write may throw. -/
def RpcAction.mayThrow : RpcAction M → Bool
  | .writeResult _ _ => false
  | _ => true

/-- The statements of `FinishRpcSlot`, in order. -/
def finishActions (s : RpcCoroSlot M) (iCode : Int) (body : Option (List UInt8)) :
    List (RpcAction M) :=
  (if s.awaitingConnect then
    match s.sender with
    | some pSender => [.senderDrop pSender s.callId]
    | none => [.managerDrop s.manager s.callId]
  else []) ++
  (match body with
  | some bytes => if s.decode then [.decode s.callId bytes s.sessionId] else []
  | none => if s.result then [.writeResult s.callId iCode] else []) ++
  (if s.resume then [.resume s.callId] else if s.handle then [.schedule s.callId] else [])

/-- Run statements up to the first that throws: what was run, and whether one threw. -/
def runActions (throws : RpcAction M → Bool) : List (RpcAction M) → List (RpcAction M) × Bool
  | [] => ([], false)
  | a :: rest =>
      if a.mayThrow && throws a then ([a], true)
      else (a :: (runActions throws rest).1, (runActions throws rest).2)

/-- The destructor of `GuardRelease`. -/
def releaseGuard (g : Guards) (s : RpcCoroSlot M) : Guards :=
  match s.guard with
  | none => g
  | some p => if s.guardArmed then Function.update g p (g p - 1) else g

/-- `FinishRpcSlot`: the guards after it (the destructor runs on every way out), the statements
run, and whether it threw. -/
def finishRpcSlot (throws : RpcAction M → Bool) (g : Guards) (s : RpcCoroSlot M) (iCode : Int)
    (body : Option (List UInt8)) : Guards × List (RpcAction M) × Bool :=
  (releaseGuard g s, runActions throws (finishActions s iCode body))

/-! ## Sweeping -/

/-- What the scan of `SweepRpcCalls` carries along. -/
structure SweepState (M : Type) where
  shard : RpcCallShard M
  guards : Guards
  /-- `vFired` -/
  fired : List (RpcCoroSlot M)

/-- How a loop of the scan ends: through, or with an allocation failure. -/
inductive ScanEnd where
  | done
  | threw
  deriving DecidableEq

/-- Move an expired slot to `vFired`: unlink it from its session and erase it. Its bucket entry is
erased by the loop over the bucket. -/
def fireSlot (st : SweepState M) (iCallId : Nat) (s : RpcCoroSlot M) : Option (SweepState M) :=
  (removeSessionIndex st.shard { s with hasExpiry := false, expiry := 0, expiryBucket := 0 }).map
    fun p =>
      let armed := armRpcGuard st.guards p.2
      { shard := p.1.setSlot iCallId none, guards := armed.1, fired := st.fired ++ [armed.2] }

/-- The loop over one bucket: the entries it keeps. `fails n` tells whether `vFired` cannot grow
beyond `n` slots; the entries from there on stay. -/
def sweepQueue (fails : Nat → Bool) (iNow : Int) :
    List (Node RpcExpire) → SweepState M → Option (List (Node RpcExpire) × SweepState M × ScanEnd)
  | [], st => some ([], st, .done)
  | n :: q, st =>
      match st.shard.slots n.val.callId with
      | none => sweepQueue fails iNow q st
      | some s =>
          if n.val.deadlineMilliseconds > iNow then
            (sweepQueue fails iNow q st).map fun r => (n :: r.1, r.2)
          else if fails st.fired.length then some (n :: q, st, .threw)
          else (fireSlot st n.val.callId s).bind fun st' => sweepQueue fails iNow q st'

/-- The loop over the buckets, in key order, up to the first bucket that is not due. It returns
the buckets it leaves; empty ones are erased. -/
def sweepBuckets (fails : Nat → Bool) (iNow : Int) :
    List (Int × List (Node RpcExpire)) → SweepState M →
      Option (List (Int × List (Node RpcExpire)) × SweepState M × ScanEnd)
  | [], st => some ([], st, .done)
  | (b, q) :: rest, st =>
      if b > iNow.tdiv sweepMs then some ((b, q) :: rest, st, .done)
      else
        (sweepQueue fails iNow q st).bind fun r =>
          match r with
          | (q', st', .threw) => some ((b, q') :: rest, st', .threw)
          | (q', st', .done) =>
              (sweepBuckets fails iNow rest st').map fun r' =>
                (if q'.isEmpty then r'.1 else (b, q') :: r'.1, r'.2)

/-- The part of `SweepRpcCalls` under one shard's lock. -/
def sweepShard (fails : Nat → Bool) (iNow : Int) (st : SweepState M) :
    Option (SweepState M × ScanEnd) :=
  (sweepBuckets fails iNow st.shard.expire st).map fun r =>
    ({ r.2.1 with shard := { r.2.1.shard with expire := r.1 } }, r.2.2)

end Operations

end OpenIdea.Rpc

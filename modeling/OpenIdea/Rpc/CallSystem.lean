import OpenIdea.Lib.LittleEndian
import OpenIdea.Lib.Runs
import OpenIdea.Rpc.TableLoops

/-!
# The call table as a system

The 64 shards of `proto/src/oi_rpc_call.cpp` with the sequence counter, the calls that have left
the table and wait for `FinishRpcSlot`, and the completions that have run. A step is one section
under one shard's lock, the draw of a call number, or one run of `FinishRpcSlot`; threads
interleave between steps in any order. An event that no thread can make in a state changes
nothing, so a run fails only where the source's behaviour is undefined.
-/

set_option autoImplicit false

namespace OpenIdea.Rpc

open OpenIdea.Lib OpenIdea.Lib.LinkedIndex OpenIdea.Lib.Runs

/-! ## State -/

/-- `RPC_REQ_MASK`: the highest bit marks a request. -/
def rpcReqMask : Nat := 2 ^ 63

/-- The call number of the `seq`-th draw: `g_call_seq` starts at `1`, counts in 64 bits and loses
its highest bit. -/
def callIdOf (seq : Nat) : Nat := (1 + seq) % 2 ^ 64 % rpcReqMask

/-- A reply as `DeliverRpc` receives it; `body` is what follows the call number. -/
structure Reply (M : Type) where
  manager : M
  sessionId : Int
  protocolId : Nat
  callId : Nat
  body : List UInt8

/-- A slot taken out of the table, with the arguments of its `FinishRpcSlot`. -/
structure Completion (M : Type) where
  slot : RpcCoroSlot M
  code : Int
  reply : Option (Reply M)

structure CallSystem (M : Type) where
  /-- how often `g_call_seq` has been drawn -/
  issued : Nat
  /-- numbers drawn by `BindRpcCall` that have not reached its locked part -/
  pending : List Nat
  shards : Nat → RpcCallShard M
  guards : Guards
  /-- slots whose `FinishRpcSlot` has not run yet -/
  inFlight : List (Completion M)
  /-- the runs of `FinishRpcSlot` so far -/
  finished : List (Completion M)

def CallSystem.init (M : Type) : CallSystem M where
  issued := 0
  pending := []
  shards _ := RpcCallShard.empty M
  guards _ := 0
  inFlight := []
  finished := []

/-- `ShardOf` -/
def shardOf (iCallId : Nat) : Nat := iCallId % callShards

inductive CallEvent (M : Type) where
  /-- `BindRpcCall` draws a number -/
  | draw
  /-- the locked part of `BindRpcCall` -/
  | bind (iCallId : Nat) (args : BindArgs M) (fails : AllocPoint → Bool) (iNow : Int)
  | claim (iCallId : Nat) (iSessionId : Int) (fails : AllocPoint → Bool)
  | mark (iCallId : Nat)
  /-- `WakeRpcCall` up to the completion -/
  | wake (iCallId : Nat) (iCode : Int)
  /-- `DeliverRpc` up to the completion -/
  | deliver (iId : Nat) (bytes : List UInt8) (pManager : M) (iSessionId : Int)
  /-- `SweepRpcCalls` on one shard -/
  | sweep (shard : Nat) (iNow : Int) (fails : Nat → Bool)
  /-- one batch of `FailRpcCalls` on one shard -/
  | fail (shard : Nat) (pManager : M) (iSessionId : Int)
  | abandon (iCallId : Nat)
  /-- the `n`-th waiting completion runs -/
  | finish (n : Nat)
  /-- the `n`-th waiting completion is dropped by an exception of another one -/
  | lose (n : Nat)

/-! ## Steps -/

/-- What `DeliverRpc` reads off the first eight bytes: the call number of a reply, or nothing for
a request, a one-way message (number `0`) and a short body. -/
def replyCallId (bytes : List UInt8) : Option Nat :=
  if bytes.length < 8 then none
  else
    let iRaw := LittleEndian.decode (bytes.take 8)
    if iRaw ≥ rpcReqMask ∨ iRaw = 0 then none else some (iRaw % rpcReqMask)

/-- The code a fired slot is completed with. -/
def sweepCode {M : Type} (s : RpcCoroSlot M) : Int :=
  if s.awaitingConnect then oiErrConnect else oiErrTimeout

section Steps

variable {M : Type} [DecidableEq M]

def CallSystem.setShard (S : CallSystem M) (i : Nat) (sh : RpcCallShard M) : CallSystem M :=
  { S with shards := Function.update S.shards i sh }

/-- Take a slot out for a completion. -/
def CallSystem.take (S : CallSystem M) (iCallId : Nat) (filter : Option (TakeFilter M))
    (iCode : Int) (reply : Option (Reply M)) : Option (CallSystem M) :=
  (takeRpcSlot (S.shards (shardOf iCallId)) S.guards iCallId filter).map fun r =>
    match r with
    | (sh, g, some s) =>
        { S.setShard (shardOf iCallId) sh with
          guards := g, inFlight := S.inFlight ++ [⟨s, iCode, reply⟩] }
    | (_, _, none) => S

/-- One event. `none` is undefined behaviour. -/
def callStep (S : CallSystem M) : CallEvent M → Option (CallSystem M)
  | .draw =>
      some { S with issued := S.issued + 1, pending := callIdOf S.issued :: S.pending }
  | .bind iCallId args fails iNow =>
      if iCallId ∈ S.pending then
        (bindRpcCall fails iNow (S.shards (shardOf iCallId)) iCallId args).map fun r =>
          { S.setShard (shardOf iCallId) r.1 with pending := S.pending.erase iCallId }
      else some S
  | .claim iCallId iSessionId fails =>
      (claimRpcSend fails (S.shards (shardOf iCallId)) iCallId iSessionId).map fun r =>
        S.setShard (shardOf iCallId) r.1
  | .mark iCallId =>
      some (S.setShard (shardOf iCallId)
        (markRpcAwaitingConnect (S.shards (shardOf iCallId)) iCallId).1)
  | .wake iCallId iCode => S.take iCallId none iCode none
  | .deliver iId bytes pManager iSessionId =>
      match replyCallId bytes with
      | none => some S
      | some iCallId =>
          S.take iCallId (some ⟨pManager, iSessionId, iId⟩) 0
            (some ⟨pManager, iSessionId, iId, iCallId, bytes.drop 8⟩)
  | .sweep i iNow fails =>
      if i < callShards then
        (sweepShard fails iNow ⟨S.shards i, S.guards, []⟩).map fun r =>
          { S.setShard i r.1.shard with
            guards := r.1.guards
            inFlight := S.inFlight ++ r.1.fired.map fun s => ⟨s, sweepCode s, none⟩ }
      else some S
  | .fail i pManager iSessionId =>
      if i < callShards then
        (failBatch (S.shards i) S.guards (pManager, iSessionId)).map fun r =>
          { S.setShard i r.1 with
            guards := r.2.1
            inFlight := S.inFlight ++ (r.2.2.getD []).map fun s => ⟨s, oiErrConnect, none⟩ }
      else some S
  | .abandon iCallId =>
      (abandonRpcCall (S.shards (shardOf iCallId)) iCallId).map fun r =>
        S.setShard (shardOf iCallId) r.1
  | .finish n =>
      match S.inFlight[n]? with
      | none => some S
      | some c =>
          some { S with
            guards := releaseGuard S.guards c.slot
            inFlight := S.inFlight.eraseIdx n
            finished := S.finished ++ [c] }
  | .lose n => some { S with inFlight := S.inFlight.eraseIdx n }

end Steps

end OpenIdea.Rpc

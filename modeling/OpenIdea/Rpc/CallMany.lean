import OpenIdea.Registry.Store
import OpenIdea.Rpc.RoutePool
import OpenIdea.Rpc.WaitTable

/-!
# A call to many zones (oi_rpc_route.cpp, oi_rpc_coro.h)

`CallMany` asks one question of the service of a name in each of a list of zones.  `CallRouted`
waits for the registry (`RouteAwaiter`), picks an instance for each zone (`FinishZones`), sends a
call to the connection of each (`SendRouted`) and collects what they give.

The coroutine runs on one thread after the other, so it is at one place at a time.  Between two of
its steps the pool of connections moves on under other threads, the clock runs, and calls that have
been sent complete, in any order.  What a step reads of the clock it reads once.
-/

set_option autoImplicit false

namespace OpenIdea.Rpc.CallMany

open OpenIdea.Lib OpenIdea.Lib.Runs
open OpenIdea.Registry (Text Instance)

/-! ## Names, zones and deadlines -/

/-- `OI_OK`. -/
def oiOk : ℤ := 0

/-- `ValidServiceToken`. -/
def validServiceToken (sText : Text) : Bool :=
  !sText.isEmpty && sText.all fun c =>
    ('a' ≤ c ∧ c ≤ 'z') || ('A' ≤ c ∧ c ≤ 'Z') || ('0' ≤ c ∧ c ≤ '9') || c = '_' || c = '-'

/-- `std::to_string` of a zone id that is not negative. -/
def zoneName (iZoneId : ℤ) : Text := Nat.toDigits 10 iZoneId.toNat

/-- The loop of `PrepareZones`; none is `BadName`. -/
def zoneNames : List ℤ → Option (List Text)
  | [] => some []
  | iZoneId :: vZoneIds =>
      if iZoneId < 0 then none else (zoneNames vZoneIds).map (zoneName iZoneId :: ·)

/-- `PrepareZones`; none is `BadName`. -/
def prepareZones (sName : Text) (vZoneIds : List ℤ) : Option (List Text) :=
  if !validServiceToken sName || vZoneIds.isEmpty then none else zoneNames vZoneIds

/-- `RpcDeadline`: a time of the steady clock, or 0 for none. -/
structure RpcDeadline where
  iDeadlineMilliseconds : ℤ
  deriving DecidableEq, Repr

namespace RpcDeadline

/-- `Expired`. -/
def expired (d : RpcDeadline) (iNow : ℤ) : Bool :=
  decide (0 < d.iDeadlineMilliseconds ∧ d.iDeadlineMilliseconds ≤ iNow)

/-- `Remaining`. -/
def remaining (d : RpcDeadline) (iNow : ℤ) : ℤ :=
  if d.iDeadlineMilliseconds = 0 then 0 else max 1 (d.iDeadlineMilliseconds - iNow)

end RpcDeadline

/-- `ServiceRouteStatus`. -/
inductive ServiceRouteStatus
  | ok
  | badName
  | wrongKind
  | offline
  | timeout
  | busy
  deriving DecidableEq, Repr

/-- `RouteError`. -/
def routeError : ServiceRouteStatus → ℤ
  | .timeout => oiErrTimeout
  | .busy => oiErrBusy
  | .badName | .wrongKind => oiErrFail
  | .ok | .offline => oiErrConnect

/-! ## Picking the instances -/

/-- The instance is one of the service in the zone. -/
def Registered (sName sZone : Text) (stInst : Instance) : Prop :=
  stInst.name = sName ∧ stInst.zone = sZone

instance (sName sZone : Text) (stInst : Instance) : Decidable (Registered sName sZone stInst) :=
  inferInstanceAs (Decidable (_ ∧ _))

/-- One round of the inner loop of `FinishZones`. -/
def betterOf (sName sZone : Text) (pBest : Option Instance) (stInst : Instance) :
    Option Instance :=
  if stInst.name ≠ sName ∨ stInst.zone ≠ sZone then pBest
  else
    match pBest with
    | none => some stInst
    | some best => if stInst.id < best.id then some stInst else some best

/-- The inner loop of `FinishZones`. -/
def bestOf (sName sZone : Text) (vList : List Instance) : Option Instance :=
  vList.foldl (betterOf sName sZone) none

/-- The first check of `FinishZones`: the service has an instance without a zone. -/
def hasGlobal (sName : Text) (vList : List Instance) : Bool :=
  vList.any fun stInst => decide (stInst.name = sName) && stInst.zone.isEmpty

/-- The connection `ClientFor` returns, if it returns one. -/
def leaseOf {K : Type} [LinearOrder K] (cfg : RoutePool.Config) (s : RoutePool.State K) (stKey : K)
    (stopRequested : Bool) : Option ℕ :=
  if s.bStopped || stopRequested then none
  else
    match OrdMap.find s.mClients stKey with
    | some stEntry => some stEntry.pClient
    | none => if s.mClients.length ≥ cfg.iMaxClients then none else some s.created

/-! ## The state -/

/-- What `co_await` of a call gives: a code with the response, or an exception. -/
inductive Outcome (Res : Type) where
  | result (iCode : ℤ) (stResponse : Res)
  | stdException
  | otherException
  deriving DecidableEq, Repr

/-- `RpcValueAwaiter`, submitted.  A call that `Submit` could not bind has nobody to complete it. -/
structure Call (Res : Type) where
  client : ℕ
  iTimeoutMilliseconds : ℤ
  bound : Bool
  outcome : Option (Outcome Res)
  deriving DecidableEq, Repr

/-- Where the coroutine is. -/
inductive Place (Res : Type) where
  /-- before `RouteAwaiter::await_suspend` -/
  | suspend
  /-- suspended until the registry has answered -/
  | pulling
  /-- before `RouteAwaiter::await_resume` -/
  | resume (bResolved : Bool)
  /-- in the loop of `FinishZones` -/
  | finishing (vZones : List Text)
  /-- at the start of `SendRouted` -/
  | sending
  /-- in the loop of `SendRouted` over the clients -/
  | building (vClients : List (Option ℕ))
  /-- in the loop of `SendRouted` that waits for the calls sent, after an exception -/
  | cleaning (i : ℕ)
  /-- in the loop of `SendRouted` over the calls -/
  | collecting (vResults : List (ℤ × Res))
  | returned (vResults : List (ℤ × Res))
  | thrown
  deriving DecidableEq, Repr

/-- The arguments of `CallMany`; the pool's key of an address has the policy of the manager in it.
-/
structure Batch (K : Type) where
  sName : Text
  vZoneIds : List ℤ
  stDeadline : RpcDeadline
  stKey : Text → Text → K

/-- The pool and the coroutine with its variables.  `made` records the key each connection was
constructed for, `checks` and `readings` the times at which the route and the calls looked at the
deadline, `refused` that the pool gave no connection. -/
structure State (K Res : Type) where
  pool : RoutePool.State K
  made : ℕ → K
  place : Place Res := .suspend
  vZoneNames : List Text := []
  iTimeoutMilliseconds : Option ℤ := none
  iCode : ℤ := oiErrConnect
  vList : List Instance := []
  iStatus : ServiceRouteStatus := .offline
  vClients : List (Option ℕ) := []
  vCalls : List (Option (Call Res)) := []
  vSkipped : List ℤ := []
  iSlot : ℕ := 0
  checks : List ℤ := []
  readings : List ℤ := []
  refused : Bool := false

variable {K Res : Type}

/-- The call starts while the pool is in its first state. -/
def start (now : ℤ) (made : ℕ → K) : State K Res := { pool := RoutePool.init K now, made := made }

/-! ## The route -/

/-- `await_suspend`. -/
def awaitSuspend (b : Batch K) (s : State K Res) : State K Res :=
  match prepareZones b.sName b.vZoneIds with
  | none => { s with iStatus := .badName, place := .resume true }
  | some vZones =>
      let iNow := s.pool.now
      let s := { s with checks := s.checks ++ [iNow] }
      if b.stDeadline.expired iNow then { s with iStatus := .timeout, place := .resume true }
      else
        let iRemaining := b.stDeadline.remaining iNow
        { s with
          vZoneNames := vZones
          iTimeoutMilliseconds := some (if 0 < iRemaining then min iRemaining 1000 else 1000)
          place := .pulling }

/-- `await_resume`, with `FinishZones` up to its loop. -/
def awaitResume (b : Batch K) (s : State K Res) (bResolved : Bool) : State K Res :=
  let iNow := s.pool.now
  let s := { s with checks := s.checks ++ [iNow] }
  if b.stDeadline.expired iNow ∨ s.iCode = oiErrTimeout then
    { s with iStatus := .timeout, place := .sending }
  else if s.iCode = oiErrBusy then { s with iStatus := .busy, place := .sending }
  else if bResolved then { s with place := .sending }
  else if s.iCode ≠ oiOk then { s with iStatus := .offline, place := .sending }
  else if hasGlobal b.sName s.vList then { s with iStatus := .wrongKind, place := .sending }
  else { s with place := .finishing s.vZoneNames }

variable [LinearOrder K]

/-- The key of the connection that a step of the pool has constructed, if it has constructed one. -/
def madeAfter (made : ℕ → K) (before after : RoutePool.State K) : RoutePool.Event K → ℕ → K
  | .clientFor stKey _ =>
      if after.created = before.created then made else Function.update made before.created stKey
  | _ => made

/-- A step of the pool. -/
def poolStep (cfg : RoutePool.Config) (s : State K Res) (e : RoutePool.Event K) :
    Option (State K Res) :=
  (RoutePool.step cfg s.pool e).map fun pool =>
    { s with pool := pool, made := madeAfter s.made s.pool pool e }

/-- One round of the loop of `FinishZones`, with `AddRouteClient`. -/
def finishZone (cfg : RoutePool.Config) (b : Batch K) (s : State K Res) (stopRequested : Bool) :
    Option (State K Res) :=
  match s.place with
  | .finishing [] => some { s with iStatus := .ok, place := .sending }
  | .finishing (sZone :: vZones) =>
      match bestOf b.sName sZone s.vList with
      | none => some { s with vClients := s.vClients ++ [none], place := .finishing vZones }
      | some best =>
          let stKey := b.stKey best.ip best.port
          (poolStep cfg s (.clientFor stKey stopRequested)).map fun s' =>
            match leaseOf cfg s.pool stKey stopRequested with
            | none => { s' with vClients := [], iStatus := .busy, refused := true, place := .sending }
            | some c => { s' with vClients := s.vClients ++ [some c], place := .finishing vZones }
  | _ => none

/-! ## The calls -/

section Calls

variable [Inhabited Res]

/-- `SendRouted` up to its first loop. -/
def sendRouted (b : Batch K) (s : State K Res) : State K Res :=
  if s.iStatus ≠ .ok then
    let iFailureCount := b.vZoneIds.length
    { s with place := .returned (List.replicate iFailureCount (routeError s.iStatus, default)) }
  else
    { s with
      vSkipped := List.replicate s.vClients.length oiErrConnect
      iSlot := 0
      place := .building s.vClients }

/-- What goes wrong while a call is built: it is not appended, or its submission throws. -/
inductive BuildFault where
  | emplace
  | submit
  deriving DecidableEq, Repr

/-- One round of the loop over the clients. -/
def buildCall (b : Batch K) (s : State K Res) (fault : Option BuildFault) : Option (State K Res) :=
  match s.place with
  | .building [] => some { s with place := .collecting [] }
  | .building (pClient :: vClients) =>
      let iCurrentSlot := s.iSlot
      let iNow := s.pool.now
      let s := { s with iSlot := s.iSlot + 1, readings := s.readings ++ [iNow] }
      if fault = some .emplace then some { s with place := .cleaning 0 }
      else
        match pClient with
        | none => some { s with vCalls := s.vCalls ++ [none], place := .building vClients }
        | some c =>
            if b.stDeadline.expired iNow then
              some
                { s with
                  vSkipped := s.vSkipped.set iCurrentSlot oiErrTimeout
                  vCalls := s.vCalls ++ [none]
                  place := .building vClients }
            else
              let bound := fault ≠ some .submit
              some
                { s with
                  vCalls := s.vCalls ++ [some ⟨c, b.stDeadline.remaining iNow, bound, none⟩]
                  place := if bound then .building vClients else .cleaning 0 }
  | _ => none

/-- A call completes: its reply, a failure or a timeout. -/
def completeCall (s : State K Res) (i : ℕ) (o : Outcome Res) : Option (State K Res) :=
  match s.vCalls[i]? with
  | some (some stCall) =>
      if stCall.bound ∧ stCall.outcome = none then
        some { s with vCalls := s.vCalls.set i (some { stCall with outcome := some o }) }
      else none
  | _ => none

/-- One round of the loop over the calls: it waits for a call that is not complete. -/
def collectCall (s : State K Res) : Option (State K Res) :=
  match s.place with
  | .collecting vResults =>
      match s.vCalls[vResults.length]? with
      | none => some { s with place := .returned vResults }
      | some none =>
          (s.vSkipped[vResults.length]?).map fun iCode =>
            { s with place := .collecting (vResults ++ [(iCode, default)]) }
      | some (some stCall) =>
          stCall.outcome.map fun o =>
            match o with
            | .result iCode stResponse =>
                { s with place := .collecting (vResults ++ [(iCode, stResponse)]) }
            | .stdException => { s with place := .collecting (vResults ++ [(oiErrFail, default)]) }
            | .otherException => { s with place := .thrown }
  | _ => none

/-- One round of the loop that waits for the calls sent before an exception. -/
def cleanCall (s : State K Res) : Option (State K Res) :=
  match s.place with
  | .cleaning i =>
      match s.vCalls[i]? with
      | none => some { s with place := .thrown }
      | some none => some { s with place := .cleaning (i + 1) }
      | some (some stCall) => stCall.outcome.map fun _ => { s with place := .cleaning (i + 1) }
  | _ => none

/-! ## Steps -/

inductive Event (K Res : Type) where
  | suspend
  /-- the callback of `PullRoute` -/
  | answer (iCode : ℤ) (vList : List Instance)
  | resume
  | finishZone (stopRequested : Bool)
  /-- the routing part throws, as an allocation that fails makes it -/
  | throwRoute
  | send
  | build (fault : Option BuildFault)
  | complete (i : ℕ) (o : Outcome Res)
  | collect
  | clean
  /-- another thread at the pool, or the clock -/
  | pool (e : RoutePool.Event K)

def step (cfg : RoutePool.Config) (b : Batch K) (s : State K Res) :
    Event K Res → Option (State K Res)
  | .suspend =>
      match s.place with
      | .suspend => some (awaitSuspend b s)
      | _ => none
  | .answer iCode vList =>
      match s.place with
      | .pulling => some { s with iCode := iCode, vList := vList, place := .resume false }
      | _ => none
  | .resume =>
      match s.place with
      | .resume bResolved => some (awaitResume b s bResolved)
      | _ => none
  | .finishZone stopRequested => finishZone cfg b s stopRequested
  | .throwRoute =>
      match s.place with
      | .suspend | .resume _ | .finishing _ | .sending => some { s with place := .thrown }
      | _ => none
  | .send =>
      match s.place with
      | .sending => some (sendRouted b s)
      | _ => none
  | .build fault => buildCall b s fault
  | .complete i o => completeCall s i o
  | .collect => collectCall s
  | .clean => cleanCall s
  | .pool e => poolStep cfg s e

end Calls

end OpenIdea.Rpc.CallMany

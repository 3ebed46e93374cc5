import OpenIdea.Lib.InOrder
import OpenIdea.Lib.Runs
import OpenIdea.Registry.Store
import Mathlib.Data.List.Induction

/-!
# The registry client's pulls

`RegistryClient` asks the registry for the instances of a service in three ways: `PullAsync` with a
callback, `Pull` for the watched names, and `PullSync`, which blocks its caller.  The frames carry
no call id, so the pulls of one session share the queue `vPendingPulls` and a reply goes to its
front. Pulls issued while a connection is being made wait in `vDeferredPulls`.

A step of the model is a section of the source under `stPendingMutex`, together with the reads
before it that take no lock.  An operation that takes pulls out of the queues finishes them after it
has released the lock; those pulls are in `finishing` meanwhile, and finishing one of them is a step
of its own.  `PullSync` and `Publish` hold `stSyncMutex` throughout, so at most one `PullSync` is
under way: `sync` is where it stands.  Clock readings, the results of sends and of connection
attempts, and the arguments of calls are part of the events.

The register and heartbeat requests are not pulls: sending them changes nothing that is kept here.
`stepped` lists what a step can do.
-/

set_option autoImplicit false

namespace OpenIdea.Registry.Client

open OpenIdea.Lib

/-! ## Codes and configuration -/

/-- `OI_OK` -/
def oiOk : Int := 0
/-- `OI_ERR_FAIL` -/
def errFail : Int := -1
/-- `OI_ERR_TIMEOUT` -/
def errTimeout : Int := -2
/-- `OI_ERR_CONNECT` -/
def errConnect : Int := -3
/-- `OI_ERR_EXIST` -/
def errExist : Int := -4
/-- `OI_ERR_BUSY` -/
def errBusy : Int := -5

/-- `kWaitMs` -/
def waitMs : Nat := 1000

/-- `std::numeric_limits<int64_t>::max()` -/
def maxInt64 : Nat := 9223372036854775807

/-- `Registry.max_pending_pulls` as it stands in the configuration. -/
inductive RawMaximum
  | absent
  | integer (n : Int)
  /-- A text, a floating-point number or a boolean. -/
  | other
  deriving DecidableEq, Repr

/-- The `[Registry]` section. -/
structure Config where
  /-- `ip` is there and not empty. -/
  ip : Bool := true
  /-- `port` is there and not empty, and `type` is there. -/
  portAndType : Bool := true
  rawMaximum : RawMaximum := .absent
  deriving DecidableEq, Repr

/-- `Configured`. -/
def Config.configured (cfg : Config) : Bool := cfg.ip

/-- `ReadMaxPendingPulls`; `none` where it throws. -/
def Config.readMaxPendingPulls (cfg : Config) : Option Nat :=
  match cfg.rawMaximum with
  | .absent => some 4096
  | .integer n => if n ≤ 0 then none else some n.toNat
  | .other => none

/-! ## State -/

/-- `PendingPull`.  `serial` numbers the pulls in the order of the calls; the source has no such
field. -/
structure PendingPull where
  serial : Nat
  synchronous : Bool
  deadline : Nat
  names : List Text
  /-- `pState`: the `PullAsync` call it belongs to, by its number. -/
  state : Option Nat := none
  deriving DecidableEq, Repr

/-- How the code of a pull is chosen when it is finished. -/
inductive Verdict
  /-- Chosen while the lock was held. -/
  | fixed (code : Int)
  /-- `OI_ERR_TIMEOUT` if its deadline has passed by then, else `OI_ERR_CONNECT`. -/
  | byDeadline
  deriving DecidableEq, Repr

/-- A pull in the local list of an operation that has released the lock. -/
structure Taken where
  state : Option Nat
  deadline : Nat
  verdict : Verdict
  deriving DecidableEq, Repr

/-- One invocation of a callback. -/
structure Callback where
  pull : Nat
  code : Int
  list : List Instance
  deriving DecidableEq, Repr

/-- Where the `PullSync` that holds `stSyncMutex` stands. -/
inductive SyncPhase
  | idle
  /-- In `Ensure`, until connected. -/
  | ensuring (pull : Nat) (name : Text)
  /-- Before the section that sends. -/
  | sending (pull : Nat) (name : Text)
  /-- In `WaitFlag(bGot)`. -/
  | waiting (pull : Nat)
  /-- The send or the wait has failed. -/
  | cancelling (pull : Nat) (sent : Bool)
  /-- Before `ExpirePulls`. -/
  | expiring (pull : Nat) (sent : Bool)
  /-- The wait has succeeded. -/
  | reading (pull : Nat)
  deriving DecidableEq, Repr

/-- Who wrote `iCode` and `vResponseList` last. -/
inductive Writer
  /-- The synchronous caller itself. -/
  | caller
  /-- `OnFrame`, with the reply it handed to this pull. -/
  | reply (pull : Nat)
  /-- `ExpirePulls`, when it dropped this pull. -/
  | expired (pull : Nat)
  /-- `OnFrame`, with the reply to a registration. -/
  | registration
  deriving DecidableEq, Repr

/-- What a `PullSync` returned. -/
structure SyncReturn where
  pull : Nat
  ok : Bool
  code : Int
  list : List Instance
  writer : Writer
  deriving DecidableEq, Repr

/-- A reply and the pull it was handed to: the `reply`-th reply of the session. -/
structure Consumption where
  session : Nat
  reply : Nat
  pull : Nat
  code : Int
  list : List Instance
  /-- The pull's deadline had passed. -/
  late : Bool
  deriving DecidableEq, Repr

/-- What the pull gets: a late answer is withheld. -/
def Consumption.result (c : Consumption) : Int × List Instance :=
  if c.late then (errTimeout, []) else (c.code, c.list)

/-- The client.  The fields from `sync` on record what its callers and its peers have seen; the
source has no such fields. -/
structure State where
  sessionId : Option Nat := none
  connected : Bool := false
  connecting : Bool := false
  failed : Bool := false
  addressReady : Bool := false
  registered : Bool := false
  lost : Bool := false
  registrationWaiting : Bool := false
  pullTimeoutArmed : Bool := false
  pullResetCount : Nat := 0
  pendingPulls : List PendingPull := []
  deferredPulls : List PendingPull := []
  got : Bool := false
  code : Int := errFail
  responseList : List Instance := []
  /-- The calls whose `iOnce` is set. -/
  once : List Nat := []
  sync : SyncPhase := .idle
  /-- The pulls that running operations are about to finish. -/
  finishing : List Taken := []
  called : List Callback := []
  returned : List SyncReturn := []
  /-- The calls of `ServiceTable::Apply`. -/
  applied : List (List Text × List Instance) := []
  writer : Writer := .caller
  consumed : List Consumption := []
  /-- The pulls sent on each session, by session number. -/
  sessions : List (Line Nat) := []
  /-- The number of the next pull. -/
  issued : Nat := 0
  /-- The `PullAsync` calls, with the deadline each was given. -/
  asyncs : List (Nat × Nat) := []
  deriving DecidableEq, Repr

/-- The line of a session. -/
def State.line (s : State) (sid : Nat) : Line Nat := s.sessions.getD sid {}

/-- `PendingPull` in a local list. -/
def PendingPull.taken (p : PendingPull) (v : Verdict) : Taken := ⟨p.state, p.deadline, v⟩

/-- `FinishPull`. -/
def finishPull (state : Option Nat) (code : Int) (list : List Instance) (s : State) : State :=
  match state with
  | none => s
  | some n =>
      if n ∈ s.once then s
      else { s with once := n :: s.once, called := s.called ++ [⟨n, code, list⟩] }

/-! ## The queues -/

/-- What `SendBytes` does with a frame. -/
inductive SendOutcome
  | accepted
  | refused
  /-- The frame cannot be built or appended for lack of memory. -/
  | threw
  deriving DecidableEq, Repr

/-- `ArmPullTimeout`. -/
def armPullTimeout (s : State) : State := { s with pullTimeoutArmed := true }

/-- The entry `EnqueueSentPull` pushes: a pull without a deadline gets one. -/
def PendingPull.stamped (p : PendingPull) (now : Nat) : PendingPull :=
  if p.deadline = 0 then { p with deadline := now + waitMs } else p

/-- `EnqueueSentPull`, and whether it returned true, returned false or threw.  Without a session
`Send` refuses. -/
def enqueueSentPull (p : PendingPull) (now : Nat) (o : SendOutcome) (s : State) :
    State × SendOutcome :=
  let s := armPullTimeout s
  let pushed := { s with pendingPulls := s.pendingPulls ++ [p.stamped now] }
  match o, s.sessionId with
  | .accepted, some sid =>
      ({ pushed with sessions := s.sessions.modify sid (·.send p.serial) }, .accepted)
  | .threw, _ => ({ pushed with pendingPulls := pushed.pendingPulls.dropLast }, .threw)
  | _, _ => ({ pushed with pendingPulls := pushed.pendingPulls.dropLast }, .refused)

@[simp] theorem PendingPull.stamped_state (p : PendingPull) (now : Nat) :
    (p.stamped now).state = p.state := by
  unfold PendingPull.stamped
  split <;> rfl

@[simp] theorem PendingPull.stamped_serial (p : PendingPull) (now : Nat) :
    (p.stamped now).serial = p.serial := by
  unfold PendingPull.stamped
  split <;> rfl

@[simp] theorem PendingPull.stamped_synchronous (p : PendingPull) (now : Nat) :
    (p.stamped now).synchronous = p.synchronous := by
  unfold PendingPull.stamped
  split <;> rfl

theorem PendingPull.stamped_of_pos {p : PendingPull} (h : 0 < p.deadline) (now : Nat) :
    p.stamped now = p :=
  if_neg (by omega)

/-- The queue and the session gain the pull together, or neither does. -/
theorem enqueueSentPull_cases (p : PendingPull) (now : Nat) (o : SendOutcome) (s : State) :
    (∃ sid, s.sessionId = some sid ∧ enqueueSentPull p now o s =
      ({ armPullTimeout s with
          pendingPulls := s.pendingPulls ++ [p.stamped now]
          sessions := s.sessions.modify sid (·.send p.serial) }, .accepted)) ∨
    ∃ r, r ≠ .accepted ∧ enqueueSentPull p now o s = (armPullTimeout s, r) := by
  cases o with
  | accepted =>
    cases hsid : s.sessionId with
    | none => exact Or.inr ⟨.refused, by decide, by simp [enqueueSentPull, armPullTimeout, hsid]⟩
    | some sid => exact Or.inl ⟨sid, rfl, by simp [enqueueSentPull, armPullTimeout, hsid]⟩
  | refused => exact Or.inr ⟨.refused, by decide, by simp [enqueueSentPull, armPullTimeout]⟩
  | threw => exact Or.inr ⟨.threw, by decide, by simp [enqueueSentPull, armPullTimeout]⟩

/-- `CanEnqueuePull`; `none` where it throws. -/
def canEnqueuePull (cfg : Config) (s : State) : Option Bool :=
  cfg.readMaxPendingPulls.map fun m => decide (s.pendingPulls.length + s.deferredPulls.length < m)

/-- What an invalidated synchronous pull leaves in the result slot. -/
def publishExpired (now : Nat) (s : State) (p : PendingPull) : State :=
  if p.synchronous then
    { s with
      code := if p.deadline ≤ now then errTimeout else errConnect
      got := true
      writer := .expired p.serial }
  else s

theorem publishExpired_of_synchronous {p : PendingPull} (h : p.synchronous = true) (now : Nat)
    (s : State) :
    publishExpired now s p =
      { s with
        code := if p.deadline ≤ now then errTimeout else errConnect
        got := true
        writer := .expired p.serial } := by
  rw [publishExpired, if_pos h]

/-- The last synchronous pull of the list has the say. -/
theorem foldl_publishExpired (now : Nat) (s : State) (ps : List PendingPull) :
    (∀ p ∈ ps, p.synchronous = false) ∧ ps.foldl (publishExpired now) s = s ∨
    ∃ p ∈ ps, p.synchronous = true ∧
      ps.foldl (publishExpired now) s = publishExpired now s p := by
  induction ps using List.reverseRecOn with
  | nil => exact Or.inl ⟨by simp, rfl⟩
  | append_singleton ps p ih =>
    rw [List.foldl_concat]
    by_cases hp : p.synchronous = true
    · refine Or.inr ⟨p, by simp, hp, ?_⟩
      obtain ⟨-, h⟩ | ⟨q, -, hq, h⟩ := ih
      · rw [h]
      · rw [h]
        simp only [publishExpired_of_synchronous hp, publishExpired_of_synchronous hq]
    · have hskip : ∀ s, publishExpired now s p = s := fun s => if_neg hp
      rw [hskip]
      obtain ⟨hall, h⟩ | ⟨q, hq, hs, h⟩ := ih
      · refine Or.inl ⟨?_, h⟩
        intro x hx
        rcases List.mem_append.1 hx with hx | hx
        · exact hall x hx
        · rw [List.mem_singleton.1 hx]
          exact Bool.eq_false_iff.2 hp
      · exact Or.inr ⟨q, List.mem_append_left _ hq, hs, h⟩

/-- `ExpirePulls` on the deferred pulls. -/
def expireDeferred (now : Nat) (s : State) : State :=
  { s with
    deferredPulls := s.deferredPulls.filter fun p => !decide (p.deadline ≤ now)
    finishing := s.finishing ++
      (s.deferredPulls.filter fun p => decide (p.deadline ≤ now)).map fun p : PendingPull =>
        p.taken (.fixed errTimeout) }

/-- The session is given up, with every pull sent on it. -/
def resetSession (now : Nat) (s : State) : State :=
  { s with
    sessionId := none
    pullResetCount := s.pullResetCount + 1
    connected := false
    registered := false
    failed := true
    pendingPulls := []
    finishing := s.finishing ++ s.pendingPulls.map fun p : PendingPull =>
      p.taken (.fixed (if p.deadline ≤ now then errTimeout else errConnect)) }

/-- `ExpirePulls` on the sent pulls, once one of them has expired. -/
def invalidate (now : Nat) (s : State) : State :=
  s.pendingPulls.foldl (publishExpired now) (resetSession now s)

/-- Apart from the result slot, the state is the reset one. -/
theorem invalidate_cases (now : Nat) (s : State) :
    invalidate now s = resetSession now s ∨
    ∃ p ∈ s.pendingPulls, p.synchronous = true ∧ invalidate now s =
      { resetSession now s with
        code := if p.deadline ≤ now then errTimeout else errConnect
        got := true
        writer := .expired p.serial } := by
  obtain ⟨-, heq⟩ | ⟨p, hmem, hp, heq⟩ :=
    foldl_publishExpired now (resetSession now s) s.pendingPulls
  · exact Or.inl heq
  · exact Or.inr ⟨p, hmem, hp, heq.trans (publishExpired_of_synchronous hp now _)⟩

/-- `ExpirePulls` up to the release of the lock.  A sent pull that has expired takes its session and
every other sent pull with it. -/
def expirePulls (now : Nat) (s : State) : State :=
  let s := expireDeferred now s
  if s.pendingPulls.any (fun p => decide (p.deadline ≤ now)) then invalidate now s else s

/-- One attempt of `OnAddSession` to send a deferred pull: the clock before it, and the send. -/
structure Attempt where
  now : Nat := 0
  send : SendOutcome := .refused
  deriving DecidableEq, Repr

/-- The loop of `OnAddSession` over `vSend`, with what it leaves in `vSend`. -/
def resend : List PendingPull → List Attempt → State → State × List Taken
  | [], _, s => (s, [])
  | p :: ps, as, s =>
      let a := as.headD {}
      if p.deadline ≤ a.now then
        let r := resend ps as.tail s
        (r.1, p.taken .byDeadline :: r.2)
      else
        match enqueueSentPull p a.now a.send s with
        | (s, .accepted) =>
            -- `pState.reset()`: the copy in the queue is the one that counts
            let r := resend ps as.tail s
            (r.1, { p.taken .byDeadline with state := none } :: r.2)
        | (s, _) =>
            let r := resend ps as.tail s
            (r.1, p.taken .byDeadline :: r.2)

/-- `OnAddSession` up to the release of the lock; the new session has the next number. -/
def onAddSession (attempts : List Attempt) (s : State) : State :=
  let dropped := s.pendingPulls.map (·.taken (.fixed errConnect))
  let r := resend s.deferredPulls attempts
    { s with
      pendingPulls := []
      deferredPulls := []
      sessionId := some s.sessions.length
      failed := false
      connected := true
      connecting := false
      sessions := s.sessions ++ [{}] }
  { r.1 with finishing := r.1.finishing ++ dropped ++ r.2 }

/-- `OnDelSession` up to the release of the lock. -/
def onDelSession (sid : Nat) (s : State) : State :=
  if s.sessionId = some sid then
    { s with
      sessionId := none
      connected := false
      registered := false
      failed := true
      pendingPulls := []
      deferredPulls := []
      finishing := s.finishing ++ (s.pendingPulls ++ s.deferredPulls).map (·.taken .byDeadline) }
  else s

/-- `OnConnectFailed` up to the release of the lock. -/
def onConnectFailed (s : State) : State :=
  { s with
    connecting := false
    failed := true
    deferredPulls := []
    finishing := s.finishing ++ s.deferredPulls.map (·.taken .byDeadline) }

/-! ## Connecting -/

/-- What `StartClient` does before it returns. -/
inductive StartOutcome
  | underway
  /-- `OnConnectFailed` from within. -/
  | failed
  /-- `OnAddSession` from within. -/
  | connected (attempts : List Attempt)
  | threw
  deriving DecidableEq, Repr

/-- What `Connect` finds: `StopRequested`, and `StartClient`. -/
structure Start where
  stop : Bool := false
  outcome : StartOutcome := .underway
  deriving DecidableEq, Repr

/-- `Connect`, with what it returns; `none` where it throws. -/
def connect (cfg : Config) (o : Start) (s : State) : State × Option Bool :=
  if s.connected then (s, some true)
  else if !s.addressReady && !(cfg.ip && cfg.portAndType) then (s, some false)
  else
    let s := { s with addressReady := true }
    if s.connecting then (s, some true)
    else
      let s := { s with connecting := true, failed := false }
      if o.stop then ({ s with connecting := false }, some false)
      else
        match o.outcome with
        | .underway => (s, some true)
        | .failed => (onConnectFailed s, some true)
        | .connected attempts => (onAddSession attempts s, some true)
        | .threw => (s, none)

/-! ## `PullAsync` and `Pull` -/

/-- What one `PullAsync` meets: the clock at its start and at its check, and the calls that may
fail. -/
structure AsyncEnv where
  started : Nat := 0
  now : Nat := 0
  /-- `make_shared` succeeds. -/
  allocated : Bool := true
  start : Start := {}
  /-- `ArmPullTimeout` does not throw. -/
  armed : Bool := true
  send : SendOutcome := .accepted
  /-- `vDeferredPulls.push_back` does not throw. -/
  pushed : Bool := true
  deriving DecidableEq, Repr

/-- The deadline of a `PullAsync`, kept below the largest `int64_t`. -/
def asyncDeadline (started : Nat) (timeout : Int) : Nat :=
  started + min timeout.toNat (maxInt64 - started)

/-- The `FinishPull` at the end of a `PullAsync`. -/
def giveUp (n deadline : Nat) (code : Int) (s : State) : State :=
  { s with finishing := s.finishing ++ [⟨some n, deadline, .fixed code⟩] }

/-- The section of `PullAsync` under the lock. -/
def pullAsyncLocked (cfg : Config) (env : AsyncEnv) (p : PendingPull) (s : State) : State :=
  let giveUp := giveUp p.serial p.deadline
  match canEnqueuePull cfg s with
  | none => giveUp errFail s
  | some false => giveUp errBusy s
  | some true =>
      match connect cfg env.start s with
      | (s, none) => giveUp errFail s
      | (s, some false) => giveUp errConnect s
      | (s, some true) =>
          if !env.armed then giveUp errFail s
          else
            let s := armPullTimeout s
            if p.deadline ≤ env.now then giveUp errTimeout s
            else if s.connected then
              match enqueueSentPull p env.now env.send s with
              | (s, .accepted) => s
              | (s, .refused) => giveUp errConnect s
              | (s, .threw) => giveUp errFail s
            else if s.connecting then
              if env.pushed then { s with deferredPulls := s.deferredPulls ++ [p] }
              else giveUp errFail s
            else giveUp errConnect s

/-- `PullAsync`. -/
def pullAsync (cfg : Config) (name : Text) (timeout : Int) (env : AsyncEnv) (s : State) : State :=
  let n := s.issued
  let deadline := asyncDeadline env.started timeout
  let s := { s with issued := n + 1, asyncs := s.asyncs ++ [(n, deadline)] }
  if !env.allocated then
    -- there is no `RegPullState`: the callback runs at once
    { s with called := s.called ++ [⟨n, errFail, []⟩] }
  else if timeout ≤ 0 then giveUp n deadline errTimeout s
  else if name.isEmpty || !cfg.configured then giveUp n deadline errFail s
  else pullAsyncLocked cfg env ⟨n, false, deadline, [name], some n⟩ s

/-- `Pull`; `sawConnected` is what it read before it took the lock. -/
def pull (cfg : Config) (names : List Text) (sawConnected : Bool) (start : Start) (now : Nat)
    (o : SendOutcome) (s : State) : State :=
  if names.isEmpty then s
  else if !sawConnected then (connect cfg start s).1
  else if !s.connected then s
  else
    match canEnqueuePull cfg s with
    | some true =>
        (enqueueSentPull ⟨s.issued, false, 0, names, none⟩ now o
          { s with issued := s.issued + 1 }).1
    | _ => s

/-! ## Frames -/

/-- The body of a frame from the registry. -/
inductive Frame
  | registerRes (code : Int)
  | heartbeatRes (code : Int)
  | pullRes (code : Int) (list : List Instance)
  deriving DecidableEq, Repr

/-- What `OnFrame` does with the reply `c` for the pull it has just taken from the front. -/
def deliver (p : PendingPull) (c : Consumption) (s : State) : State :=
  let s := { s with consumed := s.consumed ++ [c] }
  match p.state with
  | some n => finishPull (some n) c.result.1 c.result.2 s
  | none =>
      if p.synchronous then
        { s with
          responseList := c.result.2
          code := c.result.1
          got := true
          writer := .reply p.serial }
      else if c.result.1 = oiOk then { s with applied := s.applied ++ [(p.names, c.result.2)] }
      else s

/-- `OnFrame`.  `k` is the position of a pull's reply among those of the session. -/
def onFrame (sid k : Nat) (f : Frame) (now : Nat) (s : State) : State :=
  if s.sessionId ≠ some sid then s
  else
    match f with
    | .registerRes code =>
        let s :=
          if code = oiOk then { s with registered := true }
          else if code = errExist && !s.registrationWaiting then { s with lost := true }
          else s
        if s.registrationWaiting then { s with code := code, got := true, writer := .registration }
        else s
    | .heartbeatRes code =>
        if code = errExist then { s with lost := true, registered := false }
        else if code ≠ oiOk then { s with registered := false }
        else s
    | .pullRes code list =>
        match s.pendingPulls with
        | [] => s
        | p :: rest =>
            deliver p ⟨sid, k, p.serial, code, list, decide (p.deadline ≤ now)⟩
              { s with pendingPulls := rest }

/-! ## `PullSync` -/

/-- A return from `PullSync` with a code of its own. -/
def syncReturn (n : Nat) (code : Int) (s : State) : State :=
  { s with sync := .idle, returned := s.returned ++ [⟨n, false, code, [], .caller⟩] }

/-- `PullSync` up to `Ensure`'s wait; `inPoll` is `InPollCallback`, where it throws. -/
def syncEnter (cfg : Config) (name : Text) (inPoll sawConnected : Bool) (start : Start) (s : State) :
    State :=
  let n := s.issued
  let s := { s with issued := n + 1 }
  if name.isEmpty || !cfg.configured then syncReturn n errFail s
  else if inPoll then s
  else if sawConnected then { s with sync := .sending n name }
  else
    match connect cfg start s with
    | (s, some true) => { s with sync := .ensuring n name }
    | (s, some false) => syncReturn n errFail s
    | (s, none) => s

/-- `Ensure` ends. -/
def syncEnsured (n : Nat) (name : Text) (s : State) : State :=
  if s.connected then { s with sync := .sending n name } else syncReturn n errFail s

/-- The section that sends the pull. -/
def syncSend (cfg : Config) (n : Nat) (name : Text) (now : Nat) (o : SendOutcome) (s : State) :
    State :=
  match canEnqueuePull cfg s with
  | none => { s with sync := .idle }
  | some false => syncReturn n errBusy s
  | some true =>
      let s := { s with got := false, code := errFail, writer := .caller }
      match enqueueSentPull ⟨n, true, 0, [name], none⟩ now o s with
      | (s, .accepted) => { s with sync := .waiting n }
      | (s, .refused) => { s with sync := .cancelling n false }
      | (s, .threw) => { s with sync := .idle }

/-- `WaitFlag(bGot)` ends, by the flag, a failed connection or the clock. -/
def syncWaitEnds (n : Nat) (s : State) : State :=
  { s with sync := if s.got then .reading n else .cancelling n true }

/-- The first synchronous entry loses its claim to the result slot. -/
def clearSynchronous : List PendingPull → List PendingPull
  | [] => []
  | p :: ps =>
      if p.synchronous then { p with synchronous := false } :: ps else p :: clearSynchronous ps

theorem clearSynchronous_map {β : Type} {f : PendingPull → β}
    (hf : ∀ p : PendingPull, f { p with synchronous := false } = f p) :
    ∀ ps : List PendingPull, (clearSynchronous ps).map f = ps.map f
  | [] => rfl
  | p :: ps => by
      unfold clearSynchronous
      split
      · rw [List.map_cons, List.map_cons, hf]
      · rw [List.map_cons, List.map_cons, clearSynchronous_map hf ps]

/-- The section after a failed send or wait. -/
def syncCancel (n : Nat) (sent : Bool) (s : State) : State :=
  { s with pendingPulls := clearSynchronous s.pendingPulls, sync := .expiring n sent }

/-- `ExpirePulls` and the return after it. -/
def syncExpire (n : Nat) (sent : Bool) (now : Nat) (s : State) : State :=
  syncReturn n (if sent then errTimeout else errConnect) (expirePulls now s)

/-- The section that reads the result. -/
def syncRead (n : Nat) (s : State) : State :=
  let ok := !(s.code = errTimeout || s.code = errConnect)
  { s with
    sync := .idle
    returned := s.returned ++ [⟨n, ok, s.code, if ok then s.responseList else [], s.writer⟩] }

/-! ## Steps -/

inductive Event
  | pullAsync (name : Text) (timeout : Int) (env : AsyncEnv)
  | pull (names : List Text) (sawConnected : Bool) (start : Start) (now : Nat) (send : SendOutcome)
  /-- A caller gets `stSyncMutex`. -/
  | pullSync (name : Text) (inPoll sawConnected : Bool) (start : Start)
  | syncEnsured
  | syncSend (now : Nat) (send : SendOutcome)
  | syncWaitEnds
  | syncCancel
  | syncExpire (now : Nat)
  | syncRead
  | expirePulls (now : Nat)
  | onAddSession (attempts : List Attempt)
  | onDelSession (sid : Nat)
  | onConnectFailed
  | onFrame (sid : Nat) (frame : Frame) (now : Nat)
  /-- A running operation finishes one of its pulls. -/
  | finish (i : Nat) (now : Nat)
  deriving DecidableEq, Repr

/-- The code a taken pull is finished with. -/
def Taken.code (t : Taken) (now : Nat) : Int :=
  match t.verdict with
  | .fixed code => code
  | .byDeadline => if t.deadline ≤ now then errTimeout else errConnect

/-- A step, if it is enabled.  A session's replies come in the order of its pulls, one for each: the
next one is number `answered`. -/
def step (cfg : Config) (s : State) : Event → Option State
  | .pullAsync name timeout env => some (pullAsync cfg name timeout env s)
  | .pull names sawConnected start now o => some (pull cfg names sawConnected start now o s)
  | .pullSync name inPoll sawConnected start =>
      if s.sync = .idle then some (syncEnter cfg name inPoll sawConnected start s) else none
  | .syncEnsured =>
      match s.sync with
      | .ensuring n name => some (syncEnsured n name s)
      | _ => none
  | .syncSend now o =>
      match s.sync with
      | .sending n name => some (syncSend cfg n name now o s)
      | _ => none
  | .syncWaitEnds =>
      match s.sync with
      | .waiting n => some (syncWaitEnds n s)
      | _ => none
  | .syncCancel =>
      match s.sync with
      | .cancelling n sent => some (syncCancel n sent s)
      | _ => none
  | .syncExpire now =>
      match s.sync with
      | .expiring n sent => some (syncExpire n sent now s)
      | _ => none
  | .syncRead =>
      match s.sync with
      | .reading n => some (syncRead n s)
      | _ => none
  | .expirePulls now => some (expirePulls now s)
  | .onAddSession attempts => some (onAddSession attempts s)
  | .onDelSession sid => some (onDelSession sid s)
  | .onConnectFailed => some (onConnectFailed s)
  | .onFrame sid (.pullRes code list) now =>
      if (s.line sid).Owes then
        some (onFrame sid (s.line sid).answered (.pullRes code list) now
          { s with sessions := s.sessions.modify sid (·.answer) })
      else none
  | .onFrame sid f now => some (onFrame sid 0 f now s)
  | .finish i now =>
      match s.finishing[i]? with
      | none => none
      | some t =>
          some (finishPull t.state (t.code now) [] { s with finishing := s.finishing.eraseIdx i })

/-- What a step can do, with what enables it. -/
inductive Stepped (cfg : Config) (s : State) : State → Prop
  | pullAsync (name : Text) (timeout : Int) (env : AsyncEnv) :
      Stepped cfg s (pullAsync cfg name timeout env s)
  | pull (names : List Text) (sawConnected : Bool) (start : Start) (now : Nat) (o : SendOutcome) :
      Stepped cfg s (pull cfg names sawConnected start now o s)
  | syncEnter (name : Text) (inPoll sawConnected : Bool) (start : Start) (h : s.sync = .idle) :
      Stepped cfg s (syncEnter cfg name inPoll sawConnected start s)
  | syncEnsured (n : Nat) (name : Text) (h : s.sync = .ensuring n name) :
      Stepped cfg s (syncEnsured n name s)
  | syncSend (n : Nat) (name : Text) (now : Nat) (o : SendOutcome) (h : s.sync = .sending n name) :
      Stepped cfg s (syncSend cfg n name now o s)
  | syncWaitEnds (n : Nat) (h : s.sync = .waiting n) : Stepped cfg s (syncWaitEnds n s)
  | syncCancel (n : Nat) (sent : Bool) (h : s.sync = .cancelling n sent) :
      Stepped cfg s (syncCancel n sent s)
  | syncExpire (n : Nat) (sent : Bool) (now : Nat) (h : s.sync = .expiring n sent) :
      Stepped cfg s (syncExpire n sent now s)
  | syncRead (n : Nat) (h : s.sync = .reading n) : Stepped cfg s (syncRead n s)
  | expirePulls (now : Nat) : Stepped cfg s (expirePulls now s)
  | onAddSession (attempts : List Attempt) : Stepped cfg s (onAddSession attempts s)
  | onDelSession (sid : Nat) : Stepped cfg s (onDelSession sid s)
  | onConnectFailed : Stepped cfg s (onConnectFailed s)
  | registerRes (sid : Nat) (code : Int) (now : Nat) :
      Stepped cfg s (onFrame sid 0 (.registerRes code) now s)
  | heartbeatRes (sid : Nat) (code : Int) (now : Nat) :
      Stepped cfg s (onFrame sid 0 (.heartbeatRes code) now s)
  | pullRes (sid : Nat) (code : Int) (list : List Instance) (now : Nat) (h : (s.line sid).Owes) :
      Stepped cfg s (onFrame sid (s.line sid).answered (.pullRes code list) now
        { s with sessions := s.sessions.modify sid (·.answer) })
  | finish (i : Nat) (t : Taken) (now : Nat) (h : s.finishing[i]? = some t) :
      Stepped cfg s
        (finishPull t.state (t.code now) [] { s with finishing := s.finishing.eraseIdx i })

theorem stepped {cfg : Config} {s s' : State} {e : Event} (h : step cfg s e = some s') :
    Stepped cfg s s' := by
  cases e with
  | pullAsync name timeout env =>
    obtain rfl := Option.some.inj h
    exact .pullAsync name timeout env
  | pull names sawConnected start now o =>
    obtain rfl := Option.some.inj h
    exact .pull names sawConnected start now o
  | pullSync name inPoll sawConnected start =>
    obtain ⟨hn, rfl⟩ := Runs.of_guard h
    exact .syncEnter name inPoll sawConnected start hn
  | syncEnsured =>
    unfold step at h
    dsimp only at h
    split at h
    · obtain rfl := Option.some.inj h
      exact .syncEnsured _ _ ‹_›
    · cases h
  | syncSend now o =>
    unfold step at h
    dsimp only at h
    split at h
    · obtain rfl := Option.some.inj h
      exact .syncSend _ _ now o ‹_›
    · cases h
  | syncWaitEnds =>
    unfold step at h
    dsimp only at h
    split at h
    · obtain rfl := Option.some.inj h
      exact .syncWaitEnds _ ‹_›
    · cases h
  | syncCancel =>
    unfold step at h
    dsimp only at h
    split at h
    · obtain rfl := Option.some.inj h
      exact .syncCancel _ _ ‹_›
    · cases h
  | syncExpire now =>
    unfold step at h
    dsimp only at h
    split at h
    · obtain rfl := Option.some.inj h
      exact .syncExpire _ _ now ‹_›
    · cases h
  | syncRead =>
    unfold step at h
    dsimp only at h
    split at h
    · obtain rfl := Option.some.inj h
      exact .syncRead _ ‹_›
    · cases h
  | expirePulls now =>
    obtain rfl := Option.some.inj h
    exact .expirePulls now
  | onAddSession attempts =>
    obtain rfl := Option.some.inj h
    exact .onAddSession attempts
  | onDelSession sid =>
    obtain rfl := Option.some.inj h
    exact .onDelSession sid
  | onConnectFailed =>
    obtain rfl := Option.some.inj h
    exact .onConnectFailed
  | onFrame sid f now =>
    cases f with
    | registerRes code =>
      obtain rfl := Option.some.inj h
      exact .registerRes sid code now
    | heartbeatRes code =>
      obtain rfl := Option.some.inj h
      exact .heartbeatRes sid code now
    | pullRes code list =>
      unfold step at h
      dsimp only at h
      split at h
      · obtain rfl := Option.some.inj h
        exact .pullRes sid code list now ‹_›
      · cases h
  | finish i now =>
    unfold step at h
    dsimp only at h
    split at h
    · cases h
    · obtain rfl := Option.some.inj h
      exact .finish i _ now ‹_›

end OpenIdea.Registry.Client

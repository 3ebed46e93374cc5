import OpenIdea.Registry.Store
import OpenIdea.Lib.Runs

/-!
# The registry server

`RegistryServer` runs on one thread.  Its requests start coroutines; a coroutine is queued, sends
one script to Redis when it is run, and goes on with the reply.  `Task` names the four coroutines, a
`Call` is a task whose script has been sent.

The events leave open in which order Redis executes scripts and in which order replies come back;
`InIssueOrder` and `InReplyOrder` say when they do so in the order of sending.  A call may also
fail: its coroutine goes on with an error, and Redis may execute the script before, afterwards or
not at all.
-/

set_option autoImplicit false

namespace OpenIdea.Registry

open OpenIdea.Lib

/-! ## State -/

/-- A coroutine of the server that waits to send its script, or waits for the reply.  A withdrawal
also notes for which session it was started, which the source does not. -/
inductive Task
  | register (sid : Nat) (b : Binding)
  | refresh (sid : Nat) (b : Binding)
  | withdraw (sid : Nat) (b : Binding)
  | reload
  deriving DecidableEq, Repr

/-- What comes back to a coroutine. -/
inductive Reply
  | code (c : Code)
  | listing (l : List (Key × Text))
  /-- any error: no usable reply -/
  | failed
  deriving DecidableEq, Repr

/-- `ReplyInt`. -/
def Reply.replyInt : Reply → Code
  | .code c => c
  | _ => .fail

/-- A script that was sent: what Redis answered once it has executed it, and whether the coroutine
has already gone on without the reply. -/
structure Call where
  task : Task
  reply : Option Reply := none
  settled : Bool := false
  deriving DecidableEq, Repr

/-- `iCode` of an answer to a client. -/
inductive Result
  /-- `OI_OK` -/
  | ok
  /-- `OI_ERR_FAIL` -/
  | fail
  /-- `OI_ERR_EXIST` -/
  | exist
  deriving DecidableEq, Repr

/-- The request that is answered. -/
inductive Ask
  | register (k : Key)
  | heartbeat (k : Key)
  deriving DecidableEq, Repr

/-- The server with the Redis it writes to. -/
structure State where
  /-- `iCurrentSessionId`: session ids are not used twice -/
  lastSid : Nat := 0
  /-- `m_vAlive` -/
  alive : List Nat := []
  /-- `m_mBindings`, one entry for each element of its vectors -/
  bindings : List (Nat × Binding) := []
  /-- `m_vSnapshot` -/
  snapshot : List Instance := []
  /-- `m_bSnapshotOk` -/
  snapshotOk : Bool := false
  /-- `m_bReloading` -/
  reloading : Bool := false
  /-- coroutines in the run queue that have not sent their script -/
  tasks : List Task := []
  /-- scripts sent, oldest first -/
  calls : List Call := []
  /-- the answers given to clients -/
  sent : List (Nat × Ask × Result) := []
  redis : Redis := {}

/-- A session's entry for a key. -/
def isFor (sid : Nat) (k : Key) (e : Nat × Binding) : Bool := e.1 = sid ∧ e.2.key = k

/-- `FindBinding`. -/
def State.findBinding (s : State) (sid : Nat) (k : Key) : Option Binding :=
  (s.bindings.find? (isFor sid k)).map Prod.snd

/-- The binding is overwritten where there is one for the key, else added. -/
def rebind (sid : Nat) (b : Binding) : List (Nat × Binding) → List (Nat × Binding)
  | [] => [(sid, b)]
  | e :: es => if isFor sid b.key e then (sid, b) :: es else e :: rebind sid b es

/-- `DropSnapshot`. -/
def dropSnapshot (l : List Instance) (k : Key) : List Instance := l.eraseP (·.key = k)

/-- `PutSnapshot`. -/
def putSnapshot (l : List Instance) (b : Binding) : List Instance :=
  dropSnapshot l b.key ++ [b.toInstance]

/-- The entry that still points at this session's address. -/
def pointsAt (b : Binding) (e : Instance) : Bool :=
  e.name = b.name ∧ e.id = b.id ∧ e.ip = b.ip ∧ e.port = b.port

namespace State

/-- `Reply`; a failing send closes the session, which is an event of its own. -/
def answer (s : State) (sid : Nat) (a : Ask) (r : Result) : State :=
  { s with sent := s.sent ++ [(sid, a, r)] }

/-- `CallRedis`: the script is sent. -/
def issue (s : State) (t : Task) : State := { s with calls := s.calls ++ [{ task := t }] }

/-- `StartTask`: the coroutine goes to the end of the run queue. -/
def startTask (s : State) (t : Task) : State := { s with tasks := s.tasks ++ [t] }

/-! ## Sessions and requests -/

/-- `OnAddSession`. -/
def onAddSession (s : State) : State :=
  { s with lastSid := s.lastSid + 1, alive := s.alive ++ [s.lastSid + 1] }

/-- `OnDelSession`. -/
def onDelSession (s : State) (sid : Nat) : State :=
  let mine := (s.bindings.filter (·.1 = sid)).map Prod.snd
  { s with
    alive := s.alive.filter (· ≠ sid)
    bindings := s.bindings.filter (·.1 ≠ sid)
    snapshot := mine.foldl (fun l b => dropSnapshot l b.key) s.snapshot
    tasks := s.tasks ++ mine.map (.withdraw sid) }

/-- The checks of `Handle` on a register request. -/
def validRequest (b : Binding) : Bool :=
  validSpacePart b.name && 0 < b.id && !b.ip.isEmpty && !b.port.isEmpty &&
    (b.zone.isEmpty || validSpacePart b.zone)

/-- `Handle`, register. -/
def handleRegister (s : State) (sid : Nat) (b : Binding) : State :=
  if validRequest b then s.startTask (.register sid b)
  else s.answer sid (.register b.key) .fail

/-- `Handle`, heartbeat. -/
def handleHeartbeat (s : State) (sid : Nat) (k : Key) : State :=
  match s.findBinding sid k with
  | none => s.answer sid (.heartbeat k) .fail
  | some b => s.startTask (.refresh sid b)

/-- `StartReload`. -/
def startReload (s : State) : State :=
  if s.reloading then s else { s with reloading := true }.startTask .reload

/-! ## The coroutines after their reply -/

/-- `Reload`. -/
def afterReload (s : State) (r : Reply) : State :=
  let s := { s with reloading := false }
  match r with
  | .listing l =>
      { s with
        snapshot := l.filterMap fun e => (parseValue e.2).map fun (ip, port, zone) =>
          ⟨e.1.name, e.1.id, ip, port, zone⟩
        snapshotOk := true }
  | _ => s

/-- `Register`. -/
def afterRegister (s : State) (sid : Nat) (b : Binding) (r : Reply) : State :=
  if sid ∉ s.alive then
    -- the connection broke meanwhile and `OnDelSession` did not know of this one
    if r.replyInt = .ok then s.issue (.withdraw sid b) else s
  else
    match r.replyInt with
    | .ok =>
        { s with
          bindings := rebind sid b s.bindings
          snapshot := putSnapshot s.snapshot b }.answer sid (.register b.key) .ok
    | .taken => s.answer sid (.register b.key) .exist
    | _ => s.answer sid (.register b.key) .fail

/-- `Refresh`. -/
def afterRefresh (s : State) (sid : Nat) (b : Binding) (r : Reply) : State :=
  let found := if sid ∈ s.alive then s.findBinding sid b.key else none
  if found.map Binding.value ≠ some b.value then
    -- the refresh may have written the key again
    if r.replyInt = .ok ∨ r.replyInt = .renewed then s.issue (.withdraw sid b) else s
  else
    match r.replyInt with
    | .renewed => { s with snapshot := putSnapshot s.snapshot b }.answer sid (.heartbeat b.key) .ok
    | .ok => s.answer sid (.heartbeat b.key) .ok
    | .taken =>
        { s with
          bindings := s.bindings.eraseP (isFor sid b.key)
          snapshot := s.snapshot.eraseP (pointsAt b) }.answer sid (.heartbeat b.key) .exist
    | .fail => s.answer sid (.heartbeat b.key) .fail

/-- `Withdraw`, whatever the reply. -/
def afterWithdraw (s : State) (b : Binding) : State :=
  if s.bindings.any (·.2.key = b.key) then s
  else { s with snapshot := dropSnapshot s.snapshot b.key }

/-- The coroutine of a call goes on. -/
def resume (s : State) (t : Task) (r : Reply) : State :=
  match t with
  | .register sid b => s.afterRegister sid b r
  | .refresh sid b => s.afterRefresh sid b r
  | .withdraw _ b => s.afterWithdraw b
  | .reload => s.afterReload r

end State

/-! ## Events -/

/-- Redis executes the script of a task. -/
def execute (c : Config) (r : Redis) : Task → Redis × Reply
  | .register _ b => ((r.register c b).1, .code (r.register c b).2)
  | .refresh _ b => ((r.refresh c b).1, .code (r.refresh c b).2)
  | .withdraw _ b => (r.withdraw b, .code .ok)
  | .reload => (r.tidy, .listing r.listing)

inductive Event
  /-- a client connects -/
  | accept
  | register (sid : Nat) (b : Binding)
  | heartbeat (sid : Nat) (k : Key)
  /-- a session is gone -/
  | close (sid : Nat)
  /-- the reload timer -/
  | reloadTimer
  /-- the first coroutine of the run queue sends its script -/
  | start
  /-- Redis executes the script of the call with this index -/
  | exec (i : Nat)
  /-- its coroutine goes on with the reply -/
  | deliver (i : Nat)
  /-- its coroutine goes on with an error -/
  | fail (i : Nat)
  /-- a script that nobody waits for never reaches Redis -/
  | lose (i : Nat)
  /-- time passes -/
  | tick (d : Nat)
  deriving DecidableEq, Repr

/-- One event, where it can happen. -/
def step (c : Config) (s : State) : Event → Option State
  | .accept => some s.onAddSession
  | .register sid b => if sid ∈ s.alive then some (s.handleRegister sid b) else none
  | .heartbeat sid k => if sid ∈ s.alive then some (s.handleHeartbeat sid k) else none
  | .close sid => if sid ∈ s.alive then some (s.onDelSession sid) else none
  | .reloadTimer => some s.startReload
  | .start =>
      match s.tasks with
      | [] => none
      | t :: ts => some ({ s with tasks := ts }.issue t)
  | .exec i =>
      match s.calls[i]? with
      | some ⟨t, none, settled⟩ =>
          let out := execute c s.redis t
          some { s with
            redis := out.1
            calls := if settled then s.calls.eraseIdx i else s.calls.set i ⟨t, some out.2, false⟩ }
      | _ => none
  | .deliver i =>
      match s.calls[i]? with
      | some ⟨t, some r, _⟩ => some ({ s with calls := s.calls.eraseIdx i }.resume t r)
      | _ => none
  | .fail i =>
      match s.calls[i]? with
      | some ⟨t, some _, _⟩ => some ({ s with calls := s.calls.eraseIdx i }.resume t .failed)
      | some ⟨t, none, false⟩ =>
          some ({ s with calls := s.calls.set i ⟨t, none, true⟩ }.resume t .failed)
      | _ => none
  | .lose i =>
      match s.calls[i]? with
      | some ⟨_, none, true⟩ => some { s with calls := s.calls.eraseIdx i }
      | _ => none
  | .tick d => some { s with redis := s.redis.advance d }

/-- Redis executes no script before an earlier one. -/
def InIssueOrder (s : State) : Event → Prop
  | .exec i => ∀ x ∈ s.calls.take i, x.reply.isSome
  | _ => True

/-- No coroutine goes on before one that got its reply earlier, and none goes on without. -/
def InReplyOrder (_ : State) : Event → Prop
  | .deliver i => i = 0
  | .fail _ => False
  | .lose _ => False
  | _ => True

instance decidableInIssueOrder (s : State) : (e : Event) → Decidable (InIssueOrder s e)
  | .exec i => inferInstanceAs (Decidable (∀ x ∈ s.calls.take i, x.reply.isSome))
  | .accept | .register .. | .heartbeat .. | .close _ | .reloadTimer | .start | .deliver _ | .fail _
  | .lose _ | .tick _ => .isTrue trivial

instance decidableInReplyOrder (s : State) : (e : Event) → Decidable (InReplyOrder s e)
  | .deliver i => inferInstanceAs (Decidable (i = 0))
  | .fail _ | .lose _ => .isFalse id
  | .accept | .register .. | .heartbeat .. | .close _ | .reloadTimer | .start | .exec _
  | .tick _ => .isTrue trivial

/-- The server when it starts, on whatever is in Redis. -/
def State.init (r : Redis) : State := { redis := r }

end OpenIdea.Registry

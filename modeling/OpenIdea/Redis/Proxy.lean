import OpenIdea.Lib.Runs
import OpenIdea.Redis.Command
import Mathlib.Data.Finset.Basic

/-!
# The Redis proxy

`RedisServer` passes the commands of its downstream sessions on to Redis, over a few connections
that the sessions share.  A link keeps in `vPending` which session each reply is for, and how many
bytes the commands have that are on their way.  When these reach a limit, sessions are paused: a
paused session is in `vPaused` and in the queue `vReady`, and `Resume` gives each of them a turn
when there is room again.

The process has one thread: an event is a callback that runs to its end, and only `Resume` is taken
apart, into the choice of a session, its `ResumeRead`, and what follows from it.  hiredis is taken
at its word: it calls back for the commands of a connection in their order, once each, and for all
of them before `OnDisconnect`; `handed` is what it still has to call back for.  `issued` lists what
`Issue` can do and `stepped` what a step can do; `processLoop_rule` is the rule for `ProcessInput`.
-/

set_option autoImplicit false

namespace OpenIdea.Redis.Proxy

open OpenIdea.Lib OpenIdea.Redis

variable {ρ : Type}

/-! ## State -/

/-- What `Init` leaves in the server. -/
structure Config where
  maxPendingBytes : Nat := 64 * 1024 * 1024
  maxPendingCommands : Nat := 65536
  connections : Nat := 1
  bytes_min : 64 ≤ maxPendingBytes := by decide
  commands_min : 1 ≤ maxPendingCommands := by decide
  connections_min : 1 ≤ connections := by decide

/-- `RedisPending` -/
structure Pending where
  sid : Nat
  bytes : Nat
  deriving DecidableEq, Repr

/-- A command that hiredis has accepted and not called back for: command number `number` of the
session. -/
structure Handed where
  sid : Nat
  number : Nat
  command : List UInt8
  deriving DecidableEq, Repr

/-- `RedisLink`, and what hiredis holds for it. -/
structure Link where
  pending : List Pending := []
  paused : Finset Nat := ∅
  ready : List Nat := []
  resuming : Bool := false
  pendingBytes : Nat := 0
  resumeArmed : Bool := false
  /-- `pAsyncContext` is set. -/
  up : Bool := false
  /-- The timer of `ArmReconnect` runs. -/
  dialing : Bool := false
  handed : List Handed := []

/-- A reply as it is sent to a session: the command it is the reply to, by its session and number,
and what Redis said; `none` is `ERR redis down`. -/
structure Answer (ρ : Type) where
  sid : Nat
  number : Nat
  body : Option ρ
  deriving DecidableEq, Repr

/-- `RedisServerSession`.  The fields from `received` on record its history. -/
structure Session (ρ : Type) where
  link : Nat := 0
  buffer : List UInt8 := []
  readPaused : Bool := false
  /-- The poll watches the session for input. -/
  reading : Bool := true
  /-- `IsClosed()`; it is in `mSessionMap` as long as it is not. -/
  closed : Bool := true
  /-- `OnDelSession` has run. -/
  deleted : Bool := true
  received : List UInt8 := []
  /-- The commands that `Issue` has taken from it, to hand them on or to answer them itself. -/
  accepted : List (List UInt8) := []
  answers : List (Answer ρ) := []

/-- Where the poll thread stands. -/
inductive Loop
  | idle
  /-- `Resume`, at the head of its loop, with `iRemaining` and `bProgress`. -/
  | resuming (link remaining : Nat) (progress : Bool)
  /-- It has taken the session out of the queue. -/
  | taken (link remaining : Nat) (progress : Bool) (sid : Nat)
  /-- `ResumeRead` has returned `consumed`. -/
  | resumed (link remaining : Nat) (progress : Bool) (sid : Nat) (consumed : Bool)
  deriving DecidableEq, Repr

structure State (ρ : Type) where
  /-- `m_vLinks` -/
  links : Nat → Link
  sessions : Nat → Session ρ := fun _ => {}
  /-- The id of the next session.  It only counts up: that ids do not come round while a session
  lives is the condition under which `Net.SessionTable.ids_unique` holds. -/
  count : Nat := 0
  /-- `m_iNext` -/
  next : Nat := 0
  /-- The links whose `Resume` has been posted to the poll thread. -/
  posted : List Nat := []
  stopRequested : Bool := false
  loop : Loop := .idle

/-- The links are to be opened. -/
def State.init : State ρ := { links := fun _ => { dialing := true } }

namespace State

/-- A link changes. -/
def setLink (s : State ρ) (l : Nat) (k : Link) : State ρ :=
  { s with links := Function.update s.links l k }

/-- A session changes. -/
def setSession (s : State ρ) (sid : Nat) (v : Session ρ) : State ρ :=
  { s with sessions := Function.update s.sessions sid v }

@[simp] theorem setLink_self (s : State ρ) (l : Nat) (k : Link) : (s.setLink l k).links l = k := by
  simp [setLink]

@[simp] theorem setLink_ne (s : State ρ) {l m : Nat} (h : m ≠ l) (k : Link) :
    (s.setLink l k).links m = s.links m := by
  simp [setLink, h]

@[simp] theorem setSession_self (s : State ρ) (sid : Nat) (v : Session ρ) :
    (s.setSession sid v).sessions sid = v := by
  simp [setSession]

@[simp] theorem setSession_ne (s : State ρ) {sid m : Nat} (h : m ≠ sid) (v : Session ρ) :
    (s.setSession sid v).sessions m = s.sessions m := by
  simp [setSession, h]

/-- What a change of one link leaves alone there is the same at every link. -/
theorem setLink_field {β : Type} (s : State ρ) {l : Nat} {k : Link} (f : Link → β)
    (hf : f k = f (s.links l)) (m : Nat) : f ((s.setLink l k).links m) = f (s.links m) := by
  by_cases hm : m = l
  · rw [hm, setLink_self, hf]
  · rw [setLink_ne s hm]

theorem setSession_field {β : Type} (s : State ρ) {sid : Nat} {v : Session ρ} (f : Session ρ → β)
    (hf : f v = f (s.sessions sid)) (m : Nat) :
    f ((s.setSession sid v).sessions m) = f (s.sessions m) := by
  by_cases hm : m = sid
  · rw [hm, setSession_self, hf]
  · rw [setSession_ne s hm]

@[simp] theorem setLink_sessions (s : State ρ) (l : Nat) (k : Link) :
    (s.setLink l k).sessions = s.sessions := rfl

@[simp] theorem setSession_links (s : State ρ) (sid : Nat) (v : Session ρ) :
    (s.setSession sid v).links = s.links := rfl

end State

/-! ## Sessions -/

/-- `CloseSession` and `PassiveClose`: the session leaves the map; `OnDelSession` comes later. -/
def closeSession (sid : Nat) (s : State ρ) : State ρ :=
  s.setSession sid { s.sessions sid with closed := true }

/-- `SendBytes`, and `CloseSession` where it fails. -/
def answer (sid : Nat) (a : Answer ρ) (sendOk : Bool) (s : State ρ) : State ρ :=
  if !(s.sessions sid).closed && sendOk then
    s.setSession sid { s.sessions sid with answers := (s.sessions sid).answers ++ [a] }
  else closeSession sid s

/-- The command counts as taken. -/
def accept (sid : Nat) (command : List UInt8) (s : State ρ) : State ρ :=
  s.setSession sid { s.sessions sid with accepted := (s.sessions sid).accepted ++ [command] }

/-! ## Credit -/

/-- `ArmResume`. -/
def armResume (cfg : Config) (l : Nat) (s : State ρ) : State ρ :=
  let k := s.links l
  if s.stopRequested ∨ k.resumeArmed ∨ k.paused = ∅ ∨ cfg.maxPendingBytes / 2 < k.pendingBytes ∨
      cfg.maxPendingCommands / 2 < k.pending.length then s
  else { s.setLink l { k with resumeArmed := true } with posted := s.posted ++ [l] }

/-- `Pause`. -/
def pause (cfg : Config) (l sid : Nat) (s : State ρ) : State ρ :=
  let k := s.links l
  let s :=
    if sid ∈ k.paused then s
    else s.setLink l { k with paused := insert sid k.paused, ready := k.ready ++ [sid] }
  if (s.links l).resuming then s else armResume cfg l s

/-- `ReleaseCredit`. -/
def releaseCredit (cfg : Config) (l : Nat) (s : State ρ) : State ρ :=
  let k := s.links l
  let bytes := (k.pending.head?.map (·.bytes)).getD 0
  armResume cfg l
    (s.setLink l { k with pendingBytes := k.pendingBytes - bytes, pending := k.pending.tail })

/-- The answers of the environment to one `Issue`. -/
structure IssueEnv where
  /-- `redisAsyncFormattedCommand` returns `REDIS_OK`. -/
  submit : Bool := true
  /-- `SendBytes` succeeds. -/
  send : Bool := true
  deriving DecidableEq, Repr

/-- The command joins `vPending`. -/
def Link.push (k : Link) (sid bytes : Nat) : Link :=
  { k with pending := k.pending ++ [⟨sid, bytes⟩], pendingBytes := k.pendingBytes + bytes }

/-- The command leaves it again. -/
def Link.rollback (k : Link) (bytes : Nat) : Link :=
  { k with pendingBytes := k.pendingBytes - bytes, pending := k.pending.dropLast }

/-- `Issue`.  `false`: there is no room, the session is to keep the command. -/
def issue (cfg : Config) (sid : Nat) (command : List UInt8) (env : IssueEnv) (s : State ρ) :
    State ρ × Bool :=
  let l := (s.sessions sid).link
  let k := s.links l
  let number := (s.sessions sid).accepted.length
  if cfg.connections ≤ l ∨ command.length = 0 ∨ cfg.maxPendingBytes < command.length then
    (closeSession sid s, true)
  else if !k.up then (answer sid ⟨sid, number, none⟩ env.send (accept sid command s), true)
  else if !k.resuming ∧ k.paused ≠ ∅ then (s, false)
  else if cfg.maxPendingCommands ≤ k.pending.length ∨
      cfg.maxPendingBytes - k.pendingBytes < command.length then (s, false)
  else
    let k := k.push sid command.length
    if env.submit then
      (accept sid command (s.setLink l { k with handed := k.handed ++ [⟨sid, number, command⟩] }), true)
    else (closeSession sid (s.setLink l (k.rollback command.length)), true)

/-! ## Input -/

/-- `m_bReadPaused`, `ForbidRead` and `Pause`. -/
def pauseRead (cfg : Config) (sid : Nat) (s : State ρ) : State ρ :=
  let v := s.sessions sid
  pause cfg v.link sid (s.setSession sid { v with readPaused := true, reading := false })

/-- The loop of `ProcessInput` on what is left of the buffer.  It gives what it has not consumed. -/
def processLoop (cfg : Config) (sid : Nat) (env : Nat → IssueEnv) :
    Nat → List UInt8 → State ρ → List UInt8 × State ρ
  | 0, rest, s => (rest, s)
  | budget + 1, rest, s =>
      match scanCommand cfg.maxPendingBytes rest with
      | .bad => (rest, closeSession sid s)
      | .more => (rest, s)
      | .command size _ =>
          if changesConnection (rest.take size) then (rest, closeSession sid s)
          else
            let r := issue cfg sid (rest.take size) (env budget) s
            if !r.2 then (rest, pauseRead cfg sid r.1)
            else if (r.1.sessions sid).closed then (rest, r.1)
            else if budget = 0 ∧ rest.drop size ≠ [] then (rest.drop size, pauseRead cfg sid r.1)
            else processLoop cfg sid env budget (rest.drop size) r.1

/-- `ProcessInput`: the number of bytes consumed comes with the state. -/
def processInput (cfg : Config) (sid budget : Nat) (env : Nat → IssueEnv) (s : State ρ) :
    State ρ × Nat :=
  let v := s.sessions sid
  if v.readPaused || v.closed then (s, 0)
  else
    let r := processLoop cfg sid env budget v.buffer s
    (r.2.setSession sid { r.2.sessions sid with buffer := r.1 }, v.buffer.length - r.1.length)

/-- `ResumeRead`. -/
def resumeRead (cfg : Config) (sid : Nat) (env : Nat → IssueEnv) (s : State ρ) : State ρ × Bool :=
  let v := s.sessions sid
  if v.closed then (s, false)
  else
    let r := processInput cfg sid 1 env (s.setSession sid { v with readPaused := false })
    let v := r.1.sessions sid
    if !v.readPaused && !v.closed then
      (r.1.setSession sid { v with reading := true }, decide (r.2 ≠ 0))
    else (r.1, decide (r.2 ≠ 0))

/-- `SwapInBuff` and `OnDataIn`. -/
def dataIn (cfg : Config) (sid : Nat) (chunk : List UInt8) (env : Nat → IssueEnv) (s : State ρ) :
    State ρ :=
  let v := s.sessions sid
  (processInput cfg sid 32 env
    (s.setSession sid { v with buffer := v.buffer ++ chunk, received := v.received ++ chunk })).1

/-! ## The connections to Redis -/

/-- hiredis calls back for its first command: `OnReply`, with `none` for a `NULL` reply. -/
def onReply (cfg : Config) (l : Nat) (x : Option ρ) (sendOk : Bool) (s : State ρ) : State ρ :=
  let k := s.links l
  match k.handed with
  | [] => s
  | h :: handed =>
      let s := s.setLink l { k with handed := handed }
      match k.pending with
      | [] => s
      | p :: _ => answer p.sid ⟨h.sid, h.number, x⟩ sendOk (releaseCredit cfg l s)

/-- `pAsyncContext = NULL` and `ArmReconnect`. -/
def linkDown (l : Nat) (s : State ρ) : State ρ :=
  s.setLink l { s.links l with up := false, dialing := true }

/-- hiredis gives up its commands. -/
def flush (cfg : Config) (l : Nat) (send : Nat → Bool) : Nat → State ρ → State ρ
  | 0, s => s
  | n + 1, s => flush cfg l send n (onReply cfg l none (send n) s)

/-- `OnConnect` with an error; hiredis calls back for all commands when it returns. -/
def connectFailed (cfg : Config) (l : Nat) (send : Nat → Bool) (s : State ρ) : State ρ :=
  flush cfg l send (s.links l).handed.length (linkDown l s)

/-- The timer of `ArmReconnect`, and `Open`. -/
def dial (l : Nat) (ok : Bool) (s : State ρ) : State ρ :=
  let k := s.links l
  if k.up then s.setLink l { k with dialing := false }
  else s.setLink l { k with dialing := !ok, up := ok }

/-! ## Resume -/

/-- `Resume`, up to its loop. -/
def startResume (l : Nat) (s : State ρ) : State ρ :=
  let k := s.links l
  { s.setLink l { k with resumeArmed := false, resuming := true } with
    loop := .resuming l k.ready.length false }

/-- `Resume`, after its loop. -/
def finishResume (cfg : Config) (l : Nat) (progress : Bool) (s : State ρ) : State ρ :=
  let s := { s.setLink l { s.links l with resuming := false } with loop := .idle }
  if progress then armResume cfg l s else s

/-- The head of the loop of `Resume`: the end of it, or the next session is taken out. -/
def takeReady (cfg : Config) (l remaining : Nat) (progress : Bool) (s : State ρ) : State ρ :=
  let k := s.links l
  match remaining, k.ready with
  | remaining + 1, sid :: ready =>
      if cfg.maxPendingCommands ≤ k.pending.length ∨ cfg.maxPendingBytes ≤ k.pendingBytes then
        finishResume cfg l progress s
      else
        { s.setLink l { k with ready := ready, paused := k.paused.erase sid } with
          loop := .taken l remaining progress sid }
  | _, _ => finishResume cfg l progress s

/-- The session that was taken out reads on, if it is in the map. -/
def resumeTaken (cfg : Config) (l remaining : Nat) (progress : Bool) (sid : Nat)
    (env : Nat → IssueEnv) (s : State ρ) : State ρ :=
  if (s.sessions sid).closed then { s with loop := .resuming l remaining progress }
  else
    let r := resumeRead cfg sid env s
    { r.1 with loop := .resumed l remaining (progress || r.2) sid r.2 }

/-- A session whose command did not fit goes back to the front, and the loop ends. -/
def settleTurn (cfg : Config) (l remaining : Nat) (progress : Bool) (sid : Nat) (consumed : Bool)
    (s : State ρ) : State ρ :=
  let k := s.links l
  if !consumed ∧ sid ∈ k.paused then
    finishResume cfg l progress
      (s.setLink l { k with ready := sid :: k.ready.filter (fun m => decide (m ≠ sid)) })
  else { s with loop := .resuming l remaining progress }

/-! ## Steps -/

/-- `OnDelSession` for one link. -/
def Link.forget (k : Link) (sid : Nat) : Link :=
  { k with paused := k.paused.erase sid, ready := k.ready.filter (fun m => decide (m ≠ sid)) }

inductive Event (ρ : Type)
  /-- A client connects: `OnAddSession`. -/
  | addSession
  /-- Input of a session. -/
  | dataIn (sid : Nat) (chunk : List UInt8) (env : Nat → IssueEnv)
  /-- The session is closed, by its peer or for another reason. -/
  | close (sid : Nat)
  /-- `OnDelSession`. -/
  | delSession (sid : Nat)
  /-- hiredis calls back. -/
  | reply (l : Nat) (x : Option ρ) (sendOk : Bool)
  /-- `OnDisconnect`. -/
  | disconnect (l : Nat)
  /-- `OnConnect` with an error. -/
  | connectFailed (l : Nat) (send : Nat → Bool)
  /-- The reconnect timer. -/
  | dial (l : Nat) (ok : Bool)
  | requestStop
  /-- A posted `Resume` starts. -/
  | startResume
  | takeReady
  | resumeTaken (env : Nat → IssueEnv)
  | settleTurn

/-- A step, if it is enabled: one callback at a time, and `Resume` to its end. -/
def step (cfg : Config) (s : State ρ) : Event ρ → Option (State ρ)
  | .addSession =>
      if s.loop = .idle then
        some { s.setSession s.count
            { link := s.next % cfg.connections, closed := false, deleted := false } with
          count := s.count + 1
          next := s.next + 1 }
      else none
  | .dataIn sid chunk env =>
      if s.loop = .idle ∧ (s.sessions sid).deleted = false then some (dataIn cfg sid chunk env s)
      else none
  | .close sid =>
      if s.loop = .idle ∧ (s.sessions sid).closed = false then some (closeSession sid s) else none
  | .delSession sid =>
      if s.loop = .idle ∧ (s.sessions sid).closed = true ∧ (s.sessions sid).deleted = false then
        some { s.setSession sid { s.sessions sid with deleted := true } with
          links := fun l => (s.links l).forget sid }
      else none
  | .reply l x sendOk =>
      if s.loop = .idle ∧ (s.links l).handed ≠ [] then some (onReply cfg l x sendOk s) else none
  | .disconnect l =>
      if s.loop = .idle ∧ (s.links l).up = true ∧ (s.links l).handed = [] then some (linkDown l s)
      else none
  | .connectFailed l send =>
      if s.loop = .idle ∧ (s.links l).up = true then some (connectFailed cfg l send s) else none
  | .dial l ok =>
      if s.loop = .idle ∧ (s.links l).dialing = true then some (dial l ok s) else none
  | .requestStop => if s.loop = .idle then some { s with stopRequested := true } else none
  | .startResume =>
      match s.loop, s.posted with
      | .idle, l :: posted => some (startResume l { s with posted := posted })
      | _, _ => none
  | .takeReady =>
      match s.loop with
      | .resuming l remaining progress => some (takeReady cfg l remaining progress s)
      | _ => none
  | .resumeTaken env =>
      match s.loop with
      | .taken l remaining progress sid => some (resumeTaken cfg l remaining progress sid env s)
      | _ => none
  | .settleTurn =>
      match s.loop with
      | .resumed l remaining progress sid consumed =>
          some (settleTurn cfg l remaining progress sid consumed s)
      | _ => none

/-! ## What `Issue` and `ProcessInput` do -/

/-- The outcomes of `Issue`. -/
inductive Issued (cfg : Config) (sid : Nat) (command : List UInt8) (s : State ρ) :
    State ρ → Bool → Prop
  /-- The session is closed, because of the command or because hiredis did not take it. -/
  | closed : Issued cfg sid command s (closeSession sid s) true
  /-- There is no connection: the session is told so. -/
  | down (sendOk : Bool) (hup : (s.links (s.sessions sid).link).up = false) :
      Issued cfg sid command s
        (answer sid ⟨sid, (s.sessions sid).accepted.length, none⟩ sendOk (accept sid command s)) true
  | refused (hup : (s.links (s.sessions sid).link).up = true)
      (hsize : command.length ≤ cfg.maxPendingBytes)
      (hroom : ((s.links (s.sessions sid).link).resuming = false ∧
          (s.links (s.sessions sid).link).paused ≠ ∅) ∨
        cfg.maxPendingCommands ≤ (s.links (s.sessions sid).link).pending.length ∨
        cfg.maxPendingBytes - (s.links (s.sessions sid).link).pendingBytes < command.length) :
      Issued cfg sid command s s false
  | handed (hup : (s.links (s.sessions sid).link).up = true)
      (hturn : (s.links (s.sessions sid).link).resuming = true ∨
        (s.links (s.sessions sid).link).paused = ∅)
      (hcommands : (s.links (s.sessions sid).link).pending.length < cfg.maxPendingCommands)
      (hbytes : command.length ≤ cfg.maxPendingBytes -
        (s.links (s.sessions sid).link).pendingBytes) :
      Issued cfg sid command s
        (accept sid command (s.setLink (s.sessions sid).link
          { (s.links (s.sessions sid).link).push sid command.length with
            handed := (s.links (s.sessions sid).link).handed ++
              [⟨sid, (s.sessions sid).accepted.length, command⟩] })) true

theorem Link.rollback_push (k : Link) (sid bytes : Nat) : (k.push sid bytes).rollback bytes = k := by
  simp [Link.push, Link.rollback]

theorem State.setLink_eq_self (s : State ρ) (l : Nat) : s.setLink l (s.links l) = s := by
  simp [State.setLink]

theorem issued (cfg : Config) (sid : Nat) (command : List UInt8) (env : IssueEnv) (s : State ρ) :
    Issued cfg sid command s (issue cfg sid command env s).1 (issue cfg sid command env s).2 := by
  unfold issue
  dsimp only
  split
  · exact .closed
  rename_i hvalid
  have hsize : command.length ≤ cfg.maxPendingBytes :=
    Nat.le_of_not_lt fun h => hvalid (Or.inr (Or.inr h))
  split
  · rename_i hup
    exact .down env.send (by simpa using hup)
  rename_i hup
  have hup : (s.links (s.sessions sid).link).up = true := by simpa using hup
  split
  · rename_i hpaused
    exact .refused hup hsize (Or.inl ⟨by simpa using hpaused.1, hpaused.2⟩)
  rename_i hturn
  split
  · rename_i hroom
    exact .refused hup hsize (Or.inr hroom)
  rename_i hroom
  obtain ⟨hcommands, hbytes⟩ := not_or.1 hroom
  split
  · refine .handed hup ?_ (Nat.lt_of_not_le hcommands) (Nat.le_of_not_lt hbytes)
    by_cases hresuming : (s.links (s.sessions sid).link).resuming = true
    · exact Or.inl hresuming
    · exact Or.inr (by_contra fun hne => hturn ⟨by simpa using hresuming, hne⟩)
  · rw [Link.rollback_push, State.setLink_eq_self]
    exact .closed

/-- A session whose input is processed is open. -/
theorem open_of_ready {v : Session ρ} (h : ¬(v.readPaused || v.closed) = true) : v.closed = false := by
  simp only [Bool.or_eq_true, not_or, Bool.not_eq_true] at h
  exact h.2

/-- **A rule for `ProcessInput`.**  What holds of the rest of the input and the state is kept by the
loop, if it is kept when the session is closed, when it is paused and when a command is issued. -/
theorem processLoop_rule {cfg : Config} {sid : Nat} {env : Nat → IssueEnv}
    {M : List UInt8 → State ρ → Prop}
    (hclose : ∀ {rest s}, M rest s → (s.sessions sid).closed = false → M rest (closeSession sid s))
    (hpause : ∀ {rest s}, M rest s → (s.sessions sid).closed = false → M rest (pauseRead cfg sid s))
    (hissue : ∀ {rest s s' size count}, M rest s → (s.sessions sid).closed = false →
      scanCommand cfg.maxPendingBytes rest = .command size count →
      Issued cfg sid (rest.take size) s s' true →
      M (if (s'.sessions sid).closed then rest else rest.drop size) s') (budget : Nat) :
    ∀ {rest : List UInt8} {s : State ρ}, M rest s → (s.sessions sid).closed = false →
      M (processLoop cfg sid env budget rest s).1 (processLoop cfg sid env budget rest s).2 := by
  induction budget with
  | zero =>
    intro rest s h _
    exact h
  | succ budget ih =>
    intro rest s h hopen
    unfold processLoop
    cases hscan : scanCommand cfg.maxPendingBytes rest with
    | bad => exact hclose h hopen
    | more => exact h
    | command size count =>
      dsimp only
      split
      · exact hclose h hopen
      have hi := issued cfg sid (rest.take size) (env budget) s
      generalize issue cfg sid (rest.take size) (env budget) s = r at hi ⊢
      obtain ⟨s', ok⟩ := r
      dsimp only at hi ⊢
      cases ok with
      | false =>
        cases hi
        exact hpause h hopen
      | true =>
        have hstep := hissue h hopen hscan hi
        rw [if_neg (by simp)]
        split
        · rename_i hclosed
          rw [if_pos hclosed] at hstep
          exact hstep
        rename_i hstill
        rw [if_neg hstill] at hstep
        have hstill : (s'.sessions sid).closed = false := by simpa using hstill
        split
        · exact hpause hstep hstill
        · exact ih hstep hstill

/-! ## What a step does -/

/-- What a step can do, with what enables it. -/
inductive Stepped (cfg : Config) (s : State ρ) : State ρ → Prop
  | addSession (hloop : s.loop = .idle) :
      Stepped cfg s { s.setSession s.count
          { link := s.next % cfg.connections, closed := false, deleted := false } with
        count := s.count + 1
        next := s.next + 1 }
  | dataIn (sid : Nat) (chunk : List UInt8) (env : Nat → IssueEnv) (hloop : s.loop = .idle)
      (hdel : (s.sessions sid).deleted = false) : Stepped cfg s (dataIn cfg sid chunk env s)
  | close (sid : Nat) (hloop : s.loop = .idle) (hopen : (s.sessions sid).closed = false) :
      Stepped cfg s (closeSession sid s)
  | delSession (sid : Nat) (hloop : s.loop = .idle) (hclosed : (s.sessions sid).closed = true) :
      Stepped cfg s { s.setSession sid { s.sessions sid with deleted := true } with
        links := fun l => (s.links l).forget sid }
  | reply (l : Nat) (x : Option ρ) (sendOk : Bool) (hloop : s.loop = .idle)
      (hhanded : (s.links l).handed ≠ []) : Stepped cfg s (onReply cfg l x sendOk s)
  | disconnect (l : Nat) (hloop : s.loop = .idle) (hhanded : (s.links l).handed = []) :
      Stepped cfg s (linkDown l s)
  | connectFailed (l : Nat) (send : Nat → Bool) (hloop : s.loop = .idle) :
      Stepped cfg s (connectFailed cfg l send s)
  | dial (l : Nat) (ok : Bool) (hloop : s.loop = .idle) : Stepped cfg s (dial l ok s)
  | requestStop (hloop : s.loop = .idle) : Stepped cfg s { s with stopRequested := true }
  | startResume (l : Nat) (posted : List Nat) (hloop : s.loop = .idle)
      (hposted : s.posted = l :: posted) : Stepped cfg s (startResume l { s with posted := posted })
  | takeReady (l remaining : Nat) (progress : Bool) (hloop : s.loop = .resuming l remaining progress) :
      Stepped cfg s (takeReady cfg l remaining progress s)
  | resumeTaken (l remaining : Nat) (progress : Bool) (sid : Nat) (env : Nat → IssueEnv)
      (hloop : s.loop = .taken l remaining progress sid) :
      Stepped cfg s (resumeTaken cfg l remaining progress sid env s)
  | settleTurn (l remaining : Nat) (progress : Bool) (sid : Nat) (consumed : Bool)
      (hloop : s.loop = .resumed l remaining progress sid consumed) :
      Stepped cfg s (settleTurn cfg l remaining progress sid consumed s)

theorem stepped {cfg : Config} {s s' : State ρ} {e : Event ρ} (h : step cfg s e = some s') :
    Stepped cfg s s' := by
  cases e with
  | addSession =>
    obtain ⟨hn, rfl⟩ := Runs.of_guard h
    exact .addSession hn
  | dataIn sid chunk env =>
    obtain ⟨hn, rfl⟩ := Runs.of_guard h
    exact .dataIn sid chunk env hn.1 hn.2
  | close sid =>
    obtain ⟨hn, rfl⟩ := Runs.of_guard h
    exact .close sid hn.1 hn.2
  | delSession sid =>
    obtain ⟨hn, rfl⟩ := Runs.of_guard h
    exact .delSession sid hn.1 hn.2.1
  | reply l x sendOk =>
    obtain ⟨hn, rfl⟩ := Runs.of_guard h
    exact .reply l x sendOk hn.1 hn.2
  | disconnect l =>
    obtain ⟨hn, rfl⟩ := Runs.of_guard h
    exact .disconnect l hn.1 hn.2.2
  | connectFailed l send =>
    obtain ⟨hn, rfl⟩ := Runs.of_guard h
    exact .connectFailed l send hn.1
  | dial l ok =>
    obtain ⟨hn, rfl⟩ := Runs.of_guard h
    exact .dial l ok hn.1
  | requestStop =>
    obtain ⟨hn, rfl⟩ := Runs.of_guard h
    exact .requestStop hn
  | startResume =>
    unfold step at h
    dsimp only at h
    split at h
    · obtain rfl := Option.some.inj h
      exact .startResume _ _ ‹_› ‹_›
    · cases h
  | takeReady =>
    unfold step at h
    dsimp only at h
    split at h
    · obtain rfl := Option.some.inj h
      exact .takeReady _ _ _ ‹_›
    · cases h
  | resumeTaken env =>
    unfold step at h
    dsimp only at h
    split at h
    · obtain rfl := Option.some.inj h
      exact .resumeTaken _ _ _ _ env ‹_›
    · cases h
  | settleTurn =>
    unfold step at h
    dsimp only at h
    split at h
    · obtain rfl := Option.some.inj h
      exact .settleTurn _ _ _ _ _ ‹_›
    · cases h

end OpenIdea.Redis.Proxy

import OpenIdea.Lib.InOrder
import OpenIdea.Lib.Runs
import OpenIdea.Lib.StreamParser

/-!
# The Redis client's calls

`RedisClient` sends commands over one connection and hands the replies to the calls in the order of
the commands: `m_vWait` holds the calls that were sent, `m_iSwept` counts the front ones whose
timeout has been dealt with.  A call that has timed out keeps its place, because its reply will
still come.

`Submit`, `Feed`, `SweepTimeout`, the connection callbacks and the stop handler all run on the poll
thread, one after the other; `loop` is where that thread stands, and `Settle` and `Release` of one
call are steps of their own wherever the operation goes through a list.  The callers are on other
threads: a coroutine awaits its `RedisCall`, `CallSync` blocks.  Both hold a reference to the call's
`State` until they are done with it, and the poll thread holds one for `m_vWait`, for the operation
that takes a call out of it, and for a `Submit` in progress.

The reader of hiredis is a parameter: it appends what it is fed and parses the first reply of what
it holds.  `stepped` lists what a step can do.
-/

set_option autoImplicit false

namespace OpenIdea.Redis.Client

open OpenIdea.Lib

variable {ρ : Type}

/-! ## State -/

/-- `RedisStatus` -/
inductive Status
  | ok
  | timeout
  | disconnected
  | invalidArgument
  | sendFailed
  | serverError
  | protocolError
  | busy
  deriving DecidableEq, Repr

/-- `OI::Coro::Gate` -/
inductive Gate
  | idle
  | ready
  | waiting
  deriving DecidableEq, Repr

/-- What the client is built on, and what `Init` leaves in it. -/
structure Config (ρ : Type) where
  hiredis : StreamParser UInt8 ρ
  /-- The type of the reply is `REDIS_REPLY_ERROR`. -/
  isError : ρ → Bool
  timeoutMs : Nat
  maxPending : Nat
  timeout_pos : 0 < timeoutMs
  maxPending_pos : 0 < maxPending

/-- Where the caller stands. -/
inductive Caller
  /-- The `RedisCall` has not been awaited. -/
  | created
  /-- `Suspend` has handed the call to the poll thread. -/
  | posted
  /-- `Suspend` has returned true. -/
  | suspended
  /-- `CallSync` waits for `bReady`. -/
  | blocked
  /-- The await is over. -/
  | resumed
  /-- The caller's reference is released. -/
  | gone
  deriving DecidableEq, Repr

/-- `RedisCall::State`, and its caller. -/
structure Call (ρ : Type) where
  arguments : List (List UInt8) := []
  synchronous : Bool := false
  reply : Option ρ := none
  status : Status := .disconnected
  ready : Bool := false
  deadline : Nat := 0
  gate : Gate := .idle
  /-- `iWon` -/
  won : Bool := false
  references : Nat := 0
  sessionId : Option Nat := none
  /-- The coroutine has been scheduled. -/
  scheduled : Bool := false
  caller : Caller := .gone
  /-- `Submit` has run. -/
  submitted : Bool := false
  /-- The `State` is deleted. -/
  freed : Bool := false

/-- `redisReader` -/
structure Reader where
  held : List UInt8 := []
  err : Bool := false

/-- What an operation does after it has gone through its list of calls. -/
inductive After
  | nothing
  /-- `OnClientConnect` takes the new session. -/
  | connected (sid : Nat)
  /-- `Feed` closes the session. -/
  | closeSession
  /-- The stop handler gives up the session. -/
  | stopped
  deriving DecidableEq, Repr

/-- Where the poll thread stands. -/
inductive Loop
  | idle
  /-- `Submit`, after `Enqueue`. -/
  | submitting (n : Nat)
  /-- `Feed`, before `redisReaderGetReply`. -/
  | feeding (sid : Nat)
  /-- `Feed`, before the `Release` of the call that took a reply. -/
  | answered (n sid : Nat)
  /-- `FailSid` or `FailAll`, with what is left of `vLeft`. -/
  | failing (left : List Nat) (status : Status) (after : After)
  /-- The same, before the `Release` of a call. -/
  | failed (n : Nat) (left : List Nat) (status : Status) (after : After)
  /-- `SweepTimeout`, with what is left of `vExpired`. -/
  | sweeping (left : List Nat)
  deriving DecidableEq, Repr

/-- One settlement of a call. -/
structure Settlement (ρ : Type) where
  call : Nat
  status : Status
  reply : Option ρ

/-- The calls' `State`s, with what happened to them. -/
structure Ledger (ρ : Type) where
  calls : Nat → Call ρ := fun _ => {}
  settled : List (Settlement ρ) := []
  /-- A deleted `State` was used. -/
  misuse : Bool := false

/-- A reply and the call it was handed to: number `index` among the replies of the session. -/
structure Consumption (ρ : Type) where
  session : Nat
  index : Nat
  call : Nat
  reply : ρ

/-- A session, as the server sees it: the commands it got, the replies it has given to the first of
them, and what of these is still to be received. -/
structure Session (ρ : Type) where
  line : Line Nat := {}
  replies : List ρ := []
  wire : List UInt8 := []

/-- The client.  The fields from `clock` on record what the callers and the server have seen. -/
structure State (ρ : Type) where
  /-- `m_iReaderSessionId` -/
  readerSid : Option Nat := none
  /-- `m_pReader` -/
  reader : Option Reader := none
  /-- `ConnectedSid()` -/
  connectedSid : Option Nat := none
  wait : List Nat := []
  swept : Nat := 0
  stopRequested : Bool := false
  ledger : Ledger ρ := {}
  /-- The number of the next call. -/
  issued : Nat := 0
  /-- The calls handed to the poll thread. -/
  posted : List Nat := []
  loop : Loop := .idle
  clock : Nat := 0
  stopped : Bool := false
  sessions : List (Session ρ) := []
  consumed : List (Consumption ρ) := []

/-- A session by its number. -/
def State.session (s : State ρ) (sid : Nat) : Session ρ := s.sessions.getD sid {}

/-- A call by its number. -/
def State.call (s : State ρ) (n : Nat) : Call ρ := s.ledger.calls n

/-! ## Settling and releasing -/

namespace Ledger

/-- One call changes. -/
def set (l : Ledger ρ) (n : Nat) (c : Call ρ) : Ledger ρ :=
  { l with calls := Function.update l.calls n c }

/-- A deleted `State` is used. -/
def broken (l : Ledger ρ) : Ledger ρ := { l with misuse := true }

/-- The `State` after it is settled.  A synchronous caller has been signalled and may be gone: its
gate is not touched. -/
def settledCall (x : Option ρ) (status : Status) (c : Call ρ) : Call ρ :=
  { c with
    won := true
    reply := x
    status := status
    ready := true
    gate := if c.synchronous then c.gate else .ready
    scheduled := !c.synchronous && c.gate = .waiting }

/-- `Settle`. -/
def settle (n : Nat) (x : Option ρ) (status : Status) (l : Ledger ρ) : Ledger ρ :=
  if (l.calls n).freed then l.broken
  else if (l.calls n).won then l
  else
    { l.set n (settledCall x status (l.calls n)) with settled := l.settled ++ [⟨n, status, x⟩] }

/-- `Release`. -/
def release (n : Nat) (l : Ledger ρ) : Ledger ρ :=
  if (l.calls n).freed then l.broken
  else
    l.set n
      { l.calls n with
        references := (l.calls n).references - 1
        freed := decide ((l.calls n).references = 1) }

/-- `fetch_add` on `iReferences`. -/
def retain (n : Nat) (l : Ledger ρ) : Ledger ρ :=
  if (l.calls n).freed then l.broken
  else l.set n { l.calls n with references := (l.calls n).references + 1 }

/-- The caller moves on. -/
def setCaller (l : Ledger ρ) (n : Nat) (p : Caller) : Ledger ρ :=
  l.set n { l.calls n with caller := p }

@[simp] theorem set_calls_self (l : Ledger ρ) (n : Nat) (c : Call ρ) : (l.set n c).calls n = c := by
  simp [set]

variable {l : Ledger ρ} {m n : Nat}

@[simp] theorem set_calls_ne (h : m ≠ n) (c : Call ρ) : (l.set n c).calls m = l.calls m := by
  simp [set, h]

theorem settle_calls_ne (h : m ≠ n) (x : Option ρ) (status : Status) :
    (l.settle n x status).calls m = l.calls m := by
  unfold settle
  split
  · rfl
  split
  · rfl
  · exact set_calls_ne h _

theorem release_calls_ne (h : m ≠ n) : (l.release n).calls m = l.calls m := by
  unfold release
  split
  · rfl
  · exact set_calls_ne h _

theorem retain_calls_ne (h : m ≠ n) : (l.retain n).calls m = l.calls m := by
  unfold retain
  split
  · rfl
  · exact set_calls_ne h _

/-- What `Settle` leaves alone in the call itself. -/
theorem settle_calls_self (l : Ledger ρ) (n : Nat) (x : Option ρ) (status : Status) :
    (l.settle n x status).calls n = l.calls n ∨
    (l.settle n x status).calls n = settledCall x status (l.calls n) := by
  unfold settle
  split
  · exact Or.inl rfl
  split
  · exact Or.inl rfl
  · exact Or.inr (set_calls_self _ _ _)

theorem release_calls_self (l : Ledger ρ) (n : Nat) :
    ∃ r f, (l.release n).calls n = { l.calls n with references := r, freed := f } := by
  unfold release
  split
  · exact ⟨_, _, rfl⟩
  · exact ⟨_, _, set_calls_self _ _ _⟩

theorem retain_calls_self (l : Ledger ρ) (n : Nat) :
    ∃ r, (l.retain n).calls n = { l.calls n with references := r } := by
  unfold retain
  split
  · exact ⟨_, rfl⟩
  · exact ⟨_, set_calls_self _ _ _⟩

@[simp] theorem release_settled (l : Ledger ρ) (n : Nat) : (l.release n).settled = l.settled := by
  unfold release
  split <;> rfl

@[simp] theorem retain_settled (l : Ledger ρ) (n : Nat) : (l.retain n).settled = l.settled := by
  unfold retain
  split <;> rfl

/-- `Settle` adds one settlement at most. -/
theorem settle_settled (l : Ledger ρ) (n : Nat) (x : Option ρ) (status : Status) :
    (l.settle n x status).settled = l.settled ∨
    (l.settle n x status).settled = l.settled ++ [⟨n, status, x⟩] := by
  unfold settle
  split
  · exact Or.inl rfl
  split
  · exact Or.inl rfl
  · exact Or.inr rfl

theorem mem_settle_none {status : Status} {t : Settlement ρ}
    (h : t ∈ (l.settle n none status).settled) : t ∈ l.settled ∨ t.reply = none := by
  obtain heq | heq := settle_settled l n none status
  · rw [heq] at h
    exact Or.inl h
  · rw [heq] at h
    rcases List.mem_append.1 h with h | h
    · exact Or.inl h
    · rw [List.mem_singleton.1 h]
      exact Or.inr rfl

end Ledger

/-- `Settle` in the client. -/
def settle (n : Nat) (x : Option ρ) (status : Status) (s : State ρ) : State ρ :=
  { s with ledger := s.ledger.settle n x status }

/-- `Release` in the client. -/
def release (n : Nat) (s : State ρ) : State ρ := { s with ledger := s.ledger.release n }

/-! ## Sending -/

/-- What `SendBytesResult` returns. -/
inductive SendResult
  | ok
  /-- `OI_ERR_BUSY` -/
  | busy
  /-- `OI_ERR_CONNECT` -/
  | connect
  | other
  deriving DecidableEq, Repr

/-- The status of a call that could not be sent. -/
def SendResult.status : SendResult → Status
  | .ok => .ok
  | .busy => .busy
  | .connect => .disconnected
  | .other => .sendFailed

/-- What one `Enqueue` meets. -/
structure SendEnv where
  /-- `redisFormatCommandArgv` succeeds. -/
  formatted : Bool := true
  /-- `ArmRedisSweep` succeeds. -/
  armed : Bool := true
  send : SendResult := .ok
  deriving DecidableEq, Repr

/-- The removal of a call whose send failed: its first entry goes, and the swept prefix with it. -/
def eraseWait (n : Nat) (s : State ρ) : State ρ :=
  let i := s.wait.idxOf n
  { s with
    wait := s.wait.eraseIdx i
    swept := if i < s.swept ∧ i < s.wait.length then s.swept - 1 else s.swept }

/-- The call joins the queue. -/
def pushWait (n sid : Nat) (s : State ρ) : State ρ :=
  let l := s.ledger.retain n
  { s with ledger := l.set n { l.calls n with sessionId := some sid }, wait := s.wait ++ [n] }

/-- The part of `Enqueue` after the deadline is set. -/
def sendCall (cfg : Config ρ) (n sid : Nat) (r : SendResult) (s : State ρ) : State ρ :=
  if s.wait.length < cfg.maxPending then
    let s := pushWait n sid s
    match r with
    | .ok =>
        { s with sessions := s.sessions.modify sid fun v => { v with line := v.line.send n } }
    | r => release n (settle n none r.status (eraseWait n s))
  else settle n none .busy s

/-- `Enqueue`. -/
def enqueue (cfg : Config ρ) (n now : Nat) (env : SendEnv) (s : State ρ) : State ρ :=
  if (s.call n).arguments.isEmpty then settle n none .invalidArgument s
  else if s.stopRequested then settle n none .disconnected s
  else
    match s.readerSid with
    | none => settle n none .disconnected s
    | some sid =>
        if s.connectedSid ≠ some sid then settle n none .disconnected s
        else if !env.formatted then settle n none .invalidArgument s
        else if !env.armed then settle n none .sendFailed s
        else
          sendCall cfg n sid env.send
            { s with ledger := s.ledger.set n { s.call n with deadline := now + cfg.timeoutMs } }

/-- A call that was queued and could not be sent leaves the queue as it was. -/
theorem eraseWait_pushWait {n : Nat} {s : State ρ} (hn : n ∉ s.wait) (hs : s.swept ≤ s.wait.length)
    (sid : Nat) :
    eraseWait n (pushWait n sid s) = { s with ledger := (pushWait n sid s).ledger } := by
  have hidx : (s.wait ++ [n]).idxOf n = s.wait.length := by
    rw [List.idxOf_append, if_neg hn]
    simp
  have herase : (s.wait ++ [n]).eraseIdx s.wait.length = s.wait := by
    rw [List.eraseIdx_append_of_length_le (Nat.le_refl _)]
    simp
  unfold eraseWait pushWait
  dsimp only
  rw [hidx, herase, if_neg (by omega)]

/-- What a failed `Enqueue` leaves: only its own call has changed, and it has no reply. -/
structure Unsent (n : Nat) (s s' : State ρ) : Prop where
  frame : s' = { s with ledger := s'.ledger }
  others : ∀ m ≠ n, s'.call m = s.call m
  settled : ∀ t ∈ s'.ledger.settled, t ∈ s.ledger.settled ∨ t.reply = none

/-- What a successful `Enqueue` does: its call is at the end of the queue and of the session. -/
structure Sent (cfg : Config ρ) (n now sid : Nat) (s s' : State ρ) : Prop where
  frame : s' = { s with
    ledger := s'.ledger
    wait := s.wait ++ [n]
    sessions := s.sessions.modify sid fun v => { v with line := v.line.send n } }
  reader : s.readerSid = some sid
  others : ∀ m ≠ n, s'.call m = s.call m
  deadline : (s'.call n).deadline = now + cfg.timeoutMs
  session : (s'.call n).sessionId = some sid
  settled : s'.ledger.settled = s.ledger.settled

theorem unsent_settle (n : Nat) (status : Status) (s : State ρ) :
    Unsent n s (settle n none status s) := by
  exact ⟨rfl, fun m hm => Ledger.settle_calls_ne hm _ _, fun t ht => Ledger.mem_settle_none ht⟩

theorem enqueue_cases {cfg : Config ρ} {n now : Nat} {env : SendEnv} {s : State ρ} (hn : n ∉ s.wait)
    (hs : s.swept ≤ s.wait.length) :
    Unsent n s (enqueue cfg n now env s) ∨ ∃ sid, Sent cfg n now sid s (enqueue cfg n now env s) := by
  unfold enqueue
  split
  · exact Or.inl (unsent_settle n _ s)
  split
  · exact Or.inl (unsent_settle n _ s)
  split
  · exact Or.inl (unsent_settle n _ s)
  rename_i sid hsid
  split
  · exact Or.inl (unsent_settle n _ s)
  split
  · exact Or.inl (unsent_settle n _ s)
  split
  · exact Or.inl (unsent_settle n _ s)
  -- from here on the call has its deadline
  have htimed : ∀ {s' : State ρ},
      Unsent n
        { s with ledger := s.ledger.set n { s.call n with deadline := now + cfg.timeoutMs } } s' →
      Unsent n s s' := by
    intro s' h
    refine ⟨h.frame, ?_, h.settled⟩
    intro m hm
    rw [h.others m hm]
    exact Ledger.set_calls_ne hm _
  unfold sendCall
  split
  · have hfail : ∀ r : SendResult, Unsent n s (release n (settle n none r.status (eraseWait n
        (pushWait n sid { s with
          ledger := s.ledger.set n { s.call n with deadline := now + cfg.timeoutMs } })))) := by
      intro r
      apply htimed
      rw [eraseWait_pushWait (s := { s with
        ledger := s.ledger.set n { s.call n with deadline := now + cfg.timeoutMs } }) hn hs]
      refine ⟨rfl, ?_, ?_⟩
      · intro m hm
        show ((Ledger.settle _ _ _ _).release n).calls m = _
        rw [Ledger.release_calls_ne hm, Ledger.settle_calls_ne hm]
        show ((Ledger.retain n _).set n _).calls m = _
        rw [Ledger.set_calls_ne hm, Ledger.retain_calls_ne hm]
        rfl
      · intro t ht
        -- the settlements of the pushed call are those from before
        have hsame : (pushWait n sid { s with
            ledger := s.ledger.set n { s.call n with deadline := now + cfg.timeoutMs } }).ledger.settled =
            s.ledger.settled := Ledger.retain_settled _ n
        have hmem : ∀ {l : Ledger ρ} {t : Settlement ρ},
            t ∈ ((l.settle n none r.status).release n).settled → t ∈ l.settled ∨ t.reply = none := by
          intro l t ht
          rw [Ledger.release_settled] at ht
          exact Ledger.mem_settle_none ht
        rcases hmem ht with ht | ht
        · exact Or.inl (hsame ▸ ht)
        · exact Or.inr ht
    cases env.send with
    | ok =>
      refine Or.inr ⟨sid, ⟨rfl, hsid, ?_, ?_, ?_, ?_⟩⟩
      · intro m hm
        show ((Ledger.retain n _).set n _).calls m = _
        rw [Ledger.set_calls_ne hm, Ledger.retain_calls_ne hm, Ledger.set_calls_ne hm]
        rfl
      · show (((Ledger.retain n _).set n _).calls n).deadline = _
        rw [Ledger.set_calls_self]
        obtain ⟨r, hr⟩ := Ledger.retain_calls_self
          (s.ledger.set n { s.call n with deadline := now + cfg.timeoutMs }) n
        rw [hr, Ledger.set_calls_self]
      · show (((Ledger.retain n _).set n _).calls n).sessionId = _
        rw [Ledger.set_calls_self]
      · exact Ledger.retain_settled _ n
    | busy => exact Or.inl (hfail .busy)
    | connect => exact Or.inl (hfail .connect)
    | other => exact Or.inl (hfail .other)
  · exact Or.inl (htimed (unsent_settle n _ _))

/-! ## Operations of the poll thread -/

/-- `Submit`, before it returns. -/
def submit (cfg : Config ρ) (n now : Nat) (env : SendEnv) (s : State ρ) : State ρ :=
  let l := s.ledger.retain n
  let s := { s with ledger := l.set n { l.calls n with submitted := true } }
  { enqueue cfg n now env s with loop := .submitting n }

/-- `FailAll` up to the release of the lock. -/
def failAll (status : Status) (after : After) (s : State ρ) : State ρ :=
  { s with wait := [], swept := 0, loop := .failing s.wait status after }

/-- The call was sent on the session. -/
def State.sentOn (s : State ρ) (sid n : Nat) : Bool := decide ((s.call n).sessionId = some sid)

/-- `FailSid` up to the release of the lock. -/
def failSid (sid : Nat) (s : State ρ) : State ρ :=
  { s with
    wait := s.wait.filter fun n => !s.sentOn sid n
    swept := ((s.wait.take s.swept).filter fun n => !s.sentOn sid n).length
    loop := .failing (s.wait.filter (s.sentOn sid)) .disconnected .nothing }

/-- One round of the loops of `FailAll` and `FailSid`, before `Release`. -/
def failNext (n : Nat) (left : List Nat) (status : Status) (after : After) (s : State ρ) : State ρ :=
  { settle n none status s with loop := .failed n left status after }

/-- What follows `FailAll` or `FailSid`. -/
def failDone (after : After) (s : State ρ) : State ρ :=
  match after with
  | .nothing => { s with loop := .idle }
  | .connected sid => { s with loop := .idle, readerSid := some sid, reader := some {} }
  | .closeSession => { s with loop := .idle }
  | .stopped => { s with loop := .idle, readerSid := none, stopped := true }

/-- `OnAddSession` and `OnClientConnect`, up to the loop of `FailAll`. -/
def connect (s : State ρ) : State ρ :=
  failAll .disconnected (.connected s.sessions.length)
    { s with connectedSid := some s.sessions.length, sessions := s.sessions ++ [{}] }

/-- `OnDelSession` and `OnClientDisconnect`, up to the loop of `FailSid`. -/
def disconnect (sid : Nat) (s : State ρ) : State ρ :=
  let s := if s.connectedSid = some sid then { s with connectedSid := none } else s
  let s := if s.readerSid = some sid then { s with readerSid := none, reader := none } else s
  failSid sid s

/-- `SweepTimeout` up to the release of the lock. -/
def sweepTimeout (now : Nat) (s : State ρ) : State ρ :=
  let expired := (s.wait.drop s.swept).takeWhile fun n => decide ((s.call n).deadline ≤ now)
  { s with swept := s.swept + expired.length, loop := .sweeping expired }

/-- `Feed` up to its loop. -/
def feed (sid : Nat) (chunk : List UInt8) (s : State ρ) : State ρ :=
  if s.readerSid ≠ some sid then s
  else
    let r := s.reader.getD {}
    if r.err then failAll .protocolError .closeSession { s with reader := some r }
    else { s with reader := some { r with held := r.held ++ chunk }, loop := .feeding sid }

/-- The reply goes to the front of the queue; one for a call that is settled already is dropped. -/
def takeReply (cfg : Config ρ) (sid : Nat) (x : ρ) (s : State ρ) : State ρ :=
  let k := (s.session sid).line.answered
  let s := { s with sessions := s.sessions.modify sid fun v => { v with line := v.line.answer } }
  match s.wait with
  | [] => s
  | n :: rest =>
      let s :=
        { s with
          wait := rest
          swept := s.swept - 1
          consumed := s.consumed ++ [⟨sid, k, n, x⟩] }
      let status := if cfg.isError x then Status.serverError else Status.ok
      { settle n (some x) status s with loop := .answered n sid }

/-- One round of `Feed`'s loop, before `Release`. -/
def nextReply (cfg : Config ρ) (sid : Nat) (s : State ρ) : State ρ :=
  let r := s.reader.getD {}
  if r.err then failAll .protocolError .closeSession s
  else
    match cfg.hiredis.parse r.held with
    | .more => { s with loop := .idle }
    | .error => failAll .protocolError .closeSession { s with reader := some { r with err := true } }
    | .message x rest => takeReply cfg sid x { s with reader := some { r with held := rest } }

/-! ## Steps -/

inductive Event (ρ : Type)
  /-- A `RedisCall` is made. -/
  | call (arguments : List (List UInt8))
  /-- `CallSync`, past its checks. -/
  | callSync (arguments : List (List UInt8))
  /-- `Suspend`, up to the exchange of the gate. -/
  | await (n : Nat)
  /-- The exchange of the gate in `Suspend`. -/
  | gateWait (n : Nat)
  /-- The scheduled coroutine goes on. -/
  | resume (n : Nat)
  /-- `CallSync` returns with the result. -/
  | syncReturn (n : Nat)
  /-- `CallSync` of the single-threaded build returns because the process stops. -/
  | syncStop (n : Nat)
  /-- The `RedisCall` is destroyed. -/
  | destroy (n : Nat)
  | requestStop
  | submit (now : Nat) (env : SendEnv)
  /-- `Submit` returns. -/
  | submitDone
  | feed (sid : Nat) (size : Nat)
  | nextReply
  /-- `Feed` releases the call that took the reply. -/
  | replyDone
  | sweepTimeout (now : Nat)
  /-- `SweepTimeout` settles a call. -/
  | sweepNext
  /-- `FailAll` or `FailSid` settles a call. -/
  | failNext
  /-- It releases the call. -/
  | failRelease
  /-- It is through. -/
  | failDone
  | connect
  | disconnect (sid : Nat)
  /-- The stop handler. -/
  | stop
  /-- The server answers the first command of the session that has no answer. -/
  | serverReply (sid : Nat) (x : ρ)

/-- The caller has a new call. -/
def newCall (c : Call ρ) (s : State ρ) : State ρ :=
  { s with ledger := s.ledger.set s.issued { c with references := 1 }, issued := s.issued + 1 }

/-- The caller moves on. -/
def setCaller (n : Nat) (p : Caller) (s : State ρ) : State ρ :=
  { s with ledger := s.ledger.setCaller n p }

/-- The gate is found closed: the coroutine is suspended. -/
def suspend (n : Nat) (s : State ρ) : State ρ :=
  { s with ledger := s.ledger.set n { s.call n with caller := .suspended, gate := .waiting } }

/-- A step, if it is enabled.  The poll thread finishes one operation before it starts the next; a
caller's steps are those of its own call; the clock does not go back. -/
def step (cfg : Config ρ) (s : State ρ) : Event ρ → Option (State ρ)
  | .call arguments => some (newCall { arguments := arguments, caller := .created } s)
  | .callSync arguments =>
      if s.stopRequested then none
      else
        some { newCall { arguments := arguments, synchronous := true, caller := .blocked } s with
          posted := s.posted ++ [s.issued] }
  | .await n =>
      if (s.call n).caller = .created then
        if s.stopRequested then some (setCaller n .resumed s)
        else some { setCaller n .posted s with posted := s.posted ++ [n] }
      else none
  | .gateWait n =>
      if (s.call n).caller = .posted then
        if (s.call n).gate = .ready then some (setCaller n .resumed s)
        else some (suspend n s)
      else none
  | .resume n =>
      if (s.call n).caller = .suspended ∧ (s.call n).scheduled then some (setCaller n .resumed s)
      else none
  | .syncReturn n =>
      if (s.call n).caller = .blocked ∧ (s.call n).ready then
        some (release n (setCaller n .gone s))
      else none
  | .syncStop n =>
      if (s.call n).caller = .blocked ∧ (s.call n).submitted ∧ s.stopped ∧ s.loop = .idle then
        some (release n (setCaller n .gone (settle n none .disconnected s)))
      else none
  | .destroy n =>
      if (s.call n).caller = .created ∨ (s.call n).caller = .resumed then
        some (release n (setCaller n .gone s))
      else none
  | .requestStop => some { s with stopRequested := true }
  | .submit now env =>
      match s.loop, s.posted with
      | .idle, n :: rest =>
          if s.clock ≤ now then
            some (submit cfg n now env { s with posted := rest, clock := now })
          else none
      | _, _ => none
  | .submitDone =>
      match s.loop with
      | .submitting n => some { release n s with loop := .idle }
      | _ => none
  | .feed sid size =>
      if s.loop = .idle then
        let chunk := (s.session sid).wire.take size
        some (feed sid chunk
          { s with sessions := s.sessions.modify sid fun v => { v with wire := v.wire.drop size } })
      else none
  | .nextReply =>
      match s.loop with
      | .feeding sid => some (nextReply cfg sid s)
      | _ => none
  | .replyDone =>
      match s.loop with
      | .answered n sid => some { release n s with loop := .feeding sid }
      | _ => none
  | .sweepTimeout now =>
      if s.loop = .idle ∧ s.clock ≤ now then some (sweepTimeout now { s with clock := now }) else none
  | .sweepNext =>
      match s.loop with
      | .sweeping [] => some { s with loop := .idle }
      | .sweeping (n :: left) => some { settle n none .timeout s with loop := .sweeping left }
      | _ => none
  | .failNext =>
      match s.loop with
      | .failing (n :: left) status after => some (failNext n left status after s)
      | _ => none
  | .failRelease =>
      match s.loop with
      | .failed n left status after => some { release n s with loop := .failing left status after }
      | _ => none
  | .failDone =>
      match s.loop with
      | .failing [] _ after => some (failDone after s)
      | _ => none
  | .connect => if s.loop = .idle then some (connect s) else none
  | .disconnect sid => if s.loop = .idle then some (disconnect sid s) else none
  | .stop =>
      if s.loop = .idle ∧ s.stopRequested then some (failAll .disconnected .stopped s) else none
  | .serverReply sid x =>
      if (s.session sid).replies.length < (s.session sid).line.sent.length then
        some { s with sessions := s.sessions.modify sid fun v =>
          { v with replies := v.replies ++ [x], wire := v.wire ++ cfg.hiredis.encode x } }
      else none

/-- What a step can do, with what enables it. -/
inductive Stepped (cfg : Config ρ) (s : State ρ) : State ρ → Prop
  | call (arguments : List (List UInt8)) :
      Stepped cfg s (newCall { arguments := arguments, caller := .created } s)
  | callSync (arguments : List (List UInt8)) :
      Stepped cfg s
        { newCall { arguments := arguments, synchronous := true, caller := .blocked } s with
          posted := s.posted ++ [s.issued] }
  | awaitStop (n : Nat) (h : (s.call n).caller = .created) : Stepped cfg s (setCaller n .resumed s)
  | await (n : Nat) (h : (s.call n).caller = .created) :
      Stepped cfg s { setCaller n .posted s with posted := s.posted ++ [n] }
  | gateReady (n : Nat) (h : (s.call n).caller = .posted) (hgate : (s.call n).gate = .ready) :
      Stepped cfg s (setCaller n .resumed s)
  | suspend (n : Nat) (h : (s.call n).caller = .posted) (hgate : (s.call n).gate ≠ .ready) :
      Stepped cfg s (suspend n s)
  | resume (n : Nat) (h : (s.call n).caller = .suspended) (hsch : (s.call n).scheduled = true) :
      Stepped cfg s (setCaller n .resumed s)
  | syncReturn (n : Nat) (h : (s.call n).caller = .blocked) (hr : (s.call n).ready = true) :
      Stepped cfg s (release n (setCaller n .gone s))
  | syncStop (n : Nat) (h : (s.call n).caller = .blocked) (hsub : (s.call n).submitted = true)
      (hloop : s.loop = .idle) :
      Stepped cfg s (release n (setCaller n .gone (settle n none .disconnected s)))
  | destroy (n : Nat) (h : (s.call n).caller = .created ∨ (s.call n).caller = .resumed) :
      Stepped cfg s (release n (setCaller n .gone s))
  | requestStop : Stepped cfg s { s with stopRequested := true }
  | submit (n : Nat) (rest : List Nat) (now : Nat) (env : SendEnv) (hloop : s.loop = .idle)
      (hp : s.posted = n :: rest) (hnow : s.clock ≤ now) :
      Stepped cfg s (submit cfg n now env { s with posted := rest, clock := now })
  | submitDone (n : Nat) (hloop : s.loop = .submitting n) :
      Stepped cfg s { release n s with loop := .idle }
  | feed (sid size : Nat) (hloop : s.loop = .idle) :
      Stepped cfg s (feed sid ((s.session sid).wire.take size)
        { s with sessions := s.sessions.modify sid fun v => { v with wire := v.wire.drop size } })
  | nextReply (sid : Nat) (hloop : s.loop = .feeding sid) : Stepped cfg s (nextReply cfg sid s)
  | replyDone (n sid : Nat) (hloop : s.loop = .answered n sid) :
      Stepped cfg s { release n s with loop := .feeding sid }
  | sweepTimeout (now : Nat) (hloop : s.loop = .idle) (hnow : s.clock ≤ now) :
      Stepped cfg s (sweepTimeout now { s with clock := now })
  | sweepDone (hloop : s.loop = .sweeping []) : Stepped cfg s { s with loop := .idle }
  | sweepNext (n : Nat) (left : List Nat) (hloop : s.loop = .sweeping (n :: left)) :
      Stepped cfg s { settle n none .timeout s with loop := .sweeping left }
  | failNext (n : Nat) (left : List Nat) (status : Status) (after : After)
      (hloop : s.loop = .failing (n :: left) status after) :
      Stepped cfg s (failNext n left status after s)
  | failRelease (n : Nat) (left : List Nat) (status : Status) (after : After)
      (hloop : s.loop = .failed n left status after) :
      Stepped cfg s { release n s with loop := .failing left status after }
  | failDone (status : Status) (after : After) (hloop : s.loop = .failing [] status after) :
      Stepped cfg s (failDone after s)
  | connect (hloop : s.loop = .idle) : Stepped cfg s (connect s)
  | disconnect (sid : Nat) (hloop : s.loop = .idle) : Stepped cfg s (disconnect sid s)
  | stop (hloop : s.loop = .idle) : Stepped cfg s (failAll .disconnected .stopped s)
  | serverReply (sid : Nat) (x : ρ)
      (h : (s.session sid).replies.length < (s.session sid).line.sent.length) :
      Stepped cfg s { s with sessions := s.sessions.modify sid fun v =>
        { v with replies := v.replies ++ [x], wire := v.wire ++ cfg.hiredis.encode x } }

theorem stepped {cfg : Config ρ} {s s' : State ρ} {e : Event ρ} (h : step cfg s e = some s') :
    Stepped cfg s s' := by
  cases e with
  | call arguments =>
    obtain rfl := Option.some.inj h
    exact .call arguments
  | callSync arguments =>
    unfold step at h
    dsimp only at h
    split at h
    · cases h
    · obtain rfl := Option.some.inj h
      exact .callSync arguments
  | await n =>
    obtain ⟨_, h⟩ := Option.ite_none_right_eq_some.1 h
    split at h
    · obtain rfl := Option.some.inj h
      exact .awaitStop n ‹_›
    · obtain rfl := Option.some.inj h
      exact .await n ‹_›
  | gateWait n =>
    obtain ⟨_, h⟩ := Option.ite_none_right_eq_some.1 h
    split at h
    · obtain rfl := Option.some.inj h
      exact .gateReady n ‹_› ‹_›
    · obtain rfl := Option.some.inj h
      exact .suspend n ‹_› ‹_›
  | resume n =>
    obtain ⟨hn, rfl⟩ := Runs.of_guard h
    exact .resume n hn.1 hn.2
  | syncReturn n =>
    obtain ⟨hn, rfl⟩ := Runs.of_guard h
    exact .syncReturn n hn.1 hn.2
  | syncStop n =>
    obtain ⟨hn, rfl⟩ := Runs.of_guard h
    exact .syncStop n hn.1 hn.2.1 hn.2.2.2
  | destroy n =>
    obtain ⟨hn, rfl⟩ := Runs.of_guard h
    exact .destroy n hn
  | requestStop =>
    obtain rfl := Option.some.inj h
    exact .requestStop
  | submit now env =>
    unfold step at h
    dsimp only at h
    split at h
    · split at h
      · obtain rfl := Option.some.inj h
        exact .submit _ _ now env ‹_› ‹_› ‹_›
      · cases h
    · cases h
  | submitDone =>
    unfold step at h
    dsimp only at h
    split at h
    · obtain rfl := Option.some.inj h
      exact .submitDone _ ‹_›
    · cases h
  | feed sid size =>
    obtain ⟨hn, rfl⟩ := Runs.of_guard h
    exact .feed sid size hn
  | nextReply =>
    unfold step at h
    dsimp only at h
    split at h
    · obtain rfl := Option.some.inj h
      exact .nextReply _ ‹_›
    · cases h
  | replyDone =>
    unfold step at h
    dsimp only at h
    split at h
    · obtain rfl := Option.some.inj h
      exact .replyDone _ _ ‹_›
    · cases h
  | sweepTimeout now =>
    obtain ⟨hn, rfl⟩ := Runs.of_guard h
    exact .sweepTimeout now hn.1 hn.2
  | sweepNext =>
    unfold step at h
    dsimp only at h
    split at h
    · obtain rfl := Option.some.inj h
      exact .sweepDone ‹_›
    · obtain rfl := Option.some.inj h
      exact .sweepNext _ _ ‹_›
    · cases h
  | failNext =>
    unfold step at h
    dsimp only at h
    split at h
    · obtain rfl := Option.some.inj h
      exact .failNext _ _ _ _ ‹_›
    · cases h
  | failRelease =>
    unfold step at h
    dsimp only at h
    split at h
    · obtain rfl := Option.some.inj h
      exact .failRelease _ _ _ _ ‹_›
    · cases h
  | failDone =>
    unfold step at h
    dsimp only at h
    split at h
    · obtain rfl := Option.some.inj h
      exact .failDone _ _ ‹_›
    · cases h
  | connect =>
    obtain ⟨hn, rfl⟩ := Runs.of_guard h
    exact .connect hn
  | disconnect sid =>
    obtain ⟨hn, rfl⟩ := Runs.of_guard h
    exact .disconnect sid hn
  | stop =>
    obtain ⟨hn, rfl⟩ := Runs.of_guard h
    exact .stop hn.1
  | serverReply sid x =>
    obtain ⟨hn, rfl⟩ := Runs.of_guard h
    exact .serverReply sid x hn

/-! ## A reader of small integers -/

/-- The digit of a byte. -/
def digit (b : UInt8) : Option (Fin 10) :=
  if h : 48 ≤ b.toNat ∧ b.toNat < 58 then some ⟨b.toNat - 48, by omega⟩ else none

/-- The byte of a digit. -/
def digitByte (x : Fin 10) : UInt8 := UInt8.ofNat (48 + x.val)

/-- An integer reply of one digit, as `:7` and the end of the line. -/
def encodeDigit (x : Fin 10) : List UInt8 := [58, digitByte x, 13, 10]

/-- hiredis on such replies. -/
def parseDigit : List UInt8 → Parsed UInt8 (Fin 10)
  | [] => .more
  | [58] => .more
  | [58, b] => if (digit b).isSome then .more else .error
  | [58, b, 13] => if (digit b).isSome then .more else .error
  | 58 :: b :: 13 :: 10 :: rest =>
      match digit b with
      | some x => .message x rest
      | none => .error
  | _ => .error

theorem digit_digitByte (x : Fin 10) : digit (digitByte x) = some x := by
  revert x
  decide

/-- A part of a reply has at most three bytes. -/
theorem parseDigit_part {x : Fin 10} {pre suf : List UInt8} (h : encodeDigit x = pre ++ suf)
    (hsuf : suf ≠ []) : parseDigit pre = .more := by
  have hpre : pre = (encodeDigit x).take pre.length := by
    rw [h, List.take_left]
  have hlt : pre.length < 4 := by
    have hlen := congrArg List.length h
    have hpos : 0 < suf.length := List.length_pos_of_ne_nil hsuf
    rw [List.length_append, show (encodeDigit x).length = 4 from rfl] at hlen
    omega
  have hall : ∀ y : Fin 10, ∀ k < 4, parseDigit ((encodeDigit y).take k) = .more := by
    decide
  rw [hpre]
  exact hall x _ hlt

/-- The reader of replies of one digit. -/
def digits : StreamParser UInt8 (Fin 10) where
  parse := parseDigit
  encode := encodeDigit
  parse_nil := rfl
  parse_encode := by
    intro x rest
    simp only [encodeDigit, parseDigit, List.cons_append, List.nil_append, digit_digitByte]
  parse_part := fun _ _ _ h hsuf => parseDigit_part h hsuf

/-- A client with a timeout of ten milliseconds. -/
def smallClient : Config (Fin 10) where
  hiredis := digits
  isError := fun _ => false
  timeoutMs := 10
  maxPending := 4
  timeout_pos := by decide
  maxPending_pos := by decide

/-- Two calls are sent.  The first one times out; then both replies come, cut in the middle of the
second. -/
def lateReply : List (Event (Fin 10)) :=
  [.connect, .failDone, .call [[71]], .await 0, .submit 0 {}, .submitDone, .gateWait 0,
    .call [[72]], .await 1, .submit 5 {}, .gateWait 1, .submitDone,
    .sweepTimeout 12, .sweepNext, .sweepNext, .resume 0, .serverReply 0 3, .serverReply 0 4,
    .destroy 0, .feed 0 6, .nextReply, .replyDone, .nextReply, .feed 0 2, .nextReply, .resume 1,
    .destroy 1, .replyDone, .nextReply]

end OpenIdea.Redis.Client

import OpenIdea.Net.SendQueue

/-!
# Which events a channel is watched for (oi_channel.cpp, oi_poll.cpp, oi_session.cpp)

A channel has the mask of the events that it wants (`iEventMask`), and once it is attached to the
loop an `IoWatch` has the mask that the loop uses. Any thread changes the first, under the channel's
lock (`AllowSend`, `AllowRead`, `ForbidRead`; `ForbidSend` is called on the poll thread only, by
`SendDrained`). The poll thread changes the second in the same call; the others post an `IO_OP_MOD`
for it, and where the watch is not attached yet they leave the rest to the `IO_OP_ADD` in the queue.

The model has one channel with its session. A thread other than the poll thread that is in one of
these functions is a `Task`; the poll thread is `PollTask`. The two locks are flags. A session's
buffers and its `SendResult` are those of `SendQueue`. Every step that meets the condition `Timely`
keeps the invariant (`wf_step`), so that no wake-up is lost (`watched`); a message that is sent just
before the loop attaches the channel is (`lost_sentDuringAdd`).
-/

set_option autoImplicit false

namespace OpenIdea.Net.EventMask

open OpenIdea.Base OpenIdea.Lib.Runs
open OpenIdea.Net.SendQueue (Session Code sendResult_cases swapOutBuff_spec)

/-- The bits `IO_EV_READ` and `IO_EV_WRITE` of a mask. -/
structure Mask where
  read : Bool
  write : Bool
  deriving DecidableEq, Repr

/-- `pPollToken` -/
inductive Token where
  | null
  /-- `POLL_PENDING` -/
  | pending
  /-- `POLL_DROPPED` -/
  | dropped
  | watch
  deriving DecidableEq, Repr

/-- What the poll thread uses of an `IoWatch`. -/
structure Watch where
  iMask : Mask
  /-- `stPoll.data` is not null. -/
  bData : Bool
  deriving DecidableEq, Repr

/-- An operation in the queue of the poll thread. -/
inductive Op where
  | add
  | mod
  | del
  /-- An operation of another channel, `IO_OP_TICK` or `IO_OP_CALL`. -/
  | other
  deriving DecidableEq, Repr

/-- The functions that change the mask of a channel. -/
inductive Change where
  | allowSend
  | forbidSend
  | allowRead
  | forbidRead
  deriving DecidableEq, Repr

/-- `Channel::AllowSend`: the new mask, if there is one. -/
def allowSend (m : Mask) : Option Mask := if m.write then none else some { m with write := true }

/-- `Channel::ForbidSend` -/
def forbidSend (bClosed : Bool) (m : Mask) : Option Mask :=
  if !bClosed && m.write then some { m with write := false } else none

/-- `Channel::AllowRead` -/
def allowRead (bClosed : Bool) (m : Mask) : Option Mask :=
  if !bClosed && !m.read then some { m with read := true } else none

/-- `Channel::ForbidRead` -/
def forbidRead (bClosed : Bool) (m : Mask) : Option Mask :=
  if !bClosed && m.read then some { m with read := false } else none

def Change.mask (bClosed : Bool) (m : Mask) : Change → Option Mask
  | .allowSend => EventMask.allowSend m
  | .forbidSend => EventMask.forbidSend bClosed m
  | .allowRead => EventMask.allowRead bClosed m
  | .forbidRead => EventMask.forbidRead bClosed m

/-- Where a thread other than the poll thread is. `bSession` says that it has the session's lock. -/
inductive Task where
  /-- Before the function takes the channel's lock. -/
  | change (f : Change) (bSession : Bool)
  /-- In `IOEventMod`, before it reads `pPollToken`; it has the channel's lock. -/
  | ioEventMod (bSession : Bool)
  /-- In `IOEventMod`, before `PostOp`; it has the channel's lock. -/
  | postOp (bSession : Bool)
  deriving DecidableEq, Repr

/-- Where the poll thread is. -/
inductive PollTask where
  | idle
  /-- Before `ApplyOp` of an `IO_OP_ADD`. -/
  | add
  /-- In that `ApplyOp`, after it has read `iEventMask`. -/
  | adding (iMask : Mask)
  /-- Before `ApplyOp` of an `IO_OP_MOD`. -/
  | mod
  /-- In the loop of `DataOut`. -/
  | dataOut
  /-- In that loop, before `OnBytesSent`. -/
  | sent (n : ℕ)
  /-- At `write_finish`. -/
  | finish
  /-- In `TryClose`, after `DetachChannel`. -/
  | detached
  deriving DecidableEq, Repr

structure State where
  stSession : Session
  /-- The output buffer of the channel. -/
  stOutputBuffer : Bytes
  /-- `pChannel` of the session is not null. -/
  bChannel : Bool
  /-- The channel has been given to `IOEventRegister`; the session is known to others after that. -/
  bRegistered : Bool
  /-- A thread other than the poll thread has the session's lock. -/
  sessionLock : Bool
  /-- One has the channel's lock. -/
  channelLock : Bool
  iEventMask : Mask
  pPollToken : Token
  stWatch : Watch
  ops : List Op
  poll : PollTask
  tasks : List Task

def init : State where
  stSession :=
    { stOutputBuffer := .empty
      iQueuedBytes := 0
      iMaxSendQueueBytes := 64 * 1024 * 1024
      bClosed := false }
  stOutputBuffer := .empty
  bChannel := true
  bRegistered := false
  sessionLock := false
  channelLock := false
  iEventMask := ⟨false, false⟩
  pPollToken := .null
  stWatch := ⟨⟨false, false⟩, false⟩
  ops := []
  poll := .idle
  tasks := []

namespace State

def spawn (s : State) (stTask : Task) : State := { s with tasks := stTask :: s.tasks }

/-- The session's lock is given back by a thread that has it. -/
def unlockSession (s : State) (bSession : Bool) : State :=
  if bSession then { s with sessionLock := false } else s

/-- `Session::AllowSend`, `AllowRead` or `ForbidRead` by a thread other than the poll thread, up to
the channel's lock. -/
def call (s : State) (f : Change) (bSession : Bool) : State :=
  if s.bChannel then s.spawn (.change f bSession) else s.unlockSession bSession

/-- The poll thread may take both locks. -/
def free (s : State) : Bool := !s.sessionLock && !s.channelLock

/-- `IOEventMod` on the poll thread. -/
def ioEventMod (s : State) (iNewMask : Mask) : State :=
  let s := { s with iEventMask := iNewMask }
  -- a channel that is not attached gets its mask from the `IO_OP_ADD`
  if s.pPollToken = .watch ∧ s.stWatch.bData then
    { s with stWatch := { s.stWatch with iMask := iNewMask } }
  else s

/-- One of the four functions on the poll thread. -/
def change (s : State) (f : Change) : State :=
  if s.bChannel then
    match f.mask s.stSession.bClosed s.iEventMask with
    | none => s
    | some iNewMask => s.ioEventMod iNewMask
  else s

/-- `NetSession::Close` on the poll thread. -/
def close (s : State) : State :=
  if s.stSession.bClosed then s
  else { s with stSession := { s.stSession with bClosed := true } }.change .allowSend

/-- `Session::SendDrained` -/
def sendDrained (s : State) : State :=
  if s.stSession.stOutputBuffer.size = 0 then s.change .forbidSend else s

/-- `IOEventUnRegister` on the poll thread. -/
def ioEventUnRegister (s : State) : State :=
  match s.pPollToken with
  | .null | .dropped => s
  -- the `IO_OP_ADD` is still in the queue, and will find this
  | .pending => { s with pPollToken := .dropped }
  | .watch =>
      { s with
        pPollToken := .null
        stWatch := { s.stWatch with bData := false }
        ops := s.ops ++ [Op.del] }

/-- The rest of `ApplyOp` of an `IO_OP_ADD`. -/
def attach (s : State) (iMask : Mask) (bInit : Bool) : State :=
  if bInit then { s with stWatch := ⟨iMask, true⟩, pPollToken := .watch }
  else { s with pPollToken := .null }

/-- `ApplyOp` of an `IO_OP_MOD`. -/
def applyMod (s : State) : State :=
  if s.stWatch.bData then { s with stWatch := { s.stWatch with iMask := s.iEventMask } } else s

/-- `DrainOps` takes an operation out of the queue. -/
def popOp (s : State) : Option State :=
  match s.ops with
  | [] => none
  | .add :: ops => some { s with ops := ops, poll := .add }
  | .mod :: ops => some { s with ops := ops, poll := .mod }
  -- these do not touch what the model has
  | .del :: ops | .other :: ops => some { s with ops := ops }

end State

/-- The next step of a task, which has been taken off the list. `none` where it waits for a lock. -/
def runTask (s : State) : Task → Option State
  | .change f bSession =>
      if s.channelLock then none
      else
        match f.mask s.stSession.bClosed s.iEventMask with
        | none => some (s.unlockSession bSession)
        | some iNewMask =>
            some ({ s with iEventMask := iNewMask, channelLock := true }.spawn
              (.ioEventMod bSession))
  | .ioEventMod bSession =>
      if s.pPollToken = .watch then some (s.spawn (.postOp bSession))
      else some ({ s with channelLock := false }.unlockSession bSession)
  | .postOp bSession =>
      some ({ s with ops := s.ops ++ [Op.mod], channelLock := false }.unlockSession bSession)

/-- What can happen. -/
inductive Event where
  /-- `IOEventRegister` of another thread. -/
  | ioEventRegister (bAllowRead bAllowWrite : Bool)
  /-- `IOEventRegister` of the poll thread; `uv_poll_init_socket` may fail. -/
  | ioEventRegisterInLoop (bAllowRead bAllowWrite bInit : Bool)
  | sendResult (stBytes : Bytes) (bMalloc : Bool)
  | setSendQueueLimit (iBytes : ℕ)
  /-- `ActiveClose`, or `PassiveClose` of another thread. -/
  | close
  /-- `AllowRead` or `ForbidRead` of another thread, with the session's lock or without it. -/
  | change (f : Change) (bSession : Bool)
  | run (stTask : Task)
  /-- Somebody posts an operation that is not about the channel. -/
  | postOther
  | popOp
  /-- `ApplyOp` of an `IO_OP_ADD`, up to its read of `iEventMask`. -/
  | applyAdd
  /-- The rest of it; `uv_poll_init_socket` may fail. -/
  | attach (bInit : Bool)
  | applyMod
  /-- `AllowRead` or `ForbidRead` on the poll thread, in `DataIn`. -/
  | changeInLoop (f : Change)
  /-- `PassiveClose` on the poll thread. -/
  | passiveClose
  /-- `DataOut` begins with `SwapOutBuff`. -/
  | dataOut (bMalloc : Bool)
  /-- `NetOs_Send` returns `n`, and the bytes are erased. -/
  | socketTakes (n : ℕ)
  | onBytesSent
  /-- `NetOs_Send` fails with `EAGAIN`, or nothing is left. -/
  | loopEnds
  /-- `write_finish` -/
  | finish
  /-- `TryClose` of a closed session, up to `DetachChannel`. -/
  | tryClose
  | ioEventUnRegister

/-- `AllowRead` or `ForbidRead`. -/
def Change.reads : Change → Bool
  | .allowRead | .forbidRead => true
  | _ => false

/-- One step; `none` where the event cannot happen. -/
def step (s : State) : Event → Option State
  | .ioEventRegister bAllowRead bAllowWrite =>
      if s.bRegistered then none
      else some { s with
        bRegistered := true
        iEventMask := ⟨bAllowRead, bAllowWrite⟩
        pPollToken := .pending
        ops := s.ops ++ [Op.add] }
  | .ioEventRegisterInLoop bAllowRead bAllowWrite bInit =>
      if s.bRegistered ∨ s.poll ≠ .idle then none
      else some ({ s with
        bRegistered := true
        iEventMask := ⟨bAllowRead, bAllowWrite⟩ }.attach ⟨bAllowRead, bAllowWrite⟩ bInit)
  | .sendResult stBytes bMalloc =>
      if !s.bRegistered || s.sessionLock then none
      else
        match s.stSession.sendResult stBytes bMalloc with
        -- the exception leaves the buffer and the count as they were
        | none => some s
        | some (.OI_OK, stSession) =>
            some ({ s with stSession := stSession, sessionLock := true }.call .allowSend true)
        | some (_, stSession) => some { s with stSession := stSession }
  | .setSendQueueLimit iBytes =>
      if s.sessionLock then none
      else some { s with stSession := { s.stSession with iMaxSendQueueBytes := iBytes } }
  | .close =>
      if !s.bRegistered || s.sessionLock then none
      -- only the first close wakes the poll thread
      else if s.stSession.bClosed then some s
      else
        some ({ s with
          stSession := { s.stSession with bClosed := true }
          sessionLock := true }.call .allowSend true)
  | .change f bSession =>
      if !s.bRegistered || !f.reads || (bSession && s.sessionLock) then none
      else some ({ s with sessionLock := s.sessionLock || bSession }.call f bSession)
  | .run stTask =>
      if stTask ∈ s.tasks then runTask { s with tasks := s.tasks.erase stTask } stTask else none
  | .postOther => some { s with ops := s.ops ++ [Op.other] }
  | .popOp => if s.poll = .idle then s.popOp else none
  | .applyAdd =>
      if s.poll ≠ .add then none
      -- `IOEventUnRegister` came first
      else if s.pPollToken = .dropped then some { s with pPollToken := .null, poll := .idle }
      else some { s with poll := .adding s.iEventMask }
  | .attach bInit =>
      match s.poll with
      | .adding iMask => some ({ s with poll := .idle }.attach iMask bInit)
      | _ => none
  | .applyMod => if s.poll = .mod then some { s.applyMod with poll := .idle } else none
  | .changeInLoop f =>
      if s.poll = .idle ∧ f.reads ∧ !s.channelLock then some (s.change f) else none
  | .passiveClose =>
      if (s.poll = .idle ∨ s.poll = .dataOut) ∧ s.free then some { s.close with poll := .idle }
      else none
  | .dataOut bMalloc =>
      if s.poll = .idle ∧ s.pPollToken = .watch ∧ !s.sessionLock then
        match s.stSession.swapOutBuff s.stOutputBuffer bMalloc with
        | none => some s
        | some (stSession, stOutputBuffer) =>
            some { s with
              stSession := stSession, stOutputBuffer := stOutputBuffer, poll := .dataOut }
      else none
  | .socketTakes n =>
      if s.poll = .dataOut ∧ 0 < n ∧ n ≤ s.stOutputBuffer.size then
        some { s with stOutputBuffer := s.stOutputBuffer.erase 0 n, poll := .sent n }
      else none
  | .onBytesSent =>
      match s.poll with
      | .sent n =>
          if s.sessionLock then none
          else some { s with stSession := s.stSession.onBytesSent n, poll := .dataOut }
      | _ => none
  | .loopEnds => if s.poll = .dataOut then some { s with poll := .finish } else none
  | .finish =>
      if s.poll ≠ .finish then none
      -- the socket has not taken all of it
      else if s.stOutputBuffer.size ≠ 0 then some { s with poll := .idle }
      else if s.free then some { s.sendDrained with poll := .idle }
      else none
  | .tryClose =>
      if s.poll = .idle ∧ s.stSession.bClosed ∧ !s.sessionLock then
        some { s with bChannel := false, poll := .detached }
      else none
  | .ioEventUnRegister =>
      if s.poll = .idle ∨ s.poll = .detached then some { s.ioEventUnRegister with poll := .idle }
      else none

/-! ## What may not be lost

While nobody is in the middle of a change, the channel of an open session with output asks for
writing, and the loop watches for what the channel asks, or has an `IO_OP_MOD` to come. -/

/-- There are bytes to send. -/
def State.HasOutput (s : State) : Prop :=
  s.stSession.stOutputBuffer.size ≠ 0 ∨ s.stOutputBuffer.size ≠ 0

/-- No thread is in one of the functions. -/
def State.Idle (s : State) : Prop := s.tasks = [] ∧ s.poll = .idle

/-- **No write wake-up is lost.** The three parts are about a moment at which no step is in
progress. -/
structure Watched (s : State) : Prop where
  write : s.Idle → s.stSession.bClosed = false → s.HasOutput → s.iEventMask.write = true
  mods : s.Idle → s.pPollToken = .watch → s.stWatch.iMask ≠ s.iEventMask → Op.mod ∈ s.ops
  drained : s.Idle → s.ops = [] → s.pPollToken = .watch → s.stWatch.iMask = s.iEventMask

/-- **The condition on a step.** A thread that reads `pPollToken` in `IOEventMod` while the poll
thread is between the two halves of an `IO_OP_ADD` finds the mask that the poll thread has read. -/
def Timely (s : State) : Event → Prop
  | .run (.ioEventMod _) =>
      match s.poll with
      | .adding iMask => s.iEventMask = iMask
      | _ => True
  | _ => True

instance decidableTimely (s : State) (e : Event) : Decidable (Timely s e) := by
  unfold Timely
  split
  · split <;> infer_instance
  · infer_instance

/-! ## The invariant -/

/-- Somebody has changed the mask and has not come to the end of `IOEventMod`. -/
def State.Changing (s : State) : Prop :=
  ∃ bSession, Task.ioEventMod bSession ∈ s.tasks ∨ Task.postOp bSession ∈ s.tasks

/-- **The invariant.** Where the mask of the watch is not the channel's, one of those who will make
it so is still to come: a thread in `IOEventMod`, a queued operation or the poll thread. -/
structure Wf (s : State) : Prop where
  channel : s.stSession.bClosed = false → s.bChannel = true
  /-- Before the registration nothing can be sent and the queue has no `IO_OP_ADD`. -/
  fresh : s.bRegistered = false →
    ¬ s.HasOutput ∧ Op.add ∉ s.ops ∧ s.poll ≠ .add ∧ ∀ iMask, s.poll ≠ .adding iMask
  /-- `ForbidSend` is for the poll thread. -/
  worker : ∀ bSession, Task.change .forbidSend bSession ∉ s.tasks
  write : s.stSession.bClosed = false → s.HasOutput →
    s.iEventMask.write = true ∨ Task.change .allowSend true ∈ s.tasks
  data : s.pPollToken = .watch → s.stWatch.bData = true
  mods : s.pPollToken = .watch →
    s.stWatch.iMask = s.iEventMask ∨ s.Changing ∨ Op.mod ∈ s.ops ∨ s.poll = .mod
  adding : ∀ iMask, s.poll = .adding iMask →
    iMask = s.iEventMask ∨ ∃ bSession, Task.ioEventMod bSession ∈ s.tasks

theorem wf_init : Wf init where
  channel _ := rfl
  fresh _ := by
    refine ⟨?_, List.not_mem_nil, PollTask.noConfusion, fun _ => PollTask.noConfusion⟩
    rintro (h | h) <;> exact h rfl
  worker _ := List.not_mem_nil
  write _ hout := by rcases hout with h | h <;> exact absurd rfl h
  data htoken := Token.noConfusion htoken
  mods htoken := Token.noConfusion htoken
  adding _ hpoll := PollTask.noConfusion hpoll

variable {s s' : State} {stSession : Session} {bMalloc bSession : Bool} {f : Change}

theorem watched_of_wf (h : Wf s) : Watched s := by
  have hmods : s.Idle → s.pPollToken = .watch → s.stWatch.iMask ≠ s.iEventMask →
      Op.mod ∈ s.ops := by
    rintro ⟨htasks, hpoll⟩ htoken hne
    rcases h.mods htoken with heq | ⟨bSession, hmem⟩ | hmem | hmod
    · exact absurd heq hne
    · rw [htasks] at hmem
      rcases hmem with hmem | hmem <;> exact absurd hmem List.not_mem_nil
    · exact hmem
    · rw [hpoll] at hmod
      cases hmod
  refine ⟨?_, hmods, ?_⟩
  · -- the thread that would set the bit would still be a task
    rintro ⟨htasks, -⟩ hopen hout
    rcases h.write hopen hout with hwrite | hmem
    · exact hwrite
    · rw [htasks] at hmem
      exact absurd hmem List.not_mem_nil
  · intro hidle hops htoken
    by_contra hne
    have hmem := hmods hidle htoken hne
    rw [hops] at hmem
    exact absurd hmem List.not_mem_nil

/-! ## What the steps keep -/

/-- Where the poll thread may go without touching a mask: not into an operation, and not out of
`IO_OP_MOD`. -/
def Passes (poll poll' : PollTask) : Prop :=
  poll' = poll ∨ poll ≠ .mod ∧ poll' ≠ .add ∧ ∀ iMask, poll' ≠ .adding iMask

/-- A step of the session or of the poll thread that leaves the masks and the queue alone. -/
theorem wf_session (h : Wf s) {stOutputBuffer : Bytes} {bChannel sessionLock : Bool}
    {poll : PollTask}
    (hout : stSession.stOutputBuffer.size ≠ 0 ∨ stOutputBuffer.size ≠ 0 → s.HasOutput)
    (hclosed : stSession.bClosed = false → s.stSession.bClosed = false ∧ bChannel = s.bChannel)
    (hpoll : Passes s.poll poll) :
    Wf { s with
      stSession := stSession, stOutputBuffer := stOutputBuffer, bChannel := bChannel
      sessionLock := sessionLock, poll := poll } where
  channel hopen := by
    obtain ⟨hopen, hchannel⟩ := hclosed hopen
    exact hchannel.trans (h.channel hopen)
  fresh hreg := by
    obtain ⟨hnone, hadd, hpoll₁, hpoll₂⟩ := h.fresh hreg
    refine ⟨fun hsome => hnone (hout hsome), hadd, ?_⟩
    -- the poll thread has not gone into an operation
    rcases hpoll with hsame | ⟨-, h₁, h₂⟩
    · rw [hsame]
      exact ⟨hpoll₁, hpoll₂⟩
    · exact ⟨h₁, h₂⟩
  worker := h.worker
  write hopen hsome := h.write (hclosed hopen).1 (hout hsome)
  data := h.data
  mods htoken := by
    rcases h.mods htoken with heq | hchanging | hmem | hmod
    · exact Or.inl heq
    · exact Or.inr (Or.inl hchanging)
    · exact Or.inr (Or.inr (Or.inl hmem))
    · rcases hpoll with hsame | ⟨hne, -⟩
      · exact Or.inr (Or.inr (Or.inr (hsame.trans hmod)))
      · -- an `IO_OP_MOD` under way is not left by this step
        exact absurd hmod hne
  adding iMask hadding := by
    rcases hpoll with hsame | ⟨-, -, hne⟩
    · exact h.adding iMask (hsame.symm.trans hadding)
    · exact absurd hadding (hne iMask)

theorem wf_poll (h : Wf s) {poll : PollTask} (hpoll : Passes s.poll poll) :
    Wf { s with poll := poll } :=
  wf_session h id (fun hopen => ⟨hopen, rfl⟩) hpoll

theorem wf_unlockSession (h : Wf s) (bSession : Bool) : Wf (s.unlockSession bSession) := by
  rw [State.unlockSession]
  split
  · exact wf_session h id (fun hopen => ⟨hopen, rfl⟩) (Or.inl rfl)
  · exact h

/-- A task that is not `ForbidSend` begins. -/
theorem wf_spawn (h : Wf s) {stTask : Task}
    (htask : ∀ bSession, stTask ≠ .change .forbidSend bSession) : Wf (s.spawn stTask) where
  channel := h.channel
  fresh := h.fresh
  worker bSession hmem := by
    rcases List.mem_cons.1 hmem with heq | hmem
    · exact htask bSession heq.symm
    · exact h.worker bSession hmem
  write hopen hout := (h.write hopen hout).imp_right (List.mem_cons_of_mem _)
  data := h.data
  mods htoken := by
    rcases h.mods htoken with heq | ⟨bSession, hmem⟩ | hrest
    · exact Or.inl heq
    · exact Or.inr (Or.inl ⟨bSession,
        hmem.imp (List.mem_cons_of_mem _) (List.mem_cons_of_mem _)⟩)
    · exact Or.inr (Or.inr hrest)
  adding iMask hadding := by
    rcases h.adding iMask hadding with heq | ⟨bSession, hmem⟩
    · exact Or.inl heq
    · exact Or.inr ⟨bSession, List.mem_cons_of_mem _ hmem⟩

theorem wf_call (h : Wf s) (hf : f ≠ .forbidSend) : Wf (s.call f bSession) := by
  rw [State.call]
  split
  · refine wf_spawn h fun _ heq => hf ?_
    cases heq
    rfl
  · exact wf_unlockSession h _

/-- An operation is posted that is no `IO_OP_ADD`. -/
theorem wf_post (h : Wf s) (op : Op) (hop : op ≠ .add) : Wf { s with ops := s.ops ++ [op] } where
  channel := h.channel
  fresh hreg := by
    obtain ⟨hnone, hadd, hpoll⟩ := h.fresh hreg
    refine ⟨hnone, ?_, hpoll⟩
    intro hmem
    rcases List.mem_append.1 hmem with hmem | hmem
    · exact hadd hmem
    · exact hop (List.mem_singleton.1 hmem).symm
  worker := h.worker
  write := h.write
  data := h.data
  mods htoken := by
    rcases h.mods htoken with heq | hchanging | hmem | hmod
    · exact Or.inl heq
    · exact Or.inr (Or.inl hchanging)
    · exact Or.inr (Or.inr (Or.inl (List.mem_append_left _ hmem)))
    · exact Or.inr (Or.inr (Or.inr hmod))
  adding := h.adding

/-- A message has been taken: the thread that sent it is on its way to the mask. -/
theorem wf_accept (h : Wf s) (hreg : s.bRegistered = true) (hopen : s.stSession.bClosed = false) :
    Wf ({ s with stSession := stSession, sessionLock := true }.call .allowSend true) := by
  have hchannel := h.channel hopen
  have hspawn : Wf (s.spawn (.change .allowSend true)) := wf_spawn h (by
    intro _ heq
    cases heq)
  rw [State.call, if_pos hchannel]
  exact {
    channel := fun _ => hchannel
    fresh := fun hfresh => absurd (hreg.symm.trans hfresh) Bool.noConfusion
    worker := hspawn.worker
    write := fun _ _ => Or.inr List.mem_cons_self
    data := h.data
    mods := hspawn.mods
    adding := hspawn.adding }

/-! ## Changes of the mask -/

variable {iNewMask : Mask}

/-- None of the four functions sets the bits of the other. -/
theorem change_write {bClosed : Bool} {m : Mask} (hf : f ≠ .forbidSend)
    (hmask : f.mask bClosed m = some iNewMask) : m.write = true → iNewMask.write = true := by
  intro hwrite
  cases f with
  | forbidSend => exact absurd rfl hf
  | allowSend =>
    simp only [Change.mask, allowSend, hwrite, if_true] at hmask
    cases hmask
  | allowRead =>
    simp only [Change.mask, allowRead] at hmask
    obtain ⟨_, hmask⟩ := Option.ite_none_right_eq_some.1 hmask
    rw [← Option.some.inj hmask]
    exact hwrite
  | forbidRead =>
    simp only [Change.mask, forbidRead] at hmask
    obtain ⟨_, hmask⟩ := Option.ite_none_right_eq_some.1 hmask
    rw [← Option.some.inj hmask]
    exact hwrite

/-- `AllowSend` leaves the bit set. -/
theorem allowSend_write (m : Mask) : ((allowSend m).getD m).write = true := by
  rw [allowSend]
  split
  · assumption
  · rfl

/-- `IOEventMod` on the poll thread, outside of an `IO_OP_ADD`: the watch gets the new mask. -/
theorem wf_ioEventMod (h : Wf s) (hpoll : ∀ iMask, s.poll ≠ .adding iMask)
    (hwrite : s.stSession.bClosed = false → s.HasOutput →
      iNewMask.write = true ∨ Task.change .allowSend true ∈ s.tasks) :
    Wf (s.ioEventMod iNewMask) := by
  rw [State.ioEventMod]
  dsimp only
  split
  · exact { h with
      write := hwrite
      mods := fun _ => Or.inl rfl
      adding := fun iMask hadding => absurd hadding (hpoll iMask) }
  · rename_i hno
    exact { h with
      write := hwrite
      mods := fun htoken => absurd ⟨htoken, h.data htoken⟩ hno
      adding := fun iMask hadding => absurd hadding (hpoll iMask) }

/-- One of the functions on the poll thread; `ForbidSend` where there is nothing to send. -/
theorem wf_change (h : Wf s) (hpoll : ∀ iMask, s.poll ≠ .adding iMask)
    (hf : f = .forbidSend → ¬ s.HasOutput) : Wf (s.change f) := by
  rw [State.change]
  split
  · split
    · exact h
    · rename_i iNewMask hmask
      refine wf_ioEventMod h hpoll fun hopen hout => ?_
      exact (h.write hopen hout).imp_left
        (change_write (fun heq => hf heq hout) hmask)
  · exact h

theorem wf_close (h : Wf s) (hpoll : ∀ iMask, s.poll ≠ .adding iMask) : Wf s.close := by
  rw [State.close]
  split
  · exact h
  · have hclosed : Wf { s with stSession := { s.stSession with bClosed := true } } :=
      wf_session h id (fun hopen => Bool.noConfusion hopen) (Or.inl rfl)
    exact wf_change hclosed hpoll fun heq => Change.noConfusion heq

theorem wf_sendDrained (h : Wf s) (hpoll : ∀ iMask, s.poll ≠ .adding iMask)
    (hempty : s.stOutputBuffer.size = 0) : Wf s.sendDrained := by
  rw [State.sendDrained]
  split
  · rename_i hsession
    refine wf_change h hpoll fun _ hout => ?_
    rcases hout with hne | hne
    · exact hne hsession
    · exact hne hempty
  · exact h

theorem wf_ioEventUnRegister (h : Wf s) : Wf s.ioEventUnRegister := by
  rw [State.ioEventUnRegister]
  split
  · exact h
  · exact h
  · exact { h with
      data := fun htoken => Token.noConfusion htoken
      mods := fun htoken => Token.noConfusion htoken }
  · have hpost := wf_post h .del Op.noConfusion
    exact { hpost with
      data := fun htoken => Token.noConfusion htoken
      mods := fun htoken => Token.noConfusion htoken }

/-- `ApplyOp` of an `IO_OP_ADD` ends: the watch has the mask that was read, and somebody is still to
come where the channel has another one by now. -/
theorem wf_attach (h : Wf s) {iMask : Mask} (bInit : Bool)
    (hmask : iMask = s.iEventMask ∨ ∃ bSession, Task.ioEventMod bSession ∈ s.tasks) :
    Wf (s.attach iMask bInit) := by
  rw [State.attach]
  split
  · exact { h with
      data := fun _ => rfl
      mods := fun _ => by
        rcases hmask with heq | ⟨bSession, hmem⟩
        · exact Or.inl heq
        · exact Or.inr (Or.inl ⟨bSession, Or.inl hmem⟩) }
  · exact { h with
      data := fun htoken => Token.noConfusion htoken
      mods := fun htoken => Token.noConfusion htoken }

/-! ## The other threads

A thread that has changed the mask is not done before it has posted an `IO_OP_MOD`, or has found the
channel not attached. -/

/-- A task is taken off the list that is no change of the mask under way. -/
theorem wf_task (h : Wf s)
    (hwrite : Task.change f bSession = .change .allowSend true → s.iEventMask.write = true) :
    Wf { s with tasks := s.tasks.erase (.change f bSession) } where
  channel := h.channel
  fresh := h.fresh
  worker b hmem := h.worker b (List.mem_of_mem_erase hmem)
  write hopen hout := by
    rcases h.write hopen hout with hset | hmem
    · exact Or.inl hset
    · by_cases heq : Task.change f bSession = .change .allowSend true
      · exact Or.inl (hwrite heq)
      · exact Or.inr ((List.mem_erase_of_ne (Ne.symm heq)).2 hmem)
  data := h.data
  mods htoken := by
    rcases h.mods htoken with heq | ⟨b, hmem⟩ | hrest
    · exact Or.inl heq
    · refine Or.inr (Or.inl ⟨b, hmem.imp ?_ ?_⟩)
      · exact (List.mem_erase_of_ne Task.noConfusion).2
      · exact (List.mem_erase_of_ne Task.noConfusion).2
    · exact Or.inr (Or.inr hrest)
  adding iMask hadding := by
    rcases h.adding iMask hadding with heq | ⟨b, hmem⟩
    · exact Or.inl heq
    · exact Or.inr ⟨b, (List.mem_erase_of_ne Task.noConfusion).2 hmem⟩

/-- A thread changes the mask and is then in `IOEventMod`. -/
theorem wf_changed (h : Wf s) (hmem : Task.change f bSession ∈ s.tasks)
    (hmask : f.mask s.stSession.bClosed s.iEventMask = some iNewMask) :
    Wf ({ s with
      tasks := s.tasks.erase (.change f bSession), iEventMask := iNewMask
      channelLock := true }.spawn (.ioEventMod bSession)) where
  channel := h.channel
  fresh := h.fresh
  worker b hb := by
    rcases List.mem_cons.1 hb with heq | hb
    · cases heq
    · exact h.worker b (List.mem_of_mem_erase hb)
  write hopen hout := by
    -- no other thread is in `ForbidSend`, and the rest only add the bit
    have hf : f ≠ .forbidSend := by
      rintro rfl
      exact h.worker _ hmem
    rcases h.write hopen hout with hset | hsend
    · exact Or.inl (change_write hf hmask hset)
    · by_cases heq : Task.change f bSession = .change .allowSend true
      · left
        cases heq
        have hset := allowSend_write s.iEventMask
        rw [show allowSend s.iEventMask = some iNewMask from hmask] at hset
        exact hset
      · exact Or.inr (List.mem_cons_of_mem _ ((List.mem_erase_of_ne (Ne.symm heq)).2 hsend))
  data := h.data
  mods _ := Or.inr (Or.inl ⟨bSession, Or.inl List.mem_cons_self⟩)
  adding _ _ := Or.inr ⟨bSession, List.mem_cons_self⟩

/-- A thread in `IOEventMod` has read `pPollToken`: there is a watch and it will post, or there is
none and the poll thread has the mask. -/
theorem wf_readToken (h : Wf s) (bSession : Bool)
    (htimely : ∀ iMask, s.poll = .adding iMask → s.iEventMask = iMask) :
    Wf (if s.pPollToken = .watch then
      { s with tasks := s.tasks.erase (.ioEventMod bSession) }.spawn (.postOp bSession)
    else { s with tasks := s.tasks.erase (.ioEventMod bSession), channelLock := false }) := by
  have hwrite : s.stSession.bClosed = false → s.HasOutput → s.iEventMask.write = true ∨
      Task.change .allowSend true ∈ s.tasks.erase (.ioEventMod bSession) := by
    intro hopen hout
    exact (h.write hopen hout).imp_right (List.mem_erase_of_ne Task.noConfusion).2
  split
  · exact {
      channel := h.channel
      fresh := h.fresh
      worker := fun b hb => by
        rcases List.mem_cons.1 hb with heq | hb
        · cases heq
        · exact h.worker b (List.mem_of_mem_erase hb)
      write := fun hopen hout => (hwrite hopen hout).imp_right (List.mem_cons_of_mem _)
      data := h.data
      -- from here on it is this thread's `IO_OP_MOD` that the invariant counts on
      mods := fun _ => Or.inr (Or.inl ⟨bSession, Or.inr List.mem_cons_self⟩)
      adding := fun iMask hadding => Or.inl (htimely iMask hadding).symm }
  · rename_i hno
    exact {
      channel := h.channel
      fresh := h.fresh
      worker := fun b hb => h.worker b (List.mem_of_mem_erase hb)
      write := hwrite
      data := h.data
      -- without a watch there is no mask to be behind, and an `IO_OP_ADD` has read this one
      mods := fun htoken => absurd htoken hno
      adding := fun iMask hadding => Or.inl (htimely iMask hadding).symm }

/-- A thread posts its `IO_OP_MOD`. -/
theorem wf_posted (h : Wf s) :
    Wf { s with
      tasks := s.tasks.erase (.postOp bSession), ops := s.ops ++ [Op.mod]
      channelLock := false } := by
  have hpost := wf_post h .mod Op.noConfusion
  exact {
    channel := h.channel
    fresh := hpost.fresh
    worker := fun b hb => h.worker b (List.mem_of_mem_erase hb)
    write := fun hopen hout => (h.write hopen hout).imp_right
      (List.mem_erase_of_ne Task.noConfusion).2
    data := h.data
    -- the duty passes from the thread to the queue
    mods := fun _ => Or.inr (Or.inr (Or.inl (List.mem_append_right _ List.mem_cons_self)))
    adding := fun iMask hadding => by
      rcases h.adding iMask hadding with heq | ⟨b, hb⟩
      · exact Or.inl heq
      · exact Or.inr ⟨b, (List.mem_erase_of_ne Task.noConfusion).2 hb⟩ }

/-- A step of one of the other threads. -/
theorem wf_runTask {stTask : Task} (h : Wf s) (hmem : stTask ∈ s.tasks)
    (htimely : Timely s (.run stTask))
    (hrun : runTask { s with tasks := s.tasks.erase stTask } stTask = some s') : Wf s' := by
  cases stTask with
  | change f bSession =>
    rw [runTask] at hrun
    obtain ⟨_, hrun⟩ := Option.ite_none_left_eq_some.1 hrun
    split at hrun
    · rename_i hnone
      obtain rfl := Option.some.inj hrun
      refine wf_unlockSession (wf_task h fun heq => ?_) _
      -- `AllowSend` changes nothing only where the bit is set
      cases heq
      have hset := allowSend_write s.iEventMask
      rw [show allowSend s.iEventMask = none from hnone] at hset
      exact hset
    · rename_i iNewMask hmask
      obtain rfl := Option.some.inj hrun
      exact wf_changed h hmem hmask
  | ioEventMod bSession =>
    have htimely' : ∀ iMask, s.poll = .adding iMask → s.iEventMask = iMask := by
      intro iMask hadding
      simp only [Timely, hadding] at htimely
      exact htimely
    have hread := wf_readToken h bSession htimely'
    rw [runTask] at hrun
    split at hrun
    · rename_i htoken
      obtain rfl := Option.some.inj hrun
      rw [if_pos htoken] at hread
      exact hread
    · rename_i htoken
      obtain rfl := Option.some.inj hrun
      rw [if_neg htoken] at hread
      exact wf_unlockSession hread _
  | postOp bSession =>
    rw [runTask] at hrun
    obtain rfl := Option.some.inj hrun
    exact wf_unlockSession (wf_posted h) _

/-! ## The poll thread and the sessions -/

theorem wf_popOp (h : Wf s) (hidle : s.poll = .idle) (hpop : s.popOp = some s') : Wf s' := by
  have hmods : ∀ {ops : List Op}, s.pPollToken = .watch → (Op.mod ∈ s.ops → Op.mod ∈ ops) →
      s.stWatch.iMask = s.iEventMask ∨ s.Changing ∨ Op.mod ∈ ops := by
    intro ops htoken hops
    rcases h.mods htoken with heq | hchanging | hmem | hmod
    · exact Or.inl heq
    · exact Or.inr (Or.inl hchanging)
    · exact Or.inr (Or.inr (hops hmem))
    · rw [hidle] at hmod
      cases hmod
  -- the operations that stay in the queue
  have hrest : ∀ {op : Op} {ops : List Op}, s.ops = op :: ops → op ≠ .mod →
      Op.mod ∈ s.ops → Op.mod ∈ ops := by
    intro op ops hops hne hmem
    rw [hops] at hmem
    rcases List.mem_cons.1 hmem with heq | hmem
    · exact absurd heq.symm hne
    · exact hmem
  have hskip : ∀ {op : Op} {ops : List Op}, s.ops = op :: ops → op ≠ .mod →
      Wf { s with ops := ops } := by
    intro op ops hops hne
    refine { h with fresh := ?_, mods := ?_ }
    · intro hreg
      obtain ⟨hnone, hadd, hpoll⟩ := h.fresh hreg
      refine ⟨hnone, fun hmem => hadd ?_, hpoll⟩
      rw [hops]
      exact List.mem_cons_of_mem _ hmem
    · intro htoken
      exact (hmods htoken (hrest hops hne)).imp_right (Or.imp_right Or.inl)
  rw [State.popOp] at hpop
  split at hpop
  · cases hpop
  · rename_i ops hops
    obtain rfl := Option.some.inj hpop
    refine { hskip hops Op.noConfusion with fresh := ?_, mods := ?_, adding := ?_ }
    · intro hreg
      refine absurd ?_ (h.fresh hreg).2.1
      rw [hops]
      exact List.mem_cons_self
    · intro htoken
      exact (hmods htoken (hrest hops Op.noConfusion)).imp_right (Or.imp_right Or.inl)
    · intro iMask hadding
      cases hadding
  · rename_i ops hops
    obtain rfl := Option.some.inj hpop
    refine { h with fresh := ?_, mods := ?_, adding := ?_ }
    · intro hreg
      obtain ⟨hnone, hadd, -⟩ := h.fresh hreg
      refine ⟨hnone, fun hmem => hadd ?_, PollTask.noConfusion, fun _ => PollTask.noConfusion⟩
      rw [hops]
      exact List.mem_cons_of_mem _ hmem
    · -- the duty passes from the queue to the poll thread
      intro _
      exact Or.inr (Or.inr (Or.inr rfl))
    · intro iMask hadding
      cases hadding
  · rename_i ops hops
    obtain rfl := Option.some.inj hpop
    exact hskip hops Op.noConfusion
  · rename_i ops hops
    obtain rfl := Option.some.inj hpop
    exact hskip hops Op.noConfusion

/-- The registration, whose mask nobody has seen before. -/
theorem wf_register (h : Wf s) (hreg : s.bRegistered = false) (m : Mask) :
    Wf { s with
      bRegistered := true, iEventMask := m, pPollToken := .pending, ops := s.ops ++ [Op.add] } := by
  obtain ⟨hnone, -, -, hpoll⟩ := h.fresh hreg
  exact {
    channel := h.channel
    fresh := fun hfresh => Bool.noConfusion hfresh
    worker := h.worker
    write := fun _ hout => absurd hout hnone
    data := fun htoken => Token.noConfusion htoken
    mods := fun htoken => Token.noConfusion htoken
    adding := fun iMask hadding => absurd hadding (hpoll iMask) }

theorem wf_registerInLoop (h : Wf s) (hreg : s.bRegistered = false) (m : Mask) (bInit : Bool) :
    Wf ({ s with bRegistered := true, iEventMask := m }.attach m bInit) := by
  obtain ⟨hnone, -, -, hpoll⟩ := h.fresh hreg
  rw [State.attach]
  split
  · exact {
      channel := h.channel
      fresh := fun hfresh => Bool.noConfusion hfresh
      worker := h.worker
      write := fun _ hout => absurd hout hnone
      data := fun _ => rfl
      mods := fun _ => Or.inl rfl
      adding := fun iMask hadding => absurd hadding (hpoll iMask) }
  · exact {
      channel := h.channel
      fresh := fun hfresh => Bool.noConfusion hfresh
      worker := h.worker
      write := fun _ hout => absurd hout hnone
      data := fun htoken => Token.noConfusion htoken
      mods := fun htoken => Token.noConfusion htoken
      adding := fun iMask hadding => absurd hadding (hpoll iMask) }

theorem wf_applyMod (h : Wf s) : Wf { s.applyMod with poll := .idle } := by
  have hfresh : s.bRegistered = false → ¬ s.HasOutput ∧ Op.add ∉ s.ops ∧
      PollTask.idle ≠ .add ∧ ∀ iMask, PollTask.idle ≠ .adding iMask := by
    intro hreg
    obtain ⟨hnone, hadd, -⟩ := h.fresh hreg
    exact ⟨hnone, hadd, PollTask.noConfusion, fun _ => PollTask.noConfusion⟩
  rw [State.applyMod]
  split
  · exact { h with
      fresh := hfresh
      -- the poll thread has brought the watch up to date
      mods := fun _ => Or.inl rfl
      adding := fun _ hadding => PollTask.noConfusion hadding }
  · rename_i hno
    exact { h with
      fresh := hfresh
      mods := fun htoken => absurd (h.data htoken) hno
      adding := fun _ hadding => PollTask.noConfusion hadding }

/-- A session that has been sent to is open. -/
theorem sendResult_open {stSession' : Session} {stBytes : Bytes}
    (hsend : stSession.sendResult stBytes bMalloc = some (.OI_OK, stSession')) :
    stSession.bClosed = false := by
  rw [Session.sendResult] at hsend
  split at hsend
  · cases hsend
  · rename_i hopen
    exact Bool.eq_false_iff.2 hopen

theorem swapOutBuff_closed {stSession' : Session} {stLocal stLocal' : Bytes}
    (hswap : stSession.swapOutBuff stLocal bMalloc = some (stSession', stLocal')) :
    stSession'.bClosed = stSession.bClosed := by
  rw [Session.swapOutBuff] at hswap
  split at hswap
  · obtain ⟨rfl, rfl⟩ := Prod.mk.inj (Option.some.inj hswap)
    rfl
  · obtain ⟨_, -, heq⟩ := Option.map_eq_some_iff.1 hswap
    obtain ⟨rfl, rfl⟩ := Prod.mk.inj heq
    rfl

/-- What is to be sent after `SwapOutBuff` was to be sent before it. -/
theorem hasOutput_of_swapOutBuff {stLocal : Bytes}
    (hswap : s.stSession.swapOutBuff s.stOutputBuffer bMalloc = some (stSession, stLocal))
    (hout : stSession.stOutputBuffer.size ≠ 0 ∨ stLocal.size ≠ 0) : s.HasOutput := by
  obtain ⟨hlocal, hempty, -⟩ := swapOutBuff_spec hswap
  have hsizes : stLocal.size = s.stOutputBuffer.size + s.stSession.stOutputBuffer.size := by
    rw [← Bytes.length_data, hlocal, List.length_append, Bytes.length_data, Bytes.length_data]
  have hzero : stSession.stOutputBuffer.size = 0 := Bytes.data_eq_nil.1 hempty
  rw [State.HasOutput]
  omega

/-- Where the poll thread may go from a place outside of the operations. -/
theorem passes_of {poll poll' : PollTask} (h : poll ≠ .mod) (h₁ : poll' ≠ .add)
    (h₂ : ∀ iMask, poll' ≠ .adding iMask) : Passes poll poll' :=
  Or.inr ⟨h, h₁, h₂⟩

/-- The way back from one of the functions of the poll thread. -/
theorem wf_idle (h : Wf s) (hpoll : s.poll ≠ .mod) : Wf { s with poll := .idle } :=
  wf_poll h (passes_of hpoll PollTask.noConfusion fun _ => PollTask.noConfusion)

/-- The functions of the poll thread that change a mask leave it where it is. -/
theorem poll_change (s : State) (f : Change) : (s.change f).poll = s.poll := by
  rw [State.change]
  split
  · split
    · rfl
    · rw [State.ioEventMod]
      dsimp only
      split <;> rfl
  · rfl

theorem poll_close (s : State) : s.close.poll = s.poll := by
  rw [State.close]
  split
  · rfl
  · exact poll_change _ _

theorem poll_sendDrained (s : State) : s.sendDrained.poll = s.poll := by
  rw [State.sendDrained]
  split
  · exact poll_change _ _
  · rfl

theorem poll_ioEventUnRegister (s : State) : s.ioEventUnRegister.poll = s.poll := by
  rw [State.ioEventUnRegister]
  split <;> rfl

/-- The steps of the poll thread in `DataOut`. -/
theorem wf_writing (h : Wf s) {stOutputBuffer : Bytes} {poll : PollTask}
    (hout : stSession.stOutputBuffer.size ≠ 0 ∨ stOutputBuffer.size ≠ 0 → s.HasOutput)
    (hclosed : stSession.bClosed = s.stSession.bClosed) (hpoll : Passes s.poll poll) :
    Wf { s with stSession := stSession, stOutputBuffer := stOutputBuffer, poll := poll } :=
  wf_session h hout (fun hopen => ⟨hclosed.symm.trans hopen, rfl⟩) hpoll

theorem wf_sendResult {stBytes : Bytes} (h : Wf s)
    (hstep : step s (.sendResult stBytes bMalloc) = some s') : Wf s' := by
  obtain ⟨hfree, hstep⟩ := Option.ite_none_left_eq_some.1 hstep
  have hreg : s.bRegistered = true := by
    cases hb : s.bRegistered with
    | true => rfl
    | false =>
      rw [hb] at hfree
      exact absurd rfl hfree
  split at hstep
  · obtain rfl := Option.some.inj hstep
    exact h
  · rename_i stSession hsend
    obtain rfl := Option.some.inj hstep
    exact wf_accept h hreg (sendResult_open hsend)
  · -- a refused message leaves the session as it was
    rename_i code stSession hcode hsend
    obtain rfl := Option.some.inj hstep
    obtain ⟨-, rfl⟩ | ⟨hok, -⟩ := sendResult_cases hsend
    · exact h
    · exact absurd hok hcode

theorem wf_dataOut (h : Wf s) (hstep : step s (.dataOut bMalloc) = some s') : Wf s' := by
  obtain ⟨hidle, hstep⟩ := Option.ite_none_right_eq_some.1 hstep
  split at hstep
  · obtain rfl := Option.some.inj hstep
    exact h
  · rename_i stSession stLocal hswap
    obtain rfl := Option.some.inj hstep
    refine wf_writing h (hasOutput_of_swapOutBuff hswap) (swapOutBuff_closed hswap)
      (passes_of ?_ PollTask.noConfusion fun _ => PollTask.noConfusion)
    rw [hidle.1]
    exact PollTask.noConfusion

/-- The second half of an `IO_OP_ADD`. -/
theorem wf_attach_idle (h : Wf s) {iMask : Mask} (hadding : s.poll = .adding iMask) (bInit : Bool) :
    Wf ({ s with poll := .idle }.attach iMask bInit) := by
  refine wf_attach (wf_idle h ?_) bInit (h.adding iMask hadding)
  rw [hadding]
  exact PollTask.noConfusion

/-- A thread that changes the mask comes to the channel's lock. -/
theorem wf_closing (h : Wf s) :
    Wf ({ s with
      stSession := { s.stSession with bClosed := true }
      sessionLock := true }.call .allowSend true) := by
  have hclosed : Wf { s with
      stSession := { s.stSession with bClosed := true }, sessionLock := true } :=
    wf_session h id (fun hopen => Bool.noConfusion hopen) (Or.inl rfl)
  exact wf_call hclosed Change.noConfusion

theorem Change.ne_forbidSend_of_reads (hf : f.reads = true) : f ≠ .forbidSend := by
  rintro rfl
  cases hf

/-- **Every step keeps the invariant**, if it meets the condition. -/
theorem wf_step {e : Event} (h : Wf s) (htimely : Timely s e) (hstep : step s e = some s') :
    Wf s' := by
  have hfree : ∀ {poll : PollTask}, s.poll = poll → (∀ iMask, poll ≠ .adding iMask) →
      ∀ iMask, s.poll ≠ .adding iMask := by
    rintro _ rfl hne
    exact hne
  cases e with
  | ioEventRegister bAllowRead bAllowWrite =>
    obtain ⟨hreg, rfl⟩ := of_guard_not hstep
    exact wf_register h (Bool.eq_false_iff.2 hreg) _
  | ioEventRegisterInLoop bAllowRead bAllowWrite bInit =>
    obtain ⟨hno, rfl⟩ := of_guard_not hstep
    exact wf_registerInLoop h (Bool.eq_false_iff.2 fun hreg => hno (Or.inl hreg)) _ _
  | sendResult stBytes bMalloc => exact wf_sendResult h hstep
  | setSendQueueLimit iBytes =>
    obtain ⟨_, rfl⟩ := of_guard_not hstep
    exact wf_session h id (fun hopen => ⟨hopen, rfl⟩) (Or.inl rfl)
  | close =>
    obtain ⟨_, hstep⟩ := Option.ite_none_left_eq_some.1 hstep
    split at hstep
    · obtain rfl := Option.some.inj hstep
      exact h
    · obtain rfl := Option.some.inj hstep
      exact wf_closing h
  | change f bSession =>
    obtain ⟨hno, rfl⟩ := of_guard_not hstep
    have hlocked : Wf { s with sessionLock := s.sessionLock || bSession } :=
      wf_session h id (fun hopen => ⟨hopen, rfl⟩) (Or.inl rfl)
    refine wf_call hlocked (Change.ne_forbidSend_of_reads ?_)
    cases hf : f.reads with
    | true => rfl
    | false =>
      rw [hf] at hno
      exact absurd (by simp) hno
  | run stTask =>
    obtain ⟨hmem, hstep⟩ := Option.ite_none_right_eq_some.1 hstep
    exact wf_runTask h hmem htimely hstep
  | postOther =>
    rw [step] at hstep
    obtain rfl := Option.some.inj hstep
    exact wf_post h .other Op.noConfusion
  | popOp =>
    obtain ⟨hidle, hstep⟩ := Option.ite_none_right_eq_some.1 hstep
    exact wf_popOp h hidle hstep
  | applyAdd =>
    obtain ⟨hadd, hstep⟩ := Option.ite_none_left_eq_some.1 hstep
    have hadd' : s.poll = .add := not_not.1 hadd
    have hidle : Wf { s with poll := .idle } := by
      refine wf_idle h ?_
      rw [hadd']
      exact PollTask.noConfusion
    split at hstep
    · obtain rfl := Option.some.inj hstep
      exact { hidle with
        data := fun htoken => Token.noConfusion htoken
        mods := fun htoken => Token.noConfusion htoken }
    · obtain rfl := Option.some.inj hstep
      -- an `IO_OP_ADD` is there only after the registration
      have hreg : s.bRegistered ≠ false := fun hreg => (h.fresh hreg).2.2.1 hadd'
      exact { h with
        fresh := fun hfresh => absurd hfresh hreg
        mods := fun htoken => (hidle.mods htoken).imp_right
          (Or.imp_right (Or.imp_right fun hmod => PollTask.noConfusion hmod))
        adding := fun iMask hadding => by
          cases hadding
          exact Or.inl rfl }
  | attach bInit =>
    rw [step] at hstep
    split at hstep
    · rename_i iMask hadding
      obtain rfl := Option.some.inj hstep
      exact wf_attach_idle h hadding bInit
    · cases hstep
  | applyMod =>
    obtain ⟨_, rfl⟩ := of_guard hstep
    exact wf_applyMod h
  | changeInLoop f =>
    obtain ⟨hcond, rfl⟩ := of_guard hstep
    refine wf_change h (hfree hcond.1 fun _ => PollTask.noConfusion) fun heq => ?_
    exact absurd heq (Change.ne_forbidSend_of_reads hcond.2.1)
  | passiveClose =>
    obtain ⟨hcond, rfl⟩ := of_guard hstep
    have hplace : (∀ iMask, s.poll ≠ .adding iMask) ∧ s.poll ≠ .mod := by
      rcases hcond.1 with hpoll | hpoll <;> rw [hpoll] <;>
        exact ⟨fun _ => PollTask.noConfusion, PollTask.noConfusion⟩
    refine wf_idle (wf_close h hplace.1) ?_
    rw [poll_close]
    exact hplace.2
  | dataOut bMalloc => exact wf_dataOut h hstep
  | socketTakes n =>
    obtain ⟨hcond, rfl⟩ := of_guard hstep
    refine wf_writing h ?_ rfl (passes_of ?_ PollTask.noConfusion fun _ => PollTask.noConfusion)
    · intro hout
      rw [Bytes.size_erase_front] at hout
      rw [State.HasOutput]
      omega
    · rw [hcond.1]
      exact PollTask.noConfusion
  | onBytesSent =>
    rw [step] at hstep
    split at hstep
    · rename_i n hsent
      obtain ⟨_, rfl⟩ := of_guard_not hstep
      refine wf_writing h id rfl
        (passes_of ?_ PollTask.noConfusion fun _ => PollTask.noConfusion)
      rw [hsent]
      exact PollTask.noConfusion
    · cases hstep
  | loopEnds =>
    obtain ⟨hloop, rfl⟩ := of_guard hstep
    refine wf_poll h (passes_of ?_ PollTask.noConfusion fun _ => PollTask.noConfusion)
    rw [hloop]
    exact PollTask.noConfusion
  | finish =>
    obtain ⟨hno, hstep⟩ := Option.ite_none_left_eq_some.1 hstep
    have hfinish : s.poll = .finish := not_not.1 hno
    have hmod : s.poll ≠ .mod := by
      rw [hfinish]
      exact PollTask.noConfusion
    split at hstep
    · obtain rfl := Option.some.inj hstep
      exact wf_idle h hmod
    · rename_i hempty
      obtain ⟨_, rfl⟩ := of_guard hstep
      refine wf_idle (wf_sendDrained h (hfree hfinish fun _ => PollTask.noConfusion)
        (not_not.1 hempty)) ?_
      rw [poll_sendDrained]
      exact hmod
  | tryClose =>
    obtain ⟨hcond, rfl⟩ := of_guard hstep
    refine wf_session h id (fun hopen => ?_)
      (passes_of ?_ PollTask.noConfusion fun _ => PollTask.noConfusion)
    · exact Bool.noConfusion (hcond.2.1.symm.trans hopen)
    · rw [hcond.1]
      exact PollTask.noConfusion
  | ioEventUnRegister =>
    obtain ⟨hcond, rfl⟩ := of_guard hstep
    refine wf_idle (wf_ioEventUnRegister h) ?_
    rw [poll_ioEventUnRegister]
    rcases hcond with hpoll | hpoll <;> rw [hpoll] <;> exact PollTask.noConfusion

/-! ## Every run -/

/-- **No write wake-up is lost** in a run whose steps all meet the condition: the threads, the
sessions and the poll thread may be interleaved in every other way. -/
theorem watched {run : List Event} {s : State} (hrun : runFrom step init run = some s)
    (htimely : Along step Timely init run) : Watched s :=
  watched_of_wf (runFrom_invariant_along (fun _ _ _ hwf h hnext => wf_step hwf h hnext) wf_init
    htimely hrun)

/-- A message of one byte. -/
def oneByte : Bytes where
  m_pMemory := [0]
  m_iHead := 0
  m_iSize := 1
  inside := le_refl _
  block := by decide

/-- A registration from outside of the poll thread, then a message that finds its watch. -/
def sentAfterAdd : List Event :=
  [.ioEventRegister true false, .popOp, .applyAdd, .attach true, .sendResult oneByte true,
    .run (.change .allowSend true), .run (.ioEventMod true), .run (.postOp true), .popOp, .applyMod]

theorem watched_sentAfterAdd : ∃ s, runFrom step init sentAfterAdd = some s ∧ Watched s ∧
    s.Idle ∧ s.stWatch.iMask = ⟨true, true⟩ := by
  have hrun : (runFrom step init sentAfterAdd).map (fun s =>
      decide (s.tasks = [] ∧ s.poll = .idle ∧ s.stWatch.iMask = ⟨true, true⟩)) = some true := by
    decide +kernel
  obtain ⟨s, hs, hfacts⟩ := Option.map_eq_some_iff.1 hrun
  obtain ⟨htasks, hpoll, hmask⟩ := of_decide_eq_true hfacts
  exact ⟨s, hs, watched hs (by decide +kernel), ⟨htasks, hpoll⟩, hmask⟩

/-- A message that comes between the two halves of the `IO_OP_ADD`. -/
def sentDuringAdd : List Event :=
  [.ioEventRegister true false, .popOp, .applyAdd, .sendResult oneByte true,
    .run (.change .allowSend true), .run (.ioEventMod true), .attach true]

/-- **The wake-up that is lost.** The thread that sends finds the channel not attached yet and
leaves the mask to the `IO_OP_ADD`, which has read the old one. Nothing is queued and nobody is on
the way; the watch does not wait for the socket to take bytes, and there is a message to send. -/
theorem lost_sentDuringAdd : ¬ ∀ (run : List Event) (s : State),
    runFrom step init run = some s → Watched s := by
  intro hall
  have hrun : (runFrom step init sentDuringAdd).map (fun s =>
      decide (s.tasks = [] ∧ s.poll = .idle ∧ s.pPollToken = .watch ∧
        s.stWatch.iMask ≠ s.iEventMask ∧ s.ops = [])) = some true := by
    decide +kernel
  obtain ⟨s, hs, hfacts⟩ := Option.map_eq_some_iff.1 hrun
  obtain ⟨htasks, hpoll, htoken, hmask, hops⟩ := of_decide_eq_true hfacts
  exact hmask ((hall _ s hs).drained ⟨htasks, hpoll⟩ hops htoken)

end OpenIdea.Net.EventMask

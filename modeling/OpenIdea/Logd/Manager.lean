import OpenIdea.Lib.Runs
import OpenIdea.Logd.Frames

/-!
# The log daemon

`logd` as a system that takes step after step: the sessions with their receive buffers
(`LogServerSession`), the backlog all levels share (`LogManager`), one queue and one writer thread
for each level (`LogFileInstance`), and the thread that runs `OnDataIn` and `ResumeWaiting`, which
is the poll thread until `Stop` and the main thread from then on.

A step is one critical section, or what a thread does between two of them on data that no other
thread touches.  `PostOnLoop` only queues: the callback is a step of its own.
-/

set_option autoImplicit false

namespace OpenIdea.Logd

open OpenIdea.Lib OpenIdea.Lib.Runs

/-! ## Logs -/

/-- The title `strftime` writes for the format `"%T "`: hours, minutes and seconds, two digits each,
two colons and a blank. -/
def Title : Type := { title : List UInt8 // title.length = 9 }

/-- A log as `AddLog` takes it.  The session it came from, none for a local log, is not kept by the
code. -/
structure Log where
  session : Option Nat
  title : Title
  text : List UInt8

namespace Log

/-- `stBody`. -/
def body (x : Log) : List UInt8 := x.title.1 ++ x.text

def size (x : Log) : Nat := x.body.length

theorem size_eq (x : Log) : x.size = x.text.length + x.title.1.length := by
  rw [size, body, List.length_append, Nat.add_comm]

end Log

/-- The sizes of some logs together. -/
def logsSize (xs : List Log) : Nat := (xs.map Log.size).sum

@[simp] theorem logsSize_nil : logsSize [] = 0 := rfl

@[simp] theorem logsSize_append (xs ys : List Log) :
    logsSize (xs ++ ys) = logsSize xs + logsSize ys := by
  simp [logsSize]

@[simp] theorem logsSize_cons (x : Log) (xs : List Log) :
    logsSize (x :: xs) = x.size + logsSize xs := by
  simp [logsSize]

/-- The bodies of some logs, one behind the other. -/
def bodies (xs : List Log) : List UInt8 := xs.flatMap Log.body

@[simp] theorem bodies_append (xs ys : List Log) : bodies (xs ++ ys) = bodies xs ++ bodies ys :=
  List.flatMap_append

/-! ## One level -/

/-- Where the writer thread of a level is in `WriteLog`. -/
inductive Writer
  /-- before the critical section of its loop -/
  | idle
  /-- in the loop over `vWriting`, with `iWrittenBytes` written -/
  | writing (todo : List Log) (iWrittenBytes : Nat)
  /-- flushed, before `CompleteWrite` -/
  | completing (iWrittenBytes : Nat)
  | ended

/-- A level: its queue, its writer thread, and its files, those of successive days as one.
`accepted`, `written` and `completed` record what `AddLog` was given, what `WriteAll` has written
and what `CompleteWrite` has given back. -/
structure LogFileInstance where
  /-- `m_vLogs` -/
  logs : List Log := []
  writer : Writer := .idle
  quit : Bool := false
  rotationPending : Bool := false
  /-- the stdio buffer of the file -/
  buffered : List UInt8 := []
  file : List UInt8 := []
  accepted : List Log := []
  written : List Log := []
  completed : List Log := []

namespace LogFileInstance

/-- `AddLog`. -/
def addLog (f : LogFileInstance) (x : Log) : LogFileInstance :=
  { f with logs := f.logs ++ [x], accepted := f.accepted ++ [x] }

/-- The critical section of the writer's loop: it waits for a log, a rotation or the end. -/
def swapLogs (f : LogFileInstance) : Option LogFileInstance :=
  match f.writer with
  | .idle =>
      if f.logs.isEmpty ∧ ¬ f.quit ∧ ¬ f.rotationPending then none
      else
        let writer : Writer :=
          if f.logs.isEmpty then if f.quit then .ended else .idle else .writing f.logs 0
        some { f with logs := [], rotationPending := false, writer := writer }
  | _ => none

/-- `WriteAll` of the next log of the batch. -/
def writeNext (f : LogFileInstance) : Option LogFileInstance :=
  match f.writer with
  | .writing (x :: todo) iWrittenBytes =>
      some
        { f with
          writer := .writing todo (iWrittenBytes + x.size)
          buffered := f.buffered ++ x.body
          written := f.written ++ [x] }
  | _ => none

/-- `fflush` after the last log of the batch. -/
def flush (f : LogFileInstance) : Option LogFileInstance :=
  match f.writer with
  | .writing [] iWrittenBytes =>
      some
        { f with
          writer := .completing iWrittenBytes
          file := f.file ++ f.buffered
          buffered := [] }
  | _ => none

/-- What the level's side of `CompleteWrite` is: the writer goes back to the top of its loop. -/
def finish (f : LogFileInstance) : LogFileInstance :=
  { f with writer := .idle, completed := f.written }

/-- The second critical section of `OnCreateNewFile`. -/
def rotate (f : LogFileInstance) : LogFileInstance := { f with rotationPending := true }

/-- The critical section of `StopWriteThread`. -/
def stopWriting (f : LogFileInstance) : LogFileInstance := { f with quit := true }

end LogFileInstance

/-! ## The state -/

/-- A connection.  `received` records all that its channel has handed over. -/
structure LogServerSession where
  stInputBuffer : List UInt8 := []
  waiting : Bool := false
  shutdown : Bool := false
  /-- `IO_EV_READ` is in the channel's mask -/
  reading : Bool := true
  /-- `IsClosed` -/
  closed : Bool := false
  /-- `TryClose` has taken the channel away -/
  detached : Bool := false
  received : List UInt8 := []

namespace LogServerSession

/-- `WaitForWrite`; the channel's `ForbidRead` leaves a closed session alone. -/
def waitForWrite (v : LogServerSession) : LogServerSession :=
  { v with waiting := true, reading := v.reading && (v.shutdown || v.closed) }

/-- `ResumeWrite` up to `OnDataIn`. -/
def startResume (v : LogServerSession) (bShutdown : Bool) : LogServerSession :=
  { v with shutdown := bShutdown, waiting := false }

/-- `ResumeWrite` from `OnDataIn` on. -/
def endResume (v : LogServerSession) : LogServerSession :=
  { v with reading := v.reading || (!v.waiting && !v.shutdown && !v.closed) }

end LogServerSession

/-- `WaitingLog`. -/
structure WaitingLog where
  pSession : Nat
  iBytes : Nat
  deriving DecidableEq

/-- Where the thread that runs `OnDataIn` is. -/
inductive Runner
  | idle
  /-- in the loop of `OnDataIn`, called from `SwapInBuff` or from `ResumeWrite` -/
  | parsing (sid iUsed iFrames : Nat) (resuming : Bool)
  /-- back from `ResumeWrite`, before the last critical section of `ResumeWaiting` -/
  | resumed (sid : Nat)
  deriving DecidableEq

/-- Where the process is: before `Stop`, or in it. -/
inductive Phase
  | running
  /-- before `ResumeWaiting(true)` -/
  | draining
  /-- before the check of the queue that follows it -/
  | checking
  /-- in `m_stBacklogCondition.Wait` -/
  | blocked
  /-- in the loop over the levels, with those not joined yet -/
  | joining (levels : List LogLevel)
  | stopped
  deriving DecidableEq

/-- The daemon. -/
structure Daemon where
  iMaxPendingBytes : Nat
  iPendingBytes : Nat := 0
  waitingSessions : List WaitingLog := []
  resumingSession : Option Nat := none
  resumePosted : Bool := false
  stopping : Bool := false
  logFiles : LogLevel → LogFileInstance := fun _ => {}
  sessions : Nat → LogServerSession := fun _ => {}
  /-- the calls of `ResumeOnLoop` in the queue of the poll loop -/
  posted : Nat := 0
  runner : Runner := .idle
  phase : Phase := .running

namespace Daemon

/-- `Init` on the configured limit. -/
def init (iLimit : Nat) : Option Daemon :=
  if iLimit < logFrameMax + 8 then none else some { iMaxPendingBytes := iLimit }

def setSession (s : Daemon) (sid : Nat) (v : LogServerSession) : Daemon :=
  { s with sessions := Function.update s.sessions sid v }

def setFile (s : Daemon) (l : LogLevel) (f : LogFileInstance) : Daemon :=
  { s with logFiles := Function.update s.logFiles l f }

/-- `m_iMaxPendingBytes - m_iPendingBytes`. -/
def space (s : Daemon) : Nat := s.iMaxPendingBytes - s.iPendingBytes

/-- The queue is not empty and its head fits the free space. -/
def headFits (s : Daemon) : Bool :=
  match s.waitingSessions with
  | [] => false
  | w :: _ => decide (w.iBytes ≤ s.space)

/-! ## The backlog -/

/-- `ScheduleResume`. -/
def scheduleResume (s : Daemon) : Daemon :=
  if !s.stopping && !s.resumePosted && s.resumingSession.isNone && s.headFits then
    { s with resumePosted := true, posted := s.posted + 1 }
  else s

/-- `QueueWaiter`. -/
def queueWaiter (s : Daemon) (sid iBytes : Nat) : Daemon :=
  scheduleResume
    { s.setSession sid (s.sessions sid).waitForWrite with
      waitingSessions := s.waitingSessions ++ [⟨sid, iBytes⟩] }

/-- The session may not go ahead of those that wait: it is not the one that is resumed. -/
def Barred (s : Daemon) (pSession : Option Nat) : Prop :=
  (s.resumingSession.isSome ∨ s.waitingSessions ≠ []) ∧
    (pSession = none ∨ pSession ≠ s.resumingSession)

instance (s : Daemon) (pSession : Option Nat) : Decidable (s.Barred pSession) :=
  inferInstanceAs (Decidable (_ ∧ _))

/-- A log that is accepted: `AddLog`, and the size is reserved. -/
def accept (s : Daemon) (l : LogLevel) (x : Log) : Daemon :=
  { s.setFile l ((s.logFiles l).addLog x) with iPendingBytes := s.iPendingBytes + x.size }

/-- `WriteLog`. -/
def writeLog (s : Daemon) (iLevel : Nat) (text : List UInt8) (pSession : Option Nat)
    (title : Title) : Bool × Daemon :=
  match LogLevel.ofNat? iLevel with
  | none => (false, s)
  | some l =>
      if s.iMaxPendingBytes - title.1.length < text.length then (false, s)
      else
        let iBytes := text.length + title.1.length
        if s.space < iBytes ∨ s.Barred pSession then
          match pSession with
          | some sid => (false, s.queueWaiter sid iBytes)
          | none => (false, s)
        else (true, s.accept l ⟨pSession, title, text⟩)

/-- `DeferWrite`. -/
def deferWrite (s : Daemon) (sid iLength : Nat) (title : Title) : Daemon :=
  s.queueWaiter sid (iLength + title.1.length)

/-- `CompleteWrite`; the signal wakes `Stop`. -/
def completeWrite (s : Daemon) (iBytes : Nat) : Daemon :=
  scheduleResume
    { s with
      iPendingBytes := s.iPendingBytes - iBytes
      phase := if s.phase = .blocked then .draining else s.phase }

/-! ## `OnDataIn` -/

/-- `PassiveClose` and every other way to close a session. -/
def passiveClose (s : Daemon) (sid : Nat) : Daemon :=
  s.setSession sid { s.sessions sid with closed := true }

/-- `OnDataIn` returns to its caller. -/
def leave (s : Daemon) (sid : Nat) (resuming : Bool) : Daemon :=
  if resuming then
    { s.setSession sid (s.sessions sid).endResume with runner := .resumed sid }
  else { s with runner := .idle }

/-- The end of `OnDataIn`: what was used is erased. -/
def endOnDataIn (s : Daemon) (sid iUsed : Nat) (resuming : Bool) : Daemon :=
  let v := s.sessions sid
  (s.setSession sid { v with stInputBuffer := v.stInputBuffer.drop iUsed }).leave sid resuming

/-- The budget of one `OnDataIn`, in bytes and in frames. -/
def roundBytes : Nat := 1024 * 1024

def roundFrames : Nat := 1024

/-- One round of the loop of `OnDataIn`. -/
def onDataInRound (s : Daemon) (sid iUsed iFrames : Nat) (resuming : Bool) (title : Title) : Daemon :=
  match nextFrame ((s.sessions sid).stInputBuffer.drop iUsed) with
  | .more => s.endOnDataIn sid iUsed resuming
  -- nothing is erased here
  | .error => (s.passiveClose sid).leave sid resuming
  | .message f _ =>
      if 0 < iUsed ∧ (roundBytes < iUsed + f.size ∨ roundFrames ≤ iFrames) then
        (s.deferWrite sid f.text.length title).endOnDataIn sid iUsed resuming
      else if f.logLevel = none then
        { s with runner := .parsing sid (iUsed + f.size) (iFrames + 1) resuming }
      else
        let r := s.writeLog f.level.toNat f.text (some sid) title
        if r.1 then
          { r.2 with runner := .parsing sid (iUsed + f.size) (iFrames + 1) resuming }
        else r.2.endOnDataIn sid iUsed resuming

/-- `SwapInBuff` and the entry of `OnDataIn`.  A waiting session may still be read, as when its
peer closes. -/
def dataIn (s : Daemon) (sid : Nat) (chunk : List UInt8) : Daemon :=
  let v := s.sessions sid
  { s.setSession sid
      { v with
        stInputBuffer := v.stInputBuffer ++ chunk
        received := v.received ++ chunk } with
    runner := if v.waiting then .idle else .parsing sid 0 0 false }

/-! ## `ResumeWaiting` and `Stop` -/

/-- The first critical section of `ResumeWaiting`, and `ResumeWrite` up to `OnDataIn`. -/
def resumeWaiting (s : Daemon) (bShutdown : Bool) : Daemon :=
  match s.waitingSessions with
  | [] => { s with resumePosted := false }
  | w :: ws =>
      if s.space < w.iBytes then { s with resumePosted := false }
      else
        { s.setSession w.pSession ((s.sessions w.pSession).startResume bShutdown) with
          resumePosted := false
          waitingSessions := ws
          resumingSession := some w.pSession
          runner := .parsing w.pSession 0 0 true }

/-- The last critical section of `ResumeWaiting`. -/
def endResumeWaiting (s : Daemon) : Daemon :=
  scheduleResume { s with resumingSession := none, runner := .idle }

/-- The critical section of `Stop` after `ResumeWaiting`. -/
def checkWaiting (s : Daemon) : Daemon :=
  match s.waitingSessions with
  | [] => { s with phase := .joining LogLevel.all }
  | w :: _ => { s with phase := if s.space < w.iBytes then .blocked else .draining }

/-! ## Steps -/

inductive Event
  /-- the channel of a session hands over what it has read -/
  | dataIn (sid : Nat) (chunk : List UInt8)
  | close (sid : Nat)
  | detach (sid : Nat)
  /-- a round of `OnDataIn`, with the title it reads -/
  | round (title : Title)
  | resumeOnLoop
  | endResume
  /-- `WriteSelfLog` -/
  | writeSelf (iLevel : Nat) (text : List UInt8) (title : Title)
  | swapLogs (l : LogLevel)
  | writeNext (l : LogLevel)
  | flush (l : LogLevel)
  | completeWrite (l : LogLevel)
  | rotate (l : LogLevel)
  /-- `Stop` up to its loop; the poll thread has ended -/
  | stop
  | drain
  | check
  | stopWriting
  | join

/-- The poll thread is between two callbacks. -/
def Polling (s : Daemon) : Prop := s.phase = .running ∧ s.runner = .idle

instance (s : Daemon) : Decidable s.Polling := inferInstanceAs (Decidable (_ ∧ _))

def step (s : Daemon) : Event → Option Daemon
  | .dataIn sid chunk =>
      if s.Polling ∧ ¬ (s.sessions sid).detached then some (s.dataIn sid chunk) else none
  | .close sid => some (s.passiveClose sid)
  | .detach sid =>
      if s.Polling ∧ (s.sessions sid).closed then
        some (s.setSession sid { s.sessions sid with detached := true })
      else none
  | .round title =>
      match s.runner with
      | .parsing sid iUsed iFrames resuming => some (s.onDataInRound sid iUsed iFrames resuming title)
      | _ => none
  | .resumeOnLoop =>
      if s.Polling ∧ 0 < s.posted then
        some ({ s with posted := s.posted - 1 }.resumeWaiting false)
      else none
  | .endResume =>
      match s.runner with
      | .resumed _ => some s.endResumeWaiting
      | _ => none
  | .writeSelf iLevel text title => some (s.writeLog iLevel text none title).2
  | .swapLogs l => (s.logFiles l).swapLogs.map (s.setFile l)
  | .writeNext l => (s.logFiles l).writeNext.map (s.setFile l)
  | .flush l => (s.logFiles l).flush.map (s.setFile l)
  | .completeWrite l =>
      match (s.logFiles l).writer with
      | .completing iBytes => some ((s.setFile l (s.logFiles l).finish).completeWrite iBytes)
      | _ => none
  | .rotate l => some (s.setFile l (s.logFiles l).rotate)
  | .stop => if s.Polling then some { s with stopping := true, phase := .draining } else none
  | .drain =>
      if s.phase = .draining ∧ s.runner = .idle then
        some ({ s with phase := .checking }.resumeWaiting true)
      else none
  | .check => if s.phase = .checking ∧ s.runner = .idle then some s.checkWaiting else none
  | .stopWriting =>
      match s.phase with
      | .joining (l :: _) => some (s.setFile l (s.logFiles l).stopWriting)
      | _ => none
  | .join =>
      match s.phase with
      | .joining [] => some { s with phase := .stopped }
      | .joining (l :: levels) =>
          match (s.logFiles l).writer with
          | .ended => if (s.logFiles l).quit then some { s with phase := .joining levels } else none
          | _ => none
      | _ => none

/-- A state of a run from `Init`. -/
def Reachable (s : Daemon) : Prop :=
  ∃ iLimit s₀ events, init iLimit = some s₀ ∧ runFrom step s₀ events = some s

end Daemon

end OpenIdea.Logd

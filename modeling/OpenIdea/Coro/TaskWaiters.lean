import Mathlib.Tactic
import OpenIdea.Lib.Runs
import OpenIdea.Lib.Tally
import OpenIdea.Lib.Intrusive

/-!
# Tasks, their waiters, and `WhenAll`

A task runs once and may be awaited by any number of coroutines. Whoever suspends puts a node into
the task's intrusive list; the node lives in the frame of the awaiting coroutine
(`BasicTask::Awaiter`) or in the heap state of a `WhenAll` (`WhenAllState::Slot`). When the task is
over, `final_suspend` takes the list and walks it, while the coroutines it has scheduled already run
on other workers and free their nodes.

The world is the pointers `pNext` of all nodes and the parties: tasks, awaits and `WhenAll`
coroutines. Every region under a task's mutex is one step, and so is every atomic operation on the
shared state of a `WhenAll`; between any two steps every other party may move. A node whose owner
was let go may be overwritten at any time (`Event.scribble`).

Ghost fields hold what the invariant speaks of: the nodes of a task's list, the slots of a `WhenAll`
and who brought its count to zero.
-/

set_option autoImplicit false

namespace OpenIdea.Coro.Waiters

open OpenIdea.Lib.Runs OpenIdea.Lib.Tally OpenIdea.Lib.Intrusive

variable {ε α β : Type}

/-! ## The parties -/

/-- A `TaskWaiter`: the awaiter `a`, whose `fnReady` is null, or slot `i` of the `WhenAll` `j`,
whose `fnReady` is `OnReady`. -/
inductive Node where
  | await (a : Nat)
  | slot (j i : Nat)
  deriving DecidableEq, Repr

/-- Where a task stands; from `walking` on it is in the loop of `TaskFinalSuspend`. -/
inductive Run where
  | running
  /-- The result or the exception is stored. -/
  | returned
  /-- At the head of the loop with `pWaiter`. -/
  | walking (pWaiter : Option Node)
  /-- `pWaiter->pNext` is read. -/
  | visiting (pWaiter : Node) (pNext : Option Node)
  /-- In `OnReady`, between the `fetch_sub` that found 1 and the exchange of the gate. -/
  | counted (j i : Nat) (pNext : Option Node)
  /-- `bWake` is true. -/
  | waking (pWaiter : Node) (pNext : Option Node)
  | finished
  deriving DecidableEq, Repr

/-- A task: `TaskState` with what it stored, and its position. -/
structure Task (ε α : Type) where
  /-- `stResult` or `stError`. -/
  stOutcome : Option (Except ε α)
  bReady : Bool
  pWaiters : Option Node
  run : Run
  /-- Ghost: the nodes of the list. -/
  listed : List Node
  /-- Ghost: the nodes the walk has still to come by. -/
  taken : List Node

/-- Where an awaiting coroutine stands. -/
inductive AwaitPhase (ε α : Type) where
  | absent
  /-- In front of `await_ready`. -/
  | created
  /-- `await_ready` returned false. -/
  | checked
  | suspended
  /-- In front of `await_resume`. -/
  | resumed
  /-- `await_resume` is over: what it returned or rethrew; `none` is "Task has no result". -/
  | done (stOutcome : Option (Except ε α))

/-- A `BasicTask::Awaiter`, with what `await_suspend` returned and how often its coroutine was
passed to `Schedule`. -/
structure Await (ε α : Type) where
  stChild : Nat
  phase : AwaitPhase ε α
  returned : Option Bool
  calls : Nat

/-- `Gate`. -/
inductive Gate where
  | Idle
  | Waiting
  | Ready
  deriving DecidableEq, Repr

/-- Ghost: how far a slot of a `WhenAll` is. -/
inductive Slot where
  | fresh
  /-- In the list of its task. -/
  | pushed
  /-- `await_suspend` found the task ready. -/
  | seen
  /-- Counted down. -/
  | closed
  deriving DecidableEq, Repr

/-- Ghost: who has brought `iLeft` to zero, and what became of it. -/
inductive Closer where
  | nobody
  /-- The task `t`, in front of its exchange of the gate. -/
  | completer (t : Nat)
  /-- `await_suspend`, in front of its exchange of the gate. -/
  | registrar
  /-- The gate was set to `Ready` and nobody is to be woken. -/
  | shut
  /-- The task `t` is to wake the parent. -/
  | waker (t : Nat)
  | woken
  deriving DecidableEq, Repr

/-- Why a `WhenAll` ended without a result. -/
inductive Failure (ε : Type) where
  /-- "cannot await a moved-from Task". -/
  | movedFrom
  /-- "Task has no result". -/
  | noResult
  | thrown (stError : ε)
  deriving DecidableEq, Repr

/-- Where a `WhenAll` coroutine stands. -/
inductive AllPhase (ε β : Type) where
  | absent
  /-- In front of the test for an empty list. -/
  | entering
  /-- In the loop of `await_suspend`, in front of slot `i`; past the last slot it is in front of the
  exchange of the gate. -/
  | registering (i : Nat)
  /-- Task `i` was ready; in front of the `fetch_sub`. -/
  | counting (i : Nat)
  /-- The `fetch_sub` found 1; in front of the exchange. -/
  | shutting (i : Nat)
  | suspended
  /-- In the loop over the tasks, with `vResults`. -/
  | collecting (vResults : List β)
  /-- In `co_await stTask` of that loop. -/
  | awaiting (a : Nat) (vResults : List β)
  | finished (result : Except (Failure ε) (List β))

/-- A `WhenAll` coroutine with its `WhenAllState`. -/
structure All (ε β : Type) where
  vTasks : List (Option Nat)
  /-- The tasks behind the handles. -/
  tasks : List Nat
  iLeft : Nat
  iGate : Gate
  phase : AllPhase ε β
  returned : Option Bool
  calls : Nat
  slots : List Slot
  closer : Closer

/-- The pointers and the parties. -/
structure World (ε α β : Type) where
  pNext : Node → Option Node
  task : Nat → Task ε α
  await : Nat → Await ε α
  all : Nat → All ε β

/-- All tasks run, and nobody awaits any. -/
def init (ε α β : Type) : World ε α β where
  pNext := fun _ => none
  task := fun _ =>
    { stOutcome := none, bReady := false, pWaiters := none, run := .running, listed := [],
      taken := [] }
  await := fun _ => { stChild := 0, phase := .absent, returned := none, calls := 0 }
  all := fun _ =>
    { vTasks := [], tasks := [], iLeft := 0, iGate := .Idle, phase := .absent, returned := none,
      calls := 0, slots := [], closer := .nobody }

def World.setTask (s : World ε α β) (t : Nat) (x : Task ε α) : World ε α β :=
  { s with task := Function.update s.task t x }

def World.setAwait (s : World ε α β) (a : Nat) (x : Await ε α) : World ε α β :=
  { s with await := Function.update s.await a x }

def World.setAll (s : World ε α β) (j : Nat) (x : All ε β) : World ε α β :=
  { s with all := Function.update s.all j x }

/-- The coroutine that owns the node may be running: it was scheduled, or its `await_suspend`
returned false. -/
def World.released (s : World ε α β) : Node → Bool
  | .await a => decide (0 < (s.await a).calls) || (s.await a).returned == some false
  | .slot j _ => decide (0 < (s.all j).calls) || (s.all j).returned == some false

/-! ## The steps of a task -/

/-- `fetch_sub(1)` on a `size_t`. -/
def fetchSub (n : Nat) : Nat := if n = 0 then 2 ^ 64 - 1 else n - 1

/-- `co_return` or `unhandled_exception`. -/
def taskReturn (s : World ε α β) (t : Nat) (o : Except ε α) : Option (World ε α β) :=
  let x := s.task t
  match x.run with
  | .running => some (s.setTask t { x with stOutcome := some o, run := .returned })
  | _ => none

/-- The region of `final_suspend` under the mutex. -/
def taskFinal (s : World ε α β) (t : Nat) : Option (World ε α β) :=
  let x := s.task t
  match x.run with
  | .returned =>
      some (s.setTask t
        { x with
          bReady := true, pWaiters := none, run := .walking x.pWaiters, listed := [],
          taken := x.listed })
  | _ => none

/-- The head of the loop: the end of the list, or `pWaiter->pNext`. -/
def taskVisit (s : World ε α β) (t : Nat) : Option (World ε α β) :=
  let x := s.task t
  match x.run with
  | .walking none => some (s.setTask t { x with run := .finished })
  | .walking (some n) =>
      some (s.setTask t { x with run := .visiting n (s.pNext n), taken := x.taken.tail })
  | _ => none

/-- `pWaiter->fnReady == nullptr || pWaiter->fnReady(pWaiter)`, up to the `fetch_sub` of
`OnReady`. -/
def taskTest (s : World ε α β) (t : Nat) : Option (World ε α β) :=
  let x := s.task t
  match x.run with
  | .visiting (.await a) next => some (s.setTask t { x with run := .waking (.await a) next })
  | .visiting (.slot j i) next =>
      let y := s.all j
      let y' := { y with iLeft := fetchSub y.iLeft, slots := y.slots.set i .closed }
      if y.iLeft = 1 then
        some ((s.setTask t { x with run := .counted j i next }).setAll j
          { y' with closer := .completer t })
      else some ((s.setTask t { x with run := .walking next }).setAll j y')
  | _ => none

/-- `iGate.exchange(Gate::Ready)` in `OnReady`. -/
def taskGate (s : World ε α β) (t : Nat) : Option (World ε α β) :=
  let x := s.task t
  match x.run with
  | .counted j i next =>
      let y := s.all j
      if y.iGate = .Waiting then
        some ((s.setTask t { x with run := .waking (.slot j i) next }).setAll j
          { y with iGate := .Ready, closer := .waker t })
      else
        some ((s.setTask t { x with run := .walking next }).setAll j
          { y with iGate := .Ready, closer := .shut })
  | _ => none

/-- `Schedule(pWaiter->stParent)`. -/
def taskWake (s : World ε α β) (t : Nat) : Option (World ε α β) :=
  let x := s.task t
  match x.run with
  | .waking (.await a) next =>
      let y := s.await a
      some ((s.setTask t { x with run := .walking next }).setAwait a { y with calls := y.calls + 1 })
  | .waking (.slot j _) next =>
      let y := s.all j
      some ((s.setTask t { x with run := .walking next }).setAll j
        { y with calls := y.calls + 1, closer := .woken })
  | _ => none

/-! ## The steps of an awaiting coroutine -/

/-- `co_await` on the task `t`. -/
def awaitCreate (s : World ε α β) (a t : Nat) : Option (World ε α β) :=
  match (s.await a).phase with
  | .absent =>
      some (s.setAwait a { stChild := t, phase := .created, returned := none, calls := 0 })
  | _ => none

/-- `Awaiter::await_ready`. -/
def awaitReady (s : World ε α β) (a : Nat) : Option (World ε α β) :=
  let y := s.await a
  match y.phase with
  | .created =>
      if (s.task y.stChild).bReady then some (s.setAwait a { y with phase := .resumed })
      else some (s.setAwait a { y with phase := .checked })
  | _ => none

/-- The node `n` becomes the first of the list of `t`. -/
def pushNode (s : World ε α β) (t : Nat) (n : Node) : World ε α β :=
  let x := s.task t
  { s.setTask t { x with pWaiters := some n, listed := n :: x.listed } with
    pNext := Function.update s.pNext n x.pWaiters }

/-- `Awaiter::await_suspend`. -/
def awaitSuspend (s : World ε α β) (a : Nat) : Option (World ε α β) :=
  let y := s.await a
  match y.phase with
  | .checked =>
      if (s.task y.stChild).bReady then
        some (s.setAwait a { y with phase := .resumed, returned := some false })
      else
        some ((pushNode s y.stChild (.await a)).setAwait a
          { y with phase := .suspended, returned := some true })
  | _ => none

/-- A worker resumes the coroutine after it was scheduled. -/
def awaitResume (s : World ε α β) (a : Nat) : Option (World ε α β) :=
  let y := s.await a
  match y.phase with
  | .suspended => if 0 < y.calls then some (s.setAwait a { y with phase := .resumed }) else none
  | _ => none

/-- `Awaiter::await_resume`. -/
def awaitTake (s : World ε α β) (a : Nat) : Option (World ε α β) :=
  let y := s.await a
  match y.phase with
  | .resumed => some (s.setAwait a { y with phase := .done (s.task y.stChild).stOutcome })
  | _ => none

/-! ## The steps of a `WhenAll` coroutine -/

/-- `WhenAll(vTasks)`. -/
def allCreate (s : World ε α β) (j : Nat) (vTasks : List (Option Nat)) : Option (World ε α β) :=
  let y := s.all j
  match y.phase with
  | .absent => some (s.setAll j { y with vTasks := vTasks, phase := .entering })
  | _ => none

/-- The test for an empty list, the test of the handles, and the start of the count. -/
def allEnter (s : World ε α β) (j : Nat) : Option (World ε α β) :=
  let y := s.all j
  match y.phase with
  | .entering =>
      if y.vTasks = [] then some (s.setAll j { y with phase := .collecting [] })
      else
        match y.vTasks.mapM id with
        | none => some (s.setAll j { y with phase := .finished (.error .movedFrom) })
        | some ts =>
            some (s.setAll j
              { y with
                tasks := ts, iLeft := ts.length, phase := .registering 0,
                slots := List.replicate ts.length .fresh })
  | _ => none

/-- One round of the loop up to the end of the region under the mutex of task `i`; past the last
task the exchange of the gate and the return. -/
def allRegister (s : World ε α β) (j : Nat) : Option (World ε α β) :=
  let y := s.all j
  match y.phase with
  | .registering i =>
      match y.tasks[i]? with
      | some t =>
          if (s.task t).bReady then
            some (s.setAll j { y with phase := .counting i, slots := y.slots.set i .seen })
          else
            some ((pushNode s t (.slot j i)).setAll j
              { y with phase := .registering (i + 1), slots := y.slots.set i .pushed })
      | none =>
          if y.iGate = .Ready then
            some (s.setAll j
              { y with iGate := .Waiting, phase := .collecting [], returned := some false })
          else
            some (s.setAll j
              { y with iGate := .Waiting, phase := .suspended, returned := some true })
  | _ => none

/-- `iLeft.fetch_sub(1)` in `await_suspend`. -/
def allCount (s : World ε α β) (j : Nat) : Option (World ε α β) :=
  let y := s.all j
  match y.phase with
  | .counting i =>
      let y' := { y with iLeft := fetchSub y.iLeft, slots := y.slots.set i .closed }
      if y.iLeft = 1 then some (s.setAll j { y' with phase := .shutting i, closer := .registrar })
      else some (s.setAll j { y' with phase := .registering (i + 1) })
  | _ => none

/-- `iGate.exchange(Gate::Ready)` in `await_suspend`. -/
def allShut (s : World ε α β) (j : Nat) : Option (World ε α β) :=
  let y := s.all j
  match y.phase with
  | .shutting i =>
      some (s.setAll j { y with iGate := .Ready, phase := .registering (i + 1), closer := .shut })
  | _ => none

/-- A worker resumes the coroutine after it was scheduled. -/
def allResume (s : World ε α β) (j : Nat) : Option (World ε α β) :=
  let y := s.all j
  match y.phase with
  | .suspended => if 0 < y.calls then some (s.setAll j { y with phase := .collecting [] }) else none
  | _ => none

/-- The head of the loop over the tasks: `co_await stTask` with the awaiter `a`, or `co_return`. -/
def allCollect (s : World ε α β) (j a : Nat) : Option (World ε α β) :=
  let y := s.all j
  match y.phase with
  | .collecting vResults =>
      match y.tasks[vResults.length]? with
      | some t => (awaitCreate s a t).map fun s' => s'.setAll j { y with phase := .awaiting a vResults }
      | none => some (s.setAll j { y with phase := .finished (.ok vResults) })
  | _ => none

/-- `vResults.push_back(co_await stTask)`; `convert` is the conversion of the overload for `bool`.
-/
def allTake (convert : α → β) (s : World ε α β) (j : Nat) : Option (World ε α β) :=
  let y := s.all j
  match y.phase with
  | .awaiting a vResults =>
      match (s.await a).phase with
      | .done (some (.ok v)) =>
          some (s.setAll j { y with phase := .collecting (vResults ++ [convert v]) })
      | .done (some (.error e)) => some (s.setAll j { y with phase := .finished (.error (.thrown e)) })
      | .done none => some (s.setAll j { y with phase := .finished (.error .noResult) })
      | _ => none
  | _ => none

/-! ## All steps -/

inductive Event (ε α : Type) where
  | taskReturn (t : Nat) (o : Except ε α)
  | taskFinal (t : Nat)
  | taskVisit (t : Nat)
  | taskTest (t : Nat)
  | taskGate (t : Nat)
  | taskWake (t : Nat)
  | awaitCreate (a t : Nat)
  | awaitReady (a : Nat)
  | awaitSuspend (a : Nat)
  | awaitResume (a : Nat)
  | awaitTake (a : Nat)
  | allCreate (j : Nat) (vTasks : List (Option Nat))
  | allEnter (j : Nat)
  | allRegister (j : Nat)
  | allCount (j : Nat)
  | allShut (j : Nat)
  | allResume (j : Nat)
  | allCollect (j a : Nat)
  | allTake (j : Nat)
  /-- The memory of a node whose owner was let go is used for something else. -/
  | scribble (n : Node) (garbage : Option Node)
  deriving DecidableEq

/-- One step of some party; `none` where the party is not at that step. -/
def step (convert : α → β) (s : World ε α β) : Event ε α → Option (World ε α β)
  | .taskReturn t o => taskReturn s t o
  | .taskFinal t => taskFinal s t
  | .taskVisit t => taskVisit s t
  | .taskTest t => taskTest s t
  | .taskGate t => taskGate s t
  | .taskWake t => taskWake s t
  | .awaitCreate a t => awaitCreate s a t
  | .awaitReady a => awaitReady s a
  | .awaitSuspend a => awaitSuspend s a
  | .awaitResume a => awaitResume s a
  | .awaitTake a => awaitTake s a
  | .allCreate j vTasks => allCreate s j vTasks
  | .allEnter j => allEnter s j
  | .allRegister j => allRegister s j
  | .allCount j => allCount s j
  | .allShut j => allShut s j
  | .allResume j => allResume s j
  | .allCollect j a => allCollect s j a
  | .allTake j => allTake convert s j
  | .scribble n garbage =>
      if s.released n then some { s with pNext := Function.update s.pNext n garbage } else none

/-- The node whose fields the step reads, or through which it reaches the state of a `WhenAll`. -/
def reads (s : World ε α β) : Event ε α → Option Node
  | .taskVisit t =>
      match (s.task t).run with
      | .walking n => n
      | _ => none
  | .taskTest t =>
      match (s.task t).run with
      | .visiting n _ => some n
      | _ => none
  | .taskGate t =>
      match (s.task t).run with
      | .counted j i _ => some (.slot j i)
      | _ => none
  | .taskWake t =>
      match (s.task t).run with
      | .waking n _ => some n
      | _ => none
  | _ => none

end OpenIdea.Coro.Waiters

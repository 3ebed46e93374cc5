import Mathlib.Tactic
import OpenIdea.Lib.Runs
import OpenIdea.Lib.Tally

/-!
# Coroutine frames, their references and their exceptions

The frame of a task is kept by a reference count: one reference for every `BasicTask` object that
holds the frame, one for every live `Awaiter`, and one for the execution of the frame itself. The
last one is not given back in `final_suspend`, where the frame is still being executed, but put into
a list of the thread, which `DrainDetached` empties later: after a `resume` has returned, or in
`await_ready` of a coroutine that runs on the same thread.

The model has any number of threads. Each has the stack of the frames it is executing, the innermost
first (a task that starts in place runs on top of the frame that made it), and its list of finished
frames. A frame that has ended is on top of its thread's stack until control is back with whoever
resumed it; in between the thread executes nothing else.

The exception of a task is in the frame too: `unhandled_exception` stores it and reports it for a
detached task, `Start` detaches a task and reports an exception that is there already, an
`await_resume` rethrows it, and the last reference reports one that nobody has seen.
-/

set_option autoImplicit false

namespace OpenIdea.Coro.Frames

open OpenIdea.Lib.Runs OpenIdea.Lib.Tally

variable {ε : Type}

/-! ## The state -/

/-- Where a frame stands. -/
inductive Phase where
  | absent
  /-- Queued, or in a `co_await`. -/
  | suspended
  | running
  /-- In `unhandled_exception`, with the exception stored. -/
  | stored
  /-- There, and the task was found detached. -/
  | seen
  /-- In front of `final_suspend`. -/
  | ended
  /-- In `final_suspend`, with `bReady` set. -/
  | ready
  /-- `final_suspend` is over, and `resume` has not returned. -/
  | final
  /-- `resume` has returned. -/
  | returned
  | destroyed
  deriving DecidableEq, Repr

/-- The promise of a frame (`TaskState`), with ghost records. -/
structure Frame (ε : Type) where
  phase : Phase
  iReferences : Nat
  bReady : Bool
  stError : Option ε
  bDetached : Bool
  bObserved : Bool
  bErrorReported : Bool
  /-- `stMutex`: the handle whose `Start` holds it, and what its exchange of `bDetached` found. -/
  stMutex : Option (Nat × Bool)
  /-- Ghost: the thread that executes the frame. -/
  owner : Option Nat
  /-- Ghost: the thread in whose list of finished frames it is. -/
  listed : Option Nat
  /-- Ghost: the reference of the execution was given back. -/
  drained : Bool
  /-- Ghost: how often `destroy` was called. -/
  destroys : Nat
  /-- Ghost: how often `ReportTaskError` was called. -/
  reports : Nat
  /-- Ghost: an `await_resume` has rethrown the exception. -/
  rethrown : Bool
  deriving DecidableEq, Repr

/-- The frames a thread executes, the innermost first, and `g_detached_done`, the last one first. -/
structure Thread where
  stack : List Nat
  detachedDone : List Nat
  deriving DecidableEq, Repr

/-- Frames, threads, `BasicTask` objects and awaiters. An object that was destroyed stays in its
list as `none`. -/
structure World (ε : Type) where
  frame : Nat → Frame ε
  thread : Nat → Thread
  handles : List (Option (Option Nat))
  awaiters : List (Option Nat)

def noFrame (ε : Type) : Frame ε where
  phase := .absent
  iReferences := 0
  bReady := false
  stError := none
  bDetached := false
  bObserved := false
  bErrorReported := false
  stMutex := none
  owner := none
  listed := none
  drained := false
  destroys := 0
  reports := 0
  rethrown := false

def init (ε : Type) : World ε where
  frame := fun _ => noFrame ε
  thread := fun _ => { stack := [], detachedDone := [] }
  handles := []
  awaiters := []

def World.setFrame (s : World ε) (f : Nat) (x : Frame ε) : World ε :=
  { s with frame := Function.update s.frame f x }

def World.setThread (s : World ε) (θ : Nat) (x : Thread) : World ε :=
  { s with thread := Function.update s.thread θ x }

/-! ## The operations of the code -/

/-- `TaskState::ReportError`. -/
def reportError (x : Frame ε) : Frame ε :=
  if x.bErrorReported then x else { x with bErrorReported := true, reports := x.reports + 1 }

/-- `fetch_sub(1)` on a `size_t`. -/
def fetchSub (n : Nat) : Nat := if n = 0 then 2 ^ 64 - 1 else n - 1

/-- `promise_type::Release` of a frame. -/
def releaseFrame (x : Frame ε) : Frame ε :=
  let x' := { x with iReferences := fetchSub x.iReferences }
  if x.iReferences = 1 then
    -- an exception that nobody has taken is reported with the last reference
    let x'' := if x'.stError.isSome && !x'.bObserved then reportError x' else x'
    { x'' with phase := .destroyed, destroys := x''.destroys + 1 }
  else x'

/-- `Release(stHandle)`; an empty handle releases nothing. -/
def release (s : World ε) : Option Nat → World ε
  | none => s
  | some f => s.setFrame f (releaseFrame (s.frame f))

/-- `iReferences.fetch_add(1)`, if the handle is not empty. -/
def acquire (s : World ε) : Option Nat → World ε
  | none => s
  | some f => s.setFrame f { s.frame f with iReferences := (s.frame f).iReferences + 1 }

/-- The thread executes code: it is outside of all frames, or in one that runs. -/
def World.canRun (s : World ε) (θ : Nat) : Bool :=
  match (s.thread θ).stack with
  | [] => true
  | f :: _ => (s.frame f).phase == .running

/-- `Start` is at work on the handle, which its owner therefore does not touch. -/
def World.inStart (s : World ε) (h : Nat) : Bool :=
  match s.handles[h]? with
  | some (some (some f)) => (s.frame f).stMutex.any fun m => m.1 == h
  | _ => false

/-- The promise of a new frame: one reference for the `BasicTask`, one for the execution. -/
def newFrame (phase : Phase) (bDetached : Bool) (owner : Option Nat) : Frame ε :=
  { noFrame ε with
    phase := phase, iReferences := 2, bDetached := bDetached, owner := owner }

/-- The frame on top of the thread's stack, in the given phase. -/
def World.top (s : World ε) (θ : Nat) (p : Phase) : Option Nat :=
  match (s.thread θ).stack with
  | f :: _ => if (s.frame f).phase = p then some f else none
  | [] => none

/-- The frame on top of the thread's stack moves from one phase to another. -/
def World.moveTop (s : World ε) (θ : Nat) (p : Phase) (g : Frame ε → Frame ε) :
    Option (World ε) :=
  (s.top θ p).map fun f => s.setFrame f (g (s.frame f))

inductive Event (ε : Type) where
  /-- A coroutine is called and queued. -/
  | createQueued (f : Nat) (bDetached : Bool)
  /-- A coroutine is called from a coroutine and runs in place. -/
  | createInline (θ f : Nat) (bDetached : Bool)
  /-- `BasicTask(const BasicTask&)`. -/
  | copyHandle (h : Nat)
  /-- `BasicTask(BasicTask&&)`. -/
  | moveHandle (h : Nat)
  /-- `std::swap` of the handles of two objects. -/
  | swapHandles (h k : Nat)
  /-- `~BasicTask`. -/
  | dropHandle (h : Nat)
  /-- `operator co_await`. -/
  | createAwaiter (h : Nat)
  /-- `~Awaiter`. -/
  | dropAwaiter (w : Nat)
  /-- `Awaiter::await_resume`. -/
  | awaitResume (w : Nat)
  /-- `Start`: the mutex and the exchange of `bDetached`. -/
  | startExchange (h : Nat)
  /-- `Start`: the test of `bReady` and `stError`, and the end of the region. -/
  | startTest (h : Nat)
  /-- A worker, or a loop inside of a frame, resumes a frame. -/
  | resume (θ f : Nat)
  /-- The innermost frame suspends. -/
  | suspend (θ : Nat)
  /-- The body of the innermost frame ends. -/
  | bodyReturn (θ : Nat)
  /-- The body ends with an exception; `unhandled_exception` stores it. -/
  | bodyThrow (θ : Nat) (e : ε)
  /-- `unhandled_exception` loads `bDetached`. -/
  | loadDetached (θ : Nat)
  /-- `unhandled_exception` reports. -/
  | reportSelf (θ : Nat)
  /-- `final_suspend`: the region under the mutex. -/
  | setReady (θ : Nat)
  /-- `final_suspend`: `DetachFinished`. -/
  | detachFinished (θ : Nat)
  /-- Control is back with whoever resumed the frame. -/
  | resumeReturn (θ : Nat)
  /-- One round of `DrainDetached`. -/
  | drainOne (θ : Nat)
  deriving DecidableEq, Repr

def step (s : World ε) : Event ε → Option (World ε)
  | .createQueued f bDetached =>
      if (s.frame f).phase = .absent then
        some { s.setFrame f (newFrame .suspended bDetached none) with
          handles := s.handles ++ [some (some f)] }
      else none
  | .createInline θ f bDetached =>
      if (s.frame f).phase = .absent ∧ s.canRun θ = true ∧ (s.thread θ).stack ≠ [] then
        some { (s.setFrame f (newFrame .running bDetached (some θ))).setThread θ
            { s.thread θ with stack := f :: (s.thread θ).stack } with
          handles := s.handles ++ [some (some f)] }
      else none
  | .copyHandle h =>
      match s.handles[h]? with
      | some (some v) => some { acquire s v with handles := s.handles ++ [some v] }
      | _ => none
  | .moveHandle h =>
      match s.handles[h]? with
      | some (some v) =>
          if s.inStart h then none
          else some { s with handles := s.handles.set h (some none) ++ [some v] }
      | _ => none
  | .swapHandles h k =>
      match s.handles[h]?, s.handles[k]? with
      | some (some v), some (some w) =>
          if s.inStart h || s.inStart k then none
          else some { s with handles := (s.handles.set h (some w)).set k (some v) }
      | _, _ => none
  | .dropHandle h =>
      match s.handles[h]? with
      | some (some v) =>
          if s.inStart h then none
          else some (release { s with handles := s.handles.set h none } v)
      | _ => none
  | .createAwaiter h =>
      match s.handles[h]? with
      | some (some (some f)) =>
          some { acquire s (some f) with awaiters := s.awaiters ++ [some f] }
      -- a moved-from task throws
      | _ => none
  | .dropAwaiter w =>
      match s.awaiters[w]? with
      | some (some f) => some (release { s with awaiters := s.awaiters.set w none } (some f))
      | _ => none
  | .awaitResume w =>
      match s.awaiters[w]? with
      | some (some f) =>
          let x := s.frame f
          if x.bReady then
            if x.stError.isSome then
              some (s.setFrame f { x with bObserved := true, rethrown := true })
            else some s
          else none
      | _ => none
  | .startExchange h =>
      match s.handles[h]? with
      | some (some (some f)) =>
          let x := s.frame f
          if x.stMutex.isNone then
            some (s.setFrame f { x with stMutex := some (h, x.bDetached), bDetached := true })
          else none
      -- a moved-from task throws
      | _ => none
  | .startTest h =>
      match s.handles[h]? with
      | some (some (some f)) =>
          let x := s.frame f
          match x.stMutex with
          | some (k, old) =>
              if k = h then
                let x' := if !old && x.bReady && x.stError.isSome then reportError x else x
                some (s.setFrame f { x' with stMutex := none })
              else none
          | none => none
      | _ => none
  | .resume θ f =>
      if (s.frame f).phase = .suspended ∧ s.canRun θ = true then
        some ((s.setFrame f { s.frame f with phase := .running, owner := some θ }).setThread θ
          { s.thread θ with stack := f :: (s.thread θ).stack })
      else none
  | .suspend θ =>
      (s.top θ .running).map fun f =>
        (s.setFrame f { s.frame f with phase := .suspended, owner := none }).setThread θ
          { s.thread θ with stack := (s.thread θ).stack.tail }
  | .bodyReturn θ => s.moveTop θ .running fun x => { x with phase := .ended }
  | .bodyThrow θ e => s.moveTop θ .running fun x => { x with phase := .stored, stError := some e }
  | .loadDetached θ =>
      s.moveTop θ .stored fun x => { x with phase := if x.bDetached then .seen else .ended }
  | .reportSelf θ => s.moveTop θ .seen fun x => { reportError x with phase := .ended }
  | .setReady θ =>
      match s.top θ .ended with
      | some f =>
          if (s.frame f).stMutex.isNone then
            s.moveTop θ .ended fun x => { x with phase := .ready, bReady := true }
          else none
      | none => none
  | .detachFinished θ =>
      (s.top θ .ready).map fun f =>
        (s.setFrame f { s.frame f with phase := .final, listed := some θ }).setThread θ
          { s.thread θ with detachedDone := f :: (s.thread θ).detachedDone }
  | .resumeReturn θ =>
      (s.top θ .final).map fun f =>
        (s.setFrame f { s.frame f with phase := .returned, owner := none }).setThread θ
          { s.thread θ with stack := (s.thread θ).stack.tail }
  | .drainOne θ =>
      if s.canRun θ then
        match (s.thread θ).detachedDone with
        | f :: rest =>
            let s₁ := s.setThread θ { s.thread θ with detachedDone := rest }
            some (release (s₁.setFrame f { s.frame f with drained := true, listed := none }) (some f))
        | [] => none
      else none

end OpenIdea.Coro.Frames

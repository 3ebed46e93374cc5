import Mathlib.Tactic
import OpenIdea.Lib.Runs
import OpenIdea.Lib.Tally

/-!
# The task scope

A `TaskScope` starts tasks, counts them and lets any number of coroutines wait in `Join` until all
of them have finished. Its shared state is `TaskScope::State`; the code around it runs on several
worker threads, so the model is a step function over the shared state and the positions of all
parties:

* a caller of `Start` holds the mutex from the test of `bClosed` until after `++iActive`, and the
  task it posts may run, and fail, in between;
* a task (`TaskScope::Run`) ends its function, records an exception under the mutex, takes the
  mutex again for `--iActive`, and schedules the waiters it took over one after the other;
* a joiner (`TaskScope::Wait`) registers under the mutex, is resumed after it was scheduled, and
  takes the mutex once more to look for the exception.

Every region under the mutex is one step, apart from `Start`, whose region is cut into its own steps
with the mutex held. Ghost fields record what the results speak of and the code does not store: the
exceptions thrown and recorded, the calls of `Schedule`, the tasks whose decrement gave zero. Every
step keeps the account of the scope (`Accounted`), and the account gives what a joiner can rely on
(`joins_completely`).
-/

set_option autoImplicit false

namespace OpenIdea.Coro.TaskScope

open OpenIdea.Lib.Runs OpenIdea.Lib.Tally

variable {ε : Type}

/-! ## The parties -/

/-- Where the holder of `State::stMutex` stands. Only `Start` does more than one thing under it. -/
inductive Lock where
  | free
  /-- `Start` has seen that the scope is open. -/
  | starting
  /-- `Start` has posted the task and not counted it yet. -/
  | posted
  /-- `Start` has counted the task. -/
  | counted
  deriving DecidableEq, Repr

/-- Where a task (`TaskScope::Run`) stands. -/
inductive TaskPhase (ε : Type) where
  /-- Posted, or inside `fnFunction`. -/
  | running
  /-- In the catch block, in front of the mutex. -/
  | failed (stError : ε)
  /-- Past the try block, in front of the mutex. -/
  | finishing
  /-- Counted down; the waiters of `vWaitersLocal` that are still to be scheduled. -/
  | waking (vWaitersLocal : List Nat)
  | done
  deriving DecidableEq, Repr

/-- The task has not done its `--iActive`. -/
def TaskPhase.unfinished : TaskPhase ε → Bool
  | .running => true
  | .failed _ => true
  | .finishing => true
  | .waking _ => false
  | .done => false

/-- How often the task still has the waiter `w` to schedule. -/
def TaskPhase.toWake (w : Nat) : TaskPhase ε → Nat
  | .waking ws => ws.count w
  | _ => 0

/-- Where a joiner (`TaskScope::Wait`) stands. -/
inductive JoinPhase (ε : Type) where
  /-- In front of `JoinAwaiter::await_suspend` (`await_ready` is always false). -/
  | created
  | suspended
  /-- In front of `JoinAwaiter::await_resume`. -/
  | resumed
  /-- `await_resume` is over: the exception it rethrew, if it did. -/
  | joined (stError : Option ε)
  deriving DecidableEq, Repr

/-- A joiner, with what its `await_suspend` returned. -/
structure Joiner (ε : Type) where
  phase : JoinPhase ε
  returned : Option Bool
  deriving DecidableEq, Repr

/-- `TaskScope::State`, its mutex, the parties, and the ghost records. -/
structure Scope (ε : Type) where
  stMutex : Lock
  pStop : Bool
  iActive : Nat
  vWaiters : List Nat
  bClosed : Bool
  stError : Option ε
  tasks : List (TaskPhase ε)
  joiners : List (Joiner ε)
  /-- Ghost: the exceptions the tasks' functions ended with, in order. -/
  threw : List (Nat × ε)
  /-- Ghost: the exceptions that went through the catch block, in order. -/
  recorded : List (Nat × ε)
  /-- Ghost: the calls of `Schedule` on joiners, each with the task that made it. -/
  scheduled : List (Nat × Nat)
  /-- Ghost: the tasks whose decrement gave zero, the latest first. -/
  zeroed : List Nat
  deriving DecidableEq, Repr

/-- A fresh scope. -/
def init (ε : Type) : Scope ε where
  stMutex := .free
  pStop := false
  iActive := 0
  vWaiters := []
  bClosed := false
  stError := none
  tasks := []
  joiners := []
  threw := []
  recorded := []
  scheduled := []
  zeroed := []

/-! ## The steps -/

/-- `--pState->iActive` on a `size_t`. -/
def decrement (n : Nat) : Nat := if n = 0 then 2 ^ 64 - 1 else n - 1

inductive Event (ε : Type) where
  /-- `Start` takes the mutex and tests `bClosed`. -/
  | startEnter
  /-- The task's frame could not be made, and `Start` leaves with that exception. -/
  | startThrow
  /-- `InvokeTask`: the frame of `Run` exists and is in the run queue. -/
  | startPost
  /-- `++iActive`. -/
  | startCount
  /-- `Start` returns, and the mutex is free. -/
  | startReturn
  /-- `fnFunction` of task `k` ends, with an exception or without. -/
  | bodyEnd (k : Nat) (stError : Option ε)
  /-- The catch block of task `k`. -/
  | recordError (k : Nat)
  /-- The region with `--iActive` of task `k`. -/
  | finish (k : Nat)
  /-- One round of the loop of task `k` over `vWaitersLocal`. -/
  | wake (k : Nat)
  /-- `Join` makes a joiner. -/
  | join
  /-- `JoinAwaiter::await_suspend`. -/
  | joinSuspend (w : Nat)
  /-- A worker resumes a joiner that was scheduled. -/
  | joinResume (w : Nat)
  /-- `JoinAwaiter::await_resume`. -/
  | joinEnd (w : Nat)
  /-- `RequestStop`, also from `~TaskScope`. -/
  | requestStop
  deriving DecidableEq, Repr

/-- The joiner `w` was passed to `Schedule`. -/
def Scope.wasScheduled (s : Scope ε) (w : Nat) : Bool := s.scheduled.any fun c => c.1 == w

/-- The catch block: the first exception stays, and the tasks are asked to stop. -/
def recordError (s : Scope ε) (k : Nat) (e : ε) : Scope ε :=
  { s with
    stError := if s.stError.isNone then some e else s.stError
    pStop := true
    tasks := s.tasks.set k .finishing
    recorded := s.recorded ++ [(k, e)] }

/-- `if (--pState->iActive == 0) vWaitersLocal.swap(pState->vWaiters)`. -/
def finish (s : Scope ε) (k : Nat) : Scope ε :=
  let iActive := decrement s.iActive
  if iActive = 0 then
    { s with
      iActive := iActive
      vWaiters := []
      tasks := s.tasks.set k (.waking s.vWaiters)
      zeroed := k :: s.zeroed }
  else { s with iActive := iActive, tasks := s.tasks.set k (.waking []) }

/-- `JoinAwaiter::await_suspend`. -/
def joinSuspend (s : Scope ε) (w : Nat) : Scope ε :=
  if s.iActive = 0 then
    { s with bClosed := true, joiners := s.joiners.set w ⟨.resumed, some false⟩ }
  else
    { s with
      bClosed := true
      vWaiters := s.vWaiters ++ [w]
      joiners := s.joiners.set w ⟨.suspended, some true⟩ }

/-- One step of some party; `none` where the party is not there, or waits for the mutex. -/
def step (s : Scope ε) : Event ε → Option (Scope ε)
  | .startEnter =>
      if s.stMutex = .free then
        -- a closed scope throws, and the guard gives the mutex back
        if s.bClosed then some s else some { s with stMutex := .starting }
      else none
  | .startThrow => if s.stMutex = .starting then some { s with stMutex := .free } else none
  | .startPost =>
      if s.stMutex = .starting then
        some { s with stMutex := .posted, tasks := s.tasks ++ [.running] }
      else none
  | .startCount =>
      if s.stMutex = .posted then
        some { s with stMutex := .counted, iActive := s.iActive + 1 }
      else none
  | .startReturn => if s.stMutex = .counted then some { s with stMutex := .free } else none
  | .bodyEnd k err =>
      match s.tasks[k]? with
      | some .running =>
          match err with
          | none => some { s with tasks := s.tasks.set k .finishing }
          | some e => some { s with tasks := s.tasks.set k (.failed e), threw := s.threw ++ [(k, e)] }
      | _ => none
  | .recordError k =>
      match s.tasks[k]? with
      | some (.failed e) => if s.stMutex = .free then some (recordError s k e) else none
      | _ => none
  | .finish k =>
      match s.tasks[k]? with
      | some .finishing => if s.stMutex = .free then some (finish s k) else none
      | _ => none
  | .wake k =>
      match s.tasks[k]? with
      | some (.waking (w :: ws)) =>
          some { s with tasks := s.tasks.set k (.waking ws), scheduled := s.scheduled ++ [(w, k)] }
      | some (.waking []) => some { s with tasks := s.tasks.set k .done }
      | _ => none
  | .join => some { s with joiners := s.joiners ++ [⟨.created, none⟩] }
  | .joinSuspend w =>
      match s.joiners[w]? with
      | some ⟨.created, _⟩ => if s.stMutex = .free then some (joinSuspend s w) else none
      | _ => none
  | .joinResume w =>
      match s.joiners[w]? with
      | some ⟨.suspended, r⟩ =>
          if s.wasScheduled w then some { s with joiners := s.joiners.set w ⟨.resumed, r⟩ } else none
      | _ => none
  | .joinEnd w =>
      match s.joiners[w]? with
      | some ⟨.resumed, r⟩ =>
          if s.stMutex = .free then
            some { s with joiners := s.joiners.set w ⟨.joined s.stError, r⟩ }
          else none
      | _ => none
  | .requestStop =>
      if s.stMutex = .free then some { s with bClosed := true, pStop := true } else none

/-! ## The account of the scope

The count is the number of tasks in front of their decrement, and a joiner that suspended is in one
place: registered, in the hands of the last task, or scheduled. -/

/-- One for each task that has not done its `--iActive`. -/
def active (p : TaskPhase ε) : Nat := if p.unfinished then 1 else 0

/-- The task `Start` has posted and not counted yet. -/
def Scope.uncounted (s : Scope ε) : Nat := if s.stMutex = .posted then 1 else 0

/-- The scope is closed and has no task left. -/
def Scope.Drained (s : Scope ε) : Prop := s.iActive = 0 ∧ s.bClosed = true

/-- How often the joiner `w` was passed to `Schedule`. -/
def Scope.calls (s : Scope ε) (w : Nat) : Nat := s.scheduled.countP fun c => c.1 == w

/-- Whether `await_suspend` of the joiner `w` returned true. -/
def Scope.didSuspend (s : Scope ε) (w : Nat) : Bool :=
  (s.joiners[w]?).any fun j => j.returned == some true

/-- **The invariant of the scope.** -/
structure Accounted (s : Scope ε) : Prop where
  /-- The count is the number of unfinished tasks, less the one that is posted and not counted. -/
  count : s.iActive + s.uncounted = tally active s.tasks
  /-- `Start` keeps the mutex only of an open scope. -/
  held : s.stMutex ≠ .free → s.bClosed = false
  /-- A joiner that suspended is in one place, and no other joiner is in any. -/
  places : ∀ w, s.vWaiters.count w + tally (TaskPhase.toWake w) s.tasks + s.calls w =
    if s.didSuspend w then 1 else 0
  /-- Registered waiters have a task to wait for. -/
  waiters : s.vWaiters ≠ [] → s.bClosed = true ∧ 0 < s.iActive
  /-- Only the last task to give zero has waiters to schedule. -/
  waking : ∀ (k : Nat) ws, s.tasks[k]? = some (.waking ws) → ws ≠ [] →
    s.Drained ∧ s.zeroed.head? = some k
  scheduled : ∀ c ∈ s.scheduled, s.Drained ∧ s.zeroed.head? = some c.2
  created : ∀ (w : Nat) r, s.joiners[w]? = some ⟨.created, r⟩ → r = none
  /-- A joiner past its wait is in a drained scope. -/
  resumed : ∀ (w : Nat) r, s.joiners[w]? = some ⟨.resumed, r⟩ → s.Drained
  joined : ∀ (w : Nat) e r, s.joiners[w]? = some ⟨.joined e, r⟩ → s.Drained ∧ e = s.stError
  first : s.stError = s.recorded.head?.map Prod.snd
  /-- An exception is recorded, or in front of the catch block's mutex. -/
  thrown : ∀ c ∈ s.threw, c ∈ s.recorded ∨ s.tasks[c.1]? = some (.failed c.2)

theorem accounted_init : Accounted (init ε) where
  count := rfl
  held := by intro h; exact absurd rfl h
  places := by intro w; rfl
  waiters := by intro h; exact absurd rfl h
  waking := by intro k ws h; simp [init] at h
  scheduled := by intro c h; simp [init] at h
  created := by intro w r h; simp [init] at h
  resumed := by intro w r h; simp [init] at h
  joined := by intro w e r h; simp [init] at h
  first := rfl
  thrown := by intro c h; simp [init] at h

variable {k w : Nat} {p : TaskPhase ε} {s s' : Scope ε}

/-- An unfinished task of a closed scope is counted. -/
theorem Accounted.active_pos (hI : Accounted s) (hc : s.bClosed = true) (hp : s.tasks[k]? = some p)
    (hu : p.unfinished = true) : 0 < s.iActive := by
  have hfree : s.stMutex = .free := by
    by_contra hne
    rw [hI.held hne] at hc
    cases hc
  have hle := le_tally active hp
  have hcount := hI.count
  have hone : active p = 1 := by simp [active, hu]
  have hzero : s.uncounted = 0 := by simp [Scope.uncounted, hfree]
  omega

theorem Accounted.not_drained (hI : Accounted s) (hp : s.tasks[k]? = some p)
    (hu : p.unfinished = true) : ¬ s.Drained := by
  intro hd
  have := hI.active_pos hd.2 hp hu
  have := hd.1
  omega

/-- A region under the mutex that meets a task in front of it finds the task counted. -/
theorem Accounted.count_pos (hI : Accounted s) (hfree : s.stMutex = .free)
    (hp : s.tasks[k]? = some p) (hu : p.unfinished = true) : 0 < s.iActive := by
  have hle := le_tally active hp
  have hcount := hI.count
  have hone : active p = 1 := by simp [active, hu]
  have hzero : s.uncounted = 0 := by simp [Scope.uncounted, hfree]
  omega

/-! ## What a change of one task keeps

The account is a sum over the tasks; a step that changes one of them changes one term of each sum.
-/

/-- A task that stays on its side of the decrement keeps the count. -/
theorem count_set (hI : Accounted s) (hp : s.tasks[k]? = some p) (q : TaskPhase ε)
    (hpq : q.unfinished = p.unfinished) :
    s.iActive + s.uncounted = tally active (s.tasks.set k q) := by
  rw [tally_set_eq hp (by rw [active, active, hpq])]
  exact hI.count

variable {q : TaskPhase ε}

/-- A task that moves on without a waiter to schedule leaves every waiter where it is. -/
theorem places_set (hI : Accounted s) (hp : s.tasks[k]? = some p) (hpw : ∀ w, p.toWake w = 0)
    (hqw : ∀ w, q.toWake w = 0) (w : Nat) :
    s.vWaiters.count w + tally (TaskPhase.toWake w) (s.tasks.set k q) + s.calls w =
      if s.didSuspend w then 1 else 0 := by
  rw [tally_set_eq hp ((hqw w).trans (hpw w).symm)]
  exact hI.places w

theorem thrown_set (hI : Accounted s) (hp : s.tasks[k]? = some p) (hpf : ∀ e, p ≠ .failed e) :
    ∀ c ∈ s.threw, c ∈ s.recorded ∨ (s.tasks.set k q)[c.1]? = some (.failed c.2) := by
  intro c hc
  rcases hI.thrown c hc with h | h
  · exact Or.inl h
  · refine Or.inr ?_
    rw [List.getElem?_set_ne, h]
    intro hk
    rw [← hk, hp] at h
    exact hpf c.2 (Option.some.inj h)

/-- A task that moves on to a position without waiters to schedule keeps what is known of the tasks
that have some. -/
theorem waking_set (hI : Accounted s) (hq : ∀ ws, q = .waking ws → ws = []) :
    ∀ (k' : Nat) ws, (s.tasks.set k q)[k']? = some (.waking ws) → ws ≠ [] →
      s.Drained ∧ s.zeroed.head? = some k' := by
  intro k' ws h hne
  rcases getElem?_set_cases h with ⟨_, hp⟩ | ⟨_, h'⟩
  · exact absurd (hq ws hp.symm) hne
  · exact hI.waking k' ws h' hne

/-! ## Each step keeps the account

The tasks first. The decrement that gives zero in a closed scope takes all waiters, and there is no
second one. -/

/-- The steps of `Start` that only move its position under the mutex. -/
theorem Accounted.setMutex (hI : Accounted s) {m : Lock} (hs : s.stMutex ≠ .posted)
    (hm : m ≠ .posted) (hheld : m ≠ .free → s.bClosed = false) :
    Accounted { s with stMutex := m } :=
  { hI with
    count := by
      have h : s.iActive + s.uncounted = tally active s.tasks := hI.count
      simp only [Scope.uncounted, if_neg hs] at h
      simpa only [Scope.uncounted, if_neg hm] using h
    held := hheld }

theorem Accounted.startPost (hI : Accounted s) (hs : s.stMutex = .starting) :
    Accounted { s with stMutex := .posted, tasks := s.tasks ++ [.running] } := by
  have hopen : s.bClosed = false := hI.held (by rw [hs]; decide)
  refine { hI with count := ?_, held := ?_, places := ?_, waking := ?_, thrown := ?_ }
  · have h := hI.count
    simp only [Scope.uncounted, hs] at h
    simp only [Scope.uncounted, if_true, tally_append, tally_cons, tally_nil, active,
      TaskPhase.unfinished]
    simpa using h
  · intro _
    exact hopen
  · intro w
    simp only [tally_append, tally_cons, tally_nil, TaskPhase.toWake, Nat.add_zero]
    exact hI.places w
  · intro k ws h hne
    rcases getElem?_concat_cases h with h | h
    · exact hI.waking k ws h hne
    · cases h
  · intro c hc
    rcases hI.thrown c hc with h | h
    · exact Or.inl h
    · refine Or.inr ?_
      have hlt : c.1 < s.tasks.length := (List.getElem?_eq_some_iff.1 h).1
      show (s.tasks ++ [.running])[c.1]? = _
      rw [List.getElem?_append_left hlt, h]

/-- The count is raised while the mutex is held, so the scope is open and nobody relies on it being
drained. -/
theorem Accounted.startCount (hI : Accounted s) (hs : s.stMutex = .posted) :
    Accounted { s with stMutex := .counted, iActive := s.iActive + 1 } := by
  have hopen : s.bClosed = false := hI.held (by rw [hs]; decide)
  have hnot : ¬ s.Drained := by
    intro hd
    rw [hd.2] at hopen
    cases hopen
  refine
    { hI with
      count := ?_
      held := fun _ => hopen
      waiters := ?_
      waking := fun k ws h hne => absurd (hI.waking k ws h hne).1 hnot
      scheduled := fun c hc => absurd (hI.scheduled c hc).1 hnot
      resumed := fun w r h => absurd (hI.resumed w r h) hnot
      joined := fun w e r h => absurd (hI.joined w e r h).1 hnot }
  · have h := hI.count
    simp only [Scope.uncounted, hs, if_true] at h
    simpa [Scope.uncounted] using h
  · intro h
    have hc := (hI.waiters h).1
    rw [hopen] at hc
    cases hc

/-- The function of a task ends; the task stays unfinished. -/
theorem Accounted.bodyEnd (hI : Accounted s) (hp : s.tasks[k]? = some .running) (err : Option ε)
    (h : step s (.bodyEnd k err) = some s') : Accounted s' := by
  have hlt : k < s.tasks.length := (List.getElem?_eq_some_iff.1 hp).1
  cases err with
  | none =>
    simp only [step, hp, Option.some.injEq] at h
    subst h
    exact
      { hI with
        count := count_set hI hp .finishing rfl
        places := places_set hI hp (fun _ => rfl) (fun _ => rfl)
        waking := waking_set hI (by intro ws hw; cases hw)
        thrown := thrown_set hI hp (by intro e he; cases he) }
  | some e =>
    simp only [step, hp, Option.some.injEq] at h
    subst h
    refine
      { hI with
        count := count_set hI hp (.failed e) rfl
        places := places_set hI hp (fun _ => rfl) (fun _ => rfl)
        waking := waking_set hI (by intro ws hw; cases hw)
        thrown := ?_ }
    intro c hc
    rcases List.mem_append.1 hc with hc | hc
    · exact thrown_set hI hp (by intro e he; cases he) c hc
    · obtain rfl := List.mem_singleton.1 hc
      exact Or.inr (List.getElem?_set_self hlt)

/-- The first exception recorded stays the one that is kept. -/
theorem first_recorded (hI : Accounted s) (k : Nat) (e : ε) :
    (if s.stError.isNone then some e else s.stError) =
      (s.recorded ++ [(k, e)]).head?.map Prod.snd := by
  have h := hI.first
  cases hr : s.recorded with
  | nil | cons c cs =>
    rw [hr] at h
    rw [h]
    rfl

/-- The catch block runs in a task that is unfinished, so no joiner has looked for an exception
yet. -/
theorem Accounted.recordError (hI : Accounted s) {e : ε} (hp : s.tasks[k]? = some (.failed e)) :
    Accounted (recordError s k e) := by
  have hnot : ¬ s.Drained := hI.not_drained hp rfl
  exact
    { hI with
      count := count_set hI hp .finishing rfl
      places := places_set hI hp (fun _ => rfl) (fun _ => rfl)
      waking := waking_set hI (by intro ws hw; cases hw)
      joined := fun w e r h => absurd (hI.joined w e r h).1 hnot
      first := first_recorded hI k e
      thrown := by
        intro c hc
        rcases hI.thrown c hc with h | h
        · exact Or.inl (List.mem_append_left _ h)
        · by_cases hk : c.1 = k
          · -- this is the exception that is being recorded
            rw [hk, hp] at h
            have he : e = c.2 := by injection Option.some.inj h
            refine Or.inl (List.mem_append_right _ (List.mem_singleton.2 ?_))
            rw [← hk, he]
          · refine Or.inr ?_
            show (s.tasks.set k .finishing)[c.1]? = _
            rw [List.getElem?_set_ne (fun h => hk h.symm), h] }

/-- The last task takes all waiters over. The count was one, so every other task is past its
decrement, and as nothing was drained, nobody else has a waiter to schedule. -/
theorem Accounted.finishLast (hI : Accounted s) (hp : s.tasks[k]? = some .finishing)
    (hfree : s.stMutex = .free) (hone : s.iActive = 1) :
    Accounted { s with
      iActive := 0
      vWaiters := []
      tasks := s.tasks.set k (.waking s.vWaiters)
      zeroed := k :: s.zeroed } := by
  have hnot : ¬ s.Drained := hI.not_drained hp rfl
  refine
    { hI with
      count := ?_
      places := ?_
      waiters := fun h => absurd rfl h
      waking := ?_
      scheduled := fun c hc => absurd (hI.scheduled c hc).1 hnot
      resumed := fun w r h => absurd (hI.resumed w r h) hnot
      joined := fun w e r h => absurd (hI.joined w e r h).1 hnot
      thrown := thrown_set hI hp (by intro e he; cases he) }
  · have hset := @tally_set _ active (.waking s.vWaiters) .finishing s.tasks k hp
    have hcount := hI.count
    simp only [Scope.uncounted, hfree] at hcount ⊢
    simp [active, TaskPhase.unfinished] at hset hcount ⊢
    omega
  · intro w
    have hset := @tally_set _ (TaskPhase.toWake w) (.waking s.vWaiters) .finishing s.tasks k hp
    have hw := hI.places w
    show ([] : List Nat).count w + tally (TaskPhase.toWake w) (s.tasks.set k (.waking s.vWaiters)) +
      s.calls w = if s.didSuspend w then 1 else 0
    simp only [TaskPhase.toWake] at hset
    rw [List.count_nil, Nat.zero_add, ← hw]
    omega
  · intro k' ws h hne
    rcases getElem?_set_cases h with ⟨rfl, hws⟩ | ⟨_, h'⟩
    · injection hws with hws
      rw [hws] at hne
      exact ⟨⟨rfl, (hI.waiters hne).1⟩, rfl⟩
    · exact absurd (hI.waking k' ws h' hne).1 hnot

/-- A task that is not the last leaves the waiters to the others. -/
theorem Accounted.finishOther (hI : Accounted s) (hp : s.tasks[k]? = some .finishing)
    (hfree : s.stMutex = .free) (hmore : 1 < s.iActive) :
    Accounted { s with iActive := s.iActive - 1, tasks := s.tasks.set k (.waking []) } := by
  have hnot : ¬ s.Drained := hI.not_drained hp rfl
  refine
    { hI with
      count := ?_
      places := places_set hI hp (fun _ => rfl) (fun _ => rfl)
      waiters := fun h => ⟨(hI.waiters h).1, ?_⟩
      waking := ?_
      scheduled := fun c hc => absurd (hI.scheduled c hc).1 hnot
      resumed := fun w r h => absurd (hI.resumed w r h) hnot
      joined := fun w e r h => absurd (hI.joined w e r h).1 hnot
      thrown := thrown_set hI hp (by intro e he; cases he) }
  · have hset := @tally_set _ active (.waking []) .finishing s.tasks k hp
    have hcount := hI.count
    simp only [Scope.uncounted, hfree] at hcount ⊢
    simp [active, TaskPhase.unfinished] at hset hcount ⊢
    omega
  · show 0 < s.iActive - 1
    omega
  · intro k' ws h hne
    refine absurd (waking_set hI ?_ k' ws h hne).1 hnot
    intro ws hw
    injection hw with hw
    exact hw.symm

theorem Accounted.finish (hI : Accounted s) (hp : s.tasks[k]? = some .finishing)
    (hfree : s.stMutex = .free) : Accounted (finish s k) := by
  have hpos : 0 < s.iActive := hI.count_pos hfree hp rfl
  have hdec : decrement s.iActive = s.iActive - 1 := by
    rw [decrement, if_neg (by omega)]
  by_cases hone : s.iActive = 1
  · have hzero : decrement s.iActive = 0 := by rw [hdec, hone]
    rw [TaskScope.finish]
    simp only [hzero, if_true]
    exact hI.finishLast hp hfree hone
  · have hne : decrement s.iActive ≠ 0 := by rw [hdec]; omega
    rw [TaskScope.finish]
    simp only [if_neg hne]
    rw [hdec]
    exact hI.finishOther hp hfree (by omega)

/-- A waiter goes from the list of the waking task to the calls of `Schedule`. -/
theorem Accounted.wakeNext (hI : Accounted s) {ws : List Nat}
    (hp : s.tasks[k]? = some (.waking (w :: ws))) :
    Accounted { s with
      tasks := s.tasks.set k (.waking ws), scheduled := s.scheduled ++ [(w, k)] } := by
  have hwak := hI.waking k (w :: ws) hp (by simp)
  refine
    { hI with
      count := count_set hI hp (.waking ws) rfl
      places := ?_
      waking := ?_
      scheduled := ?_
      thrown := thrown_set hI hp (by intro e he; cases he) }
  · intro v
    have hset := @tally_set _ (TaskPhase.toWake v) (.waking ws) (.waking (w :: ws)) s.tasks k hp
    have hv := hI.places v
    have hcalls : (s.scheduled ++ [(w, k)]).countP (fun c => c.1 == v) =
        s.calls v + if w == v then 1 else 0 := by
      rw [List.countP_append, List.countP_singleton]
      rfl
    simp only [TaskPhase.toWake, List.count_cons] at hset
    show s.vWaiters.count v + tally (TaskPhase.toWake v) (s.tasks.set k (.waking ws)) +
      (s.scheduled ++ [(w, k)]).countP (fun c => c.1 == v) = if s.didSuspend v then 1 else 0
    rw [hcalls, ← hv]
    omega
  · intro k' ws' h hne
    rcases getElem?_set_cases h with ⟨rfl, _⟩ | ⟨_, h'⟩
    · exact hwak
    · exact hI.waking k' ws' h' hne
  · intro c hc
    rcases List.mem_append.1 hc with hc | hc
    · exact hI.scheduled c hc
    · obtain rfl := List.mem_singleton.1 hc
      exact hwak

theorem Accounted.wakeEnd (hI : Accounted s) (hp : s.tasks[k]? = some (.waking [])) :
    Accounted { s with tasks := s.tasks.set k .done } :=
  { hI with
    count := count_set hI hp .done rfl
    places := places_set hI hp (fun _ => rfl) (fun _ => rfl)
    waking := waking_set hI (by intro ws hw; cases hw)
    thrown := thrown_set hI hp (by intro e he; cases he) }

/-! ### The joiners -/

/-- What the other joiners' `await_suspend` returned does not change, and the one that moves keeps
or sets its own. -/
theorem didSuspend_set {j j' : Joiner ε} (hj : s.joiners[w]? = some j) (v : Nat) :
    ((s.joiners.set w j')[v]?.any fun i => i.returned == some true) =
      if v = w then j'.returned == some true else s.didSuspend v := by
  have hlt : w < s.joiners.length := (List.getElem?_eq_some_iff.1 hj).1
  by_cases hv : v = w
  · rw [if_pos hv, hv, List.getElem?_set_self hlt]
    rfl
  · rw [if_neg hv, List.getElem?_set_ne (fun h => hv h.symm)]
    rfl

/-- A joiner that moves on in a drained scope, and keeps or sets to false what its `await_suspend`
returned, keeps the account. -/
theorem Accounted.setJoiner {s : Scope ε} (hI : Accounted s) {w : Nat} {j j' : Joiner ε}
    (hj : s.joiners[w]? = some j)
    (hret : (j'.returned == some true) = (j.returned == some true))
    (hnew : j'.phase ≠ .created) (hdr : s.Drained)
    (hjoin : ∀ e, j'.phase = .joined e → e = s.stError) :
    Accounted { s with joiners := s.joiners.set w j' } := by
  refine { hI with places := ?_, created := ?_, resumed := ?_, joined := ?_ }
  · intro v
    have hv := hI.places v
    have hsame : ((s.joiners.set w j')[v]?.any fun i => i.returned == some true) =
        s.didSuspend v := by
      rw [didSuspend_set hj]
      by_cases hvw : v = w
      · rw [if_pos hvw, hret, hvw, Scope.didSuspend, hj]
        rfl
      · rw [if_neg hvw]
    rw [← hsame] at hv
    exact hv
  · intro v r h
    rcases getElem?_set_cases h with ⟨_, hr⟩ | ⟨_, h'⟩
    · rw [← hr] at hnew
      exact absurd rfl hnew
    · exact hI.created v r h'
  · intro v r _
    exact hdr
  · intro v e r h
    refine ⟨hdr, ?_⟩
    rcases getElem?_set_cases h with ⟨_, hr⟩ | ⟨_, h'⟩
    · exact hjoin e (by rw [← hr])
    · exact (hI.joined v e r h').2

theorem Accounted.close {s : Scope ε} (hI : Accounted s) (hfree : s.stMutex = .free) (b : Bool) :
    Accounted { s with bClosed := true, pStop := b } :=
  { hI with
    held := fun h => absurd hfree h
    waiters := fun h => ⟨rfl, (hI.waiters h).2⟩
    waking := fun k ws h hne => ⟨⟨(hI.waking k ws h hne).1.1, rfl⟩, (hI.waking k ws h hne).2⟩
    scheduled := fun c hc => ⟨⟨(hI.scheduled c hc).1.1, rfl⟩, (hI.scheduled c hc).2⟩
    resumed := fun w r h => ⟨(hI.resumed w r h).1, rfl⟩
    joined := fun w e r h => ⟨⟨(hI.joined w e r h).1.1, rfl⟩, (hI.joined w e r h).2⟩ }

/-- A joiner registers with a task to wait for. -/
theorem Accounted.register {s : Scope ε} (hI : Accounted s) {w : Nat} {r : Option Bool}
    (hj : s.joiners[w]? = some ⟨.created, r⟩) (hc : s.bClosed = true) (hpos : 0 < s.iActive) :
    Accounted { s with
      vWaiters := s.vWaiters ++ [w], joiners := s.joiners.set w ⟨.suspended, some true⟩ } := by
  refine
    { hI with
      places := ?_, waiters := fun _ => ⟨hc, hpos⟩, created := ?_, resumed := ?_, joined := ?_ }
  · intro v
    have hv := hI.places v
    have hnew : s.didSuspend w = false := by
      rw [Scope.didSuspend, hj, hI.created w r hj]
      rfl
    show (s.vWaiters ++ [w]).count v + tally (TaskPhase.toWake v) s.tasks + s.calls v =
      if ((s.joiners.set w ⟨.suspended, some true⟩)[v]?.any fun i => i.returned == some true)
        then 1 else 0
    rw [didSuspend_set hj, List.count_append]
    by_cases hvw : v = w
    · subst hvw
      rw [hnew] at hv
      rw [if_pos rfl, List.count_singleton_self]
      simp only [Bool.false_eq_true, if_false] at hv
      simp only [beq_self_eq_true, if_true]
      omega
    · rw [if_neg hvw, List.count_singleton]
      simp only [beq_eq_false_iff_ne.2 (fun h : w = v => hvw h.symm)]
      simpa using hv
  · intro v r' h
    rcases getElem?_set_cases h with ⟨_, hr⟩ | ⟨_, h'⟩
    · cases hr
    · exact hI.created v r' h'
  · intro v r' h
    rcases getElem?_set_cases h with ⟨_, hr⟩ | ⟨_, h'⟩
    · cases hr
    · exact hI.resumed v r' h'
  · intro v e r' h
    rcases getElem?_set_cases h with ⟨_, hr⟩ | ⟨_, h'⟩
    · cases hr
    · exact hI.joined v e r' h'

theorem Accounted.joinSuspend (hI : Accounted s) {r : Option Bool}
    (hj : s.joiners[w]? = some ⟨.created, r⟩) (hfree : s.stMutex = .free) :
    Accounted (joinSuspend s w) := by
  have hclosed := hI.close hfree s.pStop
  rw [TaskScope.joinSuspend]
  split
  case isTrue hz =>
    refine @Accounted.setJoiner _ _ hclosed w _ ⟨.resumed, some false⟩ hj ?_ ?_ ⟨hz, rfl⟩ ?_
    · rw [hI.created w r hj]
      rfl
    · intro h
      cases h
    · intro e h
      cases h
  case isFalse hz =>
    exact hclosed.register hj rfl (Nat.pos_of_ne_zero hz)

theorem Accounted.newJoiner (hI : Accounted s) :
    Accounted { s with joiners := s.joiners ++ [⟨.created, none⟩] } := by
  refine { hI with places := ?_, created := ?_, resumed := ?_, joined := ?_ }
  · intro v
    have hsame : ((s.joiners ++ [⟨.created, none⟩])[v]?.any fun i => i.returned == some true) =
        s.didSuspend v := by
      rw [Scope.didSuspend, List.getElem?_append]
      by_cases hlt : v < s.joiners.length
      · rw [if_pos hlt]
      · rw [if_neg hlt, List.getElem?_singleton, List.getElem?_eq_none (by omega)]
        split
        · rfl
        · rfl
    have hv := hI.places v
    rw [← hsame] at hv
    exact hv
  · intro w r h
    rcases getElem?_concat_cases h with h | h
    · exact hI.created w r h
    · injection h
  · intro w r h
    rcases getElem?_concat_cases h with h | h
    · exact hI.resumed w r h
    · cases h
  · intro w e r h
    rcases getElem?_concat_cases h with h | h
    · exact hI.joined w e r h
    · cases h

/-! ### Every step -/

theorem step_accounted {e : Event ε} (hI : Accounted s) (h : step s e = some s') :
    Accounted s' := by
  cases e with
  | startEnter =>
    obtain ⟨hfree, h⟩ := Option.ite_none_right_eq_some.1 h
    split at h
    case isTrue =>
      obtain rfl := Option.some.inj h
      exact hI
    case isFalse hopen =>
      obtain rfl := Option.some.inj h
      refine hI.setMutex (by rw [hfree]; decide) (by decide) ?_
      intro _
      simpa using hopen
  | startThrow =>
    obtain ⟨hs, rfl⟩ := of_guard h
    exact hI.setMutex (by rw [hs]; decide) (by decide) (fun h => absurd rfl h)
  | startPost =>
    obtain ⟨hs, rfl⟩ := of_guard h
    exact hI.startPost hs
  | startCount =>
    obtain ⟨hs, rfl⟩ := of_guard h
    exact hI.startCount hs
  | startReturn =>
    obtain ⟨hs, rfl⟩ := of_guard h
    exact hI.setMutex (by rw [hs]; decide) (by decide) (fun h => absurd rfl h)
  | bodyEnd k err =>
    have hp : s.tasks[k]? = some .running := by
      simp only [step] at h
      split at h
      case h_1 hp => exact hp
      case h_2 => cases h
    exact hI.bodyEnd hp err h
  | recordError k =>
    simp only [step] at h
    split at h
    case h_2 => cases h
    case h_1 e hp =>
      obtain ⟨_, rfl⟩ := of_guard h
      exact hI.recordError hp
  | finish k =>
    simp only [step] at h
    split at h
    case h_2 => cases h
    case h_1 hp =>
      obtain ⟨hfree, rfl⟩ := of_guard h
      exact hI.finish hp hfree
  | wake k =>
    simp only [step] at h
    split at h
    case h_1 w ws hp =>
      obtain rfl := Option.some.inj h
      exact hI.wakeNext hp
    case h_2 hp =>
      obtain rfl := Option.some.inj h
      exact hI.wakeEnd hp
    case h_3 => cases h
  | join =>
    obtain rfl := Option.some.inj h
    exact hI.newJoiner
  | joinSuspend w =>
    simp only [step] at h
    split at h
    case h_2 => cases h
    case h_1 r hj =>
      obtain ⟨hfree, rfl⟩ := of_guard h
      exact hI.joinSuspend hj hfree
  | joinResume w =>
    simp only [step] at h
    split at h
    case h_2 => cases h
    case h_1 r hj =>
      obtain ⟨hsched, rfl⟩ := of_guard h
      -- a joiner is only scheduled in a drained scope
      obtain ⟨c, hc, _⟩ := List.any_eq_true.1 hsched
      refine hI.setJoiner hj rfl ?_ (hI.scheduled c hc).1 ?_
      · intro h
        cases h
      · intro e h
        cases h
  | joinEnd w =>
    simp only [step] at h
    split at h
    case h_2 => cases h
    case h_1 r hj =>
      obtain ⟨_, rfl⟩ := of_guard h
      refine hI.setJoiner hj rfl ?_ (hI.resumed w r hj) ?_
      · intro h
        cases h
      · intro e h
        injection h with h
        exact h.symm
  | requestStop =>
    obtain ⟨hfree, rfl⟩ := of_guard h
    exact hI.close hfree true

theorem run_accounted {es : List (Event ε)} (h : runFrom step (init ε) es = some s) : Accounted s :=
  runFrom_invariant (fun _ _ _ => step_accounted) accounted_init h

/-! ## A drained scope stays drained

`Start` is refused from then on, so what a joiner has seen does not change any more. -/

/-- No task is posted, and none is left to count down. -/
theorem drained_step {e : Event ε} (hI : Accounted s) (hd : s.Drained) (h : step s e = some s') :
    s'.Drained ∧ s'.tasks.length = s.tasks.length := by
  have hfree : s.stMutex = .free := by
    by_contra hne
    have := hI.held hne
    rw [hd.2] at this
    cases this
  cases e with
  | startEnter =>
    simp only [step, hfree, hd.2, if_true, Option.some.injEq] at h
    subst h
    exact ⟨hd, rfl⟩
  | startThrow => simp [step, hfree] at h
  | startPost => simp [step, hfree] at h
  | startCount => simp [step, hfree] at h
  | startReturn => simp [step, hfree] at h
  | bodyEnd k err | recordError k | finish k =>
    simp only [step] at h
    split at h
    case h_1 hp => exact absurd hd (hI.not_drained hp rfl)
    case h_2 => cases h
  | wake k =>
    simp only [step] at h
    split at h
    case h_1 w ws hp =>
      obtain rfl := Option.some.inj h
      exact ⟨hd, List.length_set⟩
    case h_2 hp =>
      obtain rfl := Option.some.inj h
      exact ⟨hd, List.length_set⟩
    case h_3 => cases h
  | join =>
    obtain rfl := Option.some.inj h
    exact ⟨hd, rfl⟩
  | joinSuspend w =>
    simp only [step] at h
    split at h
    case h_2 => cases h
    case h_1 r hj =>
      rw [if_pos hfree, joinSuspend, if_pos hd.1] at h
      obtain rfl := Option.some.inj h
      exact ⟨⟨hd.1, rfl⟩, rfl⟩
  | joinResume w =>
    simp only [step] at h
    split at h
    case h_2 => cases h
    case h_1 r hj =>
      obtain ⟨_, rfl⟩ := of_guard h
      exact ⟨hd, rfl⟩
  | joinEnd w =>
    simp only [step] at h
    split at h
    case h_2 => cases h
    case h_1 r hj =>
      rw [if_pos hfree] at h
      obtain rfl := Option.some.inj h
      exact ⟨hd, rfl⟩
  | requestStop =>
    simp only [step, if_pos hfree] at h
    obtain rfl := Option.some.inj h
    exact ⟨⟨hd.1, rfl⟩, rfl⟩

theorem drained_run {es : List (Event ε)} (hI : Accounted s) (hd : s.Drained)
    (h : runFrom step s es = some s') :
    Accounted s' ∧ s'.Drained ∧ s'.tasks.length = s.tasks.length := by
  refine @runFrom_invariant _ _ step
    (fun t => Accounted t ∧ t.Drained ∧ t.tasks.length = s.tasks.length) ?_ es s s'
    ⟨hI, hd, rfl⟩ h
  rintro t e t' ⟨hIt, hdt, hlen⟩ ht
  have hstep := drained_step hIt hdt ht
  exact ⟨step_accounted hIt ht, hstep.1, hstep.2.trans hlen⟩

/-! ## What a joiner can rely on -/

/-- The joiner `w` is past its wait: `await_suspend` returned false, or it was resumed. -/
def Scope.Completed (s : Scope ε) (w : Nat) : Prop :=
  ∃ j, s.joiners[w]? = some j ∧ (j.phase = .resumed ∨ ∃ e, j.phase = .joined e)

/-- **What holds of the scope in every state.** -/
structure JoinsCompletely (s : Scope ε) : Prop where
  /-- The count is the number of unfinished tasks to everyone who takes the mutex. -/
  active : s.stMutex = .free → s.iActive = s.tasks.countP TaskPhase.unfinished
  /-- Inside `Start` too, apart from the task that is posted and about to be counted. -/
  activeInside : s.iActive + s.uncounted = s.tasks.countP TaskPhase.unfinished
  /-- The decrement of a task takes one off a positive count. -/
  noUnderflow : ∀ k s', step s (.finish k) = some s' → s'.iActive + 1 = s.iActive
  /-- A join completes at count zero, which it stays, and no `Start` gets past its test again. -/
  complete : ∀ w, s.Completed w → s.iActive = 0 ∧
    ∀ es s', runFrom step s es = some s' →
      s'.iActive = 0 ∧ s'.stMutex = .free ∧ s'.tasks.length = s.tasks.length ∧
        step s' .startEnter = some s'
  /-- `Schedule` is called at most once on a joiner, and only if it suspended. -/
  calls : ∀ w, s.calls w ≤ if s.didSuspend w then 1 else 0
  /-- A joiner that suspended was scheduled, or is registered with an unfinished task, or is with
  the task that brought the count to zero. -/
  noLostWake : ∀ w, s.didSuspend w = true → s.calls w = 1 ∨
    s.calls w = 0 ∧ (w ∈ s.vWaiters ∧ 0 < s.iActive ∨
      ∃ k ws, s.tasks[k]? = some (.waking ws) ∧ w ∈ ws ∧ s.zeroed.head? = some k)
  /-- When all tasks have returned, every joiner that suspended was scheduled exactly once. -/
  allWoken : (∀ p ∈ s.tasks, p = .done) → ∀ w, s.didSuspend w = true → s.calls w = 1
  /-- Every call of `Schedule` was made by the task that brought the count to zero. -/
  byLast : ∀ c ∈ s.scheduled, s.iActive = 0 ∧ s.zeroed.head? = some c.2
  /-- `Start` on a closed scope throws and changes nothing. -/
  refused : s.stMutex = .free → s.bClosed = true → step s .startEnter = some s
  /-- A join that ended rethrew the first exception recorded, and all that were thrown are
  recorded. -/
  rethrows : ∀ (w : Nat) e r, s.joiners[w]? = some ⟨.joined e, r⟩ →
    e = s.recorded.head?.map Prod.snd ∧ ∀ c ∈ s.threw, c ∈ s.recorded

theorem Accounted.active_eq (hI : Accounted s) :
    s.iActive + s.uncounted = s.tasks.countP TaskPhase.unfinished := by
  rw [hI.count, ← tally_eq_countP]
  rfl

theorem Accounted.finish_iActive (hI : Accounted s) (h : step s (.finish k) = some s') :
    s'.iActive + 1 = s.iActive := by
  simp only [step] at h
  split at h
  case h_2 => cases h
  case h_1 hp =>
    obtain ⟨hfree, rfl⟩ := of_guard h
    have hpos : 0 < s.iActive := hI.count_pos hfree hp rfl
    have hdec : decrement s.iActive + 1 = s.iActive := by
      rw [decrement, if_neg (by omega)]
      omega
    rw [TaskScope.finish]
    split
    · exact hdec
    · exact hdec

theorem Accounted.completed (hI : Accounted s) (h : s.Completed w) : s.Drained := by
  obtain ⟨⟨phase, r⟩, hj, hphase | ⟨e, hphase⟩⟩ := h
  · obtain rfl : phase = .resumed := hphase
    exact hI.resumed w r hj
  · obtain rfl : phase = .joined e := hphase
    exact (hI.joined w e r hj).1

/-- A term in the account of the waking tasks is a task that has the waiter in its list. -/
theorem exists_waking {s : Scope ε} {w : Nat} (h : tally (TaskPhase.toWake w) s.tasks ≠ 0) :
    ∃ (k : Nat) (ws : List Nat), s.tasks[k]? = some (.waking ws) ∧ w ∈ ws := by
  by_contra hnone
  refine h (tally_eq_zero fun k p hp => ?_)
  cases p with
  | waking ws =>
    apply List.count_eq_zero.2
    intro hw
    exact hnone ⟨k, ws, hp, hw⟩
  | running => rfl
  | failed e => rfl
  | finishing => rfl
  | done => rfl

theorem Accounted.noLostWake (hI : Accounted s) (hw : s.didSuspend w = true) : s.calls w = 1 ∨
      s.calls w = 0 ∧ (w ∈ s.vWaiters ∧ 0 < s.iActive ∨
        ∃ k ws, s.tasks[k]? = some (.waking ws) ∧ w ∈ ws ∧ s.zeroed.head? = some k) := by
  have hplace := hI.places w
  rw [hw, if_pos rfl] at hplace
  by_cases hcalls : s.calls w = 1
  · exact Or.inl hcalls
  · refine Or.inr ⟨by omega, ?_⟩
    by_cases hreg : s.vWaiters.count w = 0
    · obtain ⟨k, ws, hk, hmem⟩ := @exists_waking _ s w (by omega)
      have hne : ws ≠ [] := by
        intro hnil
        rw [hnil] at hmem
        cases hmem
      exact Or.inr ⟨k, ws, hk, hmem, (hI.waking k ws hk hne).2⟩
    · have hmem : w ∈ s.vWaiters := List.count_pos_iff.1 (by omega)
      have hne : s.vWaiters ≠ [] := by
        intro hnil
        rw [hnil] at hmem
        cases hmem
      exact Or.inl ⟨hmem, (hI.waiters hne).2⟩

/-- Without a task that is not done there is nothing a joiner could still wait for. -/
theorem Accounted.allWoken (hI : Accounted s) (hdone : ∀ p ∈ s.tasks, p = .done)
    (hw : s.didSuspend w = true) : s.calls w = 1 := by
  have hzero : s.tasks.countP TaskPhase.unfinished = 0 := by
    apply List.countP_eq_zero.2
    intro p hp
    rw [hdone p hp]
    exact Bool.false_ne_true
  have hact := hI.active_eq
  rcases hI.noLostWake hw with h | ⟨_, ⟨_, hpos⟩ | ⟨k, ws, hk, _, _⟩⟩
  · exact h
  · omega
  · cases hdone _ (List.mem_of_getElem? hk)

theorem Accounted.joinsCompletely (hI : Accounted s) : JoinsCompletely s where
  active := by
    intro hfree
    have h := hI.active_eq
    rwa [Scope.uncounted, hfree] at h
  activeInside := hI.active_eq
  noUnderflow := fun k s' h => hI.finish_iActive h
  complete := by
    intro w hw
    have hd := hI.completed hw
    refine ⟨hd.1, fun es s' h => ?_⟩
    obtain ⟨hI', hd', hlen⟩ := drained_run hI hd h
    have hfree : s'.stMutex = .free := by
      by_contra hne
      have := hI'.held hne
      rw [hd'.2] at this
      cases this
    refine ⟨hd'.1, hfree, hlen, ?_⟩
    simp only [step, if_pos hfree, if_pos hd'.2]
  calls := by
    intro w
    have := hI.places w
    omega
  noLostWake := fun w hw => hI.noLostWake hw
  allWoken := fun hdone w hw => hI.allWoken hdone hw
  byLast := fun c hc => ⟨(hI.scheduled c hc).1.1, (hI.scheduled c hc).2⟩
  refused := by
    intro hfree hclosed
    simp only [step, if_pos hfree, if_pos hclosed]
  rethrows := by
    intro w e r hj
    obtain ⟨hd, he⟩ := hI.joined w e r hj
    refine ⟨he.trans hI.first, fun c hc => ?_⟩
    rcases hI.thrown c hc with h | h
    · exact h
    · exact absurd hd (hI.not_drained h rfl)

/-- **A scope joins completely.** In every state of every run of callers of `Start`, tasks that end
with or without an exception, joiners and requests to stop, in whatever order their steps come:
the count is the number of unfinished tasks, a join completes at zero and ends the starting of
tasks, every joiner that suspended is scheduled once, by the task that brought the count to zero,
and it rethrows the first exception recorded. -/
theorem joins_completely {es : List (Event ε)} {s : Scope ε}
    (h : runFrom step (init ε) es = some s) : JoinsCompletely s :=
  (run_accounted h).joinsCompletely

/-- Two tasks, the second of which fails before it is counted, and two joiners: one of them
suspends and is woken by the first task, the other comes late. -/
def twoTasksTwoJoiners : List (Event Nat) :=
  [.startEnter, .startPost, .startCount, .startReturn, .startEnter, .startPost, .bodyEnd 1 (some 7),
    .startCount, .startReturn, .join, .join, .recordError 1, .joinSuspend 0, .startEnter, .finish 1,
    .wake 1, .bodyEnd 0 none, .finish 0, .wake 0, .joinResume 0, .joinSuspend 1, .joinEnd 1,
    .joinEnd 0, .wake 0]

/-- The scope after that run. -/
def twoTasksJoined : Scope Nat where
  stMutex := .free
  pStop := true
  iActive := 0
  vWaiters := []
  bClosed := true
  stError := some 7
  tasks := [.done, .done]
  joiners := [⟨.joined (some 7), some true⟩, ⟨.joined (some 7), some false⟩]
  threw := [(1, 7)]
  recorded := [(1, 7)]
  scheduled := [(0, 0)]
  zeroed := [0]

theorem joins_completely_twoTasks :
    runFrom step (init Nat) twoTasksTwoJoiners = some twoTasksJoined ∧
      JoinsCompletely twoTasksJoined :=
  have h : runFrom step (init Nat) twoTasksTwoJoiners = some twoTasksJoined := by decide +kernel
  ⟨h, joins_completely h⟩

end OpenIdea.Coro.TaskScope

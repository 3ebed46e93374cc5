import OpenIdea.Lib.Tally
import OpenIdea.Lib.Intrusive
import OpenIdea.Coro.TaskWaiters

/-!
# The invariant of tasks and their waiters

Every node that is in the list of a task, or in the part of it the walk has still to come by, is
**held** by that task. The invariant says which nodes those are: the awaiters of the task that
suspended and were not scheduled yet, and the slots of `WhenAll`s that were pushed and not counted
down yet (`TaskSound`). It says of an await what `Schedule` and `await_resume` have done
(`AwaitSound`), and of a `WhenAll` that its count is the number of open slots and that exactly one
party deals with the gate once it is zero (`AllSound`).

The three parts look at different parts of the world, so each has a transfer rule for the steps that
change something else. Here are the steps of tasks and of awaits, one lemma each
(`Sound.awaitSuspend`, `Sound.awaitResume`, `Sound.awaitTake`).
-/

set_option autoImplicit false

namespace OpenIdea.Coro.Waiters

open OpenIdea.Lib.Runs OpenIdea.Lib.Tally OpenIdea.Lib.Intrusive

variable {ε α β : Type}

/-! ## Reading an updated world -/

@[simp] theorem setTask_task_self (s : World ε α β) (t : Nat) (x : Task ε α) :
    (s.setTask t x).task t = x := by
  simp [World.setTask]

variable {a j t : Nat} {s s' : World ε α β}

theorem setTask_task_ne (s : World ε α β) {t' : Nat} (x : Task ε α) (h : t' ≠ t) :
    (s.setTask t x).task t' = s.task t' := by
  simp [World.setTask, h]

@[simp] theorem setAwait_await_self (s : World ε α β) (a : Nat) (x : Await ε α) :
    (s.setAwait a x).await a = x := by
  simp [World.setAwait]

theorem setAwait_await_ne (s : World ε α β) {a' : Nat} (x : Await ε α) (h : a' ≠ a) :
    (s.setAwait a x).await a' = s.await a' := by
  simp [World.setAwait, h]

@[simp] theorem setAll_all_self (s : World ε α β) (j : Nat) (x : All ε β) :
    (s.setAll j x).all j = x := by
  simp [World.setAll]

theorem setAll_all_ne (s : World ε α β) {j' : Nat} (x : All ε β) (h : j' ≠ j) :
    (s.setAll j x).all j' = s.all j' := by
  simp [World.setAll, h]

@[simp] theorem setAwait_task (s : World ε α β) (a : Nat) (x : Await ε α) :
    (s.setAwait a x).task = s.task := rfl

@[simp] theorem setAll_task (s : World ε α β) (j : Nat) (x : All ε β) :
    (s.setAll j x).task = s.task := rfl

/-! ## The parts of the invariant

One for each kind of party: a task with the nodes it holds, an await, and a `WhenAll` with its
slots. -/

/-- The task is past the region that sets `bReady`. -/
def Run.over : Run → Bool
  | .running => false
  | .returned => false
  | _ => true

/-- The node the walk goes on with. -/
def Run.cursor : Run → Option Node
  | .walking n => n
  | .visiting _ next => next
  | .counted _ _ next => next
  | .waking _ next => next
  | _ => none

/-- The node the walk is at and has not dealt with. -/
def Run.current : Run → List Node
  | .visiting n _ => [n]
  | .waking (.await a) _ => [.await a]
  | _ => []

/-- The nodes a task holds. -/
def Task.held (x : Task ε α) : List Node := x.listed ++ x.taken ++ x.run.current

/-- The awaiter suspended and was not scheduled. -/
def Await.Pending (y : Await ε α) : Prop := y.returned = some true ∧ y.calls = 0

/-- The slot is in the list of the task `t`, or in its walk, and not counted down. -/
def All.Pushed (y : All ε β) (i t : Nat) : Prop :=
  y.tasks[i]? = some t ∧ y.slots[i]? = some .pushed

/-- What is known of a task. -/
structure TaskSound (s : World ε α β) (t : Nat) : Prop where
  ready : (s.task t).bReady = (s.task t).run.over
  outcome : (s.task t).stOutcome.isSome = true ↔ (s.task t).run ≠ .running
  idle : (s.task t).bReady = true → (s.task t).listed = []
  chain : Chain s.pNext (s.task t).pWaiters (s.task t).listed
  walk : Chain s.pNext (s.task t).run.cursor (s.task t).taken
  nodup : (s.task t).held.Nodup
  awaits : ∀ a, .await a ∈ (s.task t).held ↔ (s.await a).stChild = t ∧ (s.await a).Pending
  slots : ∀ j i, .slot j i ∈ (s.task t).held ↔ (s.all j).Pushed i t
  counted : ∀ j i next, (s.task t).run = .counted j i next → (s.all j).closer = .completer t
  waking : ∀ j i next, (s.task t).run = .waking (.slot j i) next → (s.all j).closer = .waker t

/-- The coroutine has not been in `await_suspend`. -/
def AwaitPhase.early : AwaitPhase ε α → Bool
  | .absent => true
  | .created => true
  | .checked => true
  | _ => false

/-- The coroutine is past its wait. -/
def AwaitPhase.past : AwaitPhase ε α → Bool
  | .resumed => true
  | .done _ => true
  | _ => false

/-- What is known of an await. -/
structure AwaitSound (s : World ε α β) (a : Nat) : Prop where
  calls : (s.await a).calls ≤ if (s.await a).returned = some true then 1 else 0
  early : (s.await a).phase.early = true → (s.await a).returned = none
  scheduled : 0 < (s.await a).calls → (s.task (s.await a).stChild).bReady = true
  refused : (s.await a).returned = some false → (s.await a).phase.past = true
  past : (s.await a).phase.past = true → (s.task (s.await a).stChild).bReady = true
  done : ∀ o, (s.await a).phase = .done o → o = (s.task (s.await a).stChild).stOutcome

/-- One for each slot that is not counted down. -/
def Slot.left : Slot → Nat
  | .closed => 0
  | _ => 1

/-- How many of the `n` slots the registration has dealt with. -/
def AllPhase.reached (n : Nat) : AllPhase ε β → Nat
  | .registering i => i
  | .counting i => i + 1
  | .shutting i => i + 1
  | _ => n

/-- `await_suspend` has not returned. -/
def AllPhase.early : AllPhase ε β → Bool
  | .absent => true
  | .entering => true
  | .registering _ => true
  | .counting _ => true
  | .shutting _ => true
  | _ => false

/-- The slots do not exist yet. -/
def AllPhase.outside : AllPhase ε β → Bool
  | .absent => true
  | .entering => true
  | _ => false

/-- The coroutine waits, or is about to, for at least one task. -/
def AllPhase.waits : AllPhase ε β → Bool
  | .registering _ => true
  | .counting _ => true
  | .shutting _ => true
  | .suspended => true
  | _ => false

/-- The coroutine is past its wait. -/
def AllPhase.past : AllPhase ε β → Bool
  | .collecting _ => true
  | .awaiting _ _ => true
  | .finished _ => true
  | _ => false

/-- The gate while nobody has set it to `Ready`. -/
def unsetGate (returned : Option Bool) : Gate :=
  if returned = some true then .Waiting else .Idle

/-- What is known of the party that deals with the gate. -/
def CloserSound (s : World ε α β) (j : Nat) : Prop :=
  match (s.all j).closer with
  | .nobody =>
      (s.all j).returned ≠ some false ∧ (s.all j).calls = 0 ∧
        (0 < (s.all j).iLeft ∨ (s.all j).tasks = []) ∧
        (s.all j).iGate = unsetGate (s.all j).returned
  | .completer t =>
      (s.all j).returned ≠ some false ∧ (s.all j).calls = 0 ∧ (s.all j).iLeft = 0 ∧
        (s.all j).iGate = unsetGate (s.all j).returned ∧
        ∃ i next, (s.task t).run = .counted j i next
  | .registrar =>
      (s.all j).returned = none ∧ (s.all j).calls = 0 ∧ (s.all j).iLeft = 0 ∧
        (s.all j).iGate = .Idle ∧ ∃ i, (s.all j).phase = .shutting i
  | .shut =>
      (s.all j).calls = 0 ∧ (s.all j).iLeft = 0 ∧
        ((s.all j).returned = none ∧ (s.all j).iGate = .Ready ∨ (s.all j).returned = some false)
  | .waker t =>
      (s.all j).returned = some true ∧ (s.all j).calls = 0 ∧ (s.all j).iLeft = 0 ∧
        ∃ i next, (s.task t).run = .waking (.slot j i) next
  | .woken =>
      (s.all j).returned = some true ∧ (s.all j).calls = 1 ∧ (s.all j).iLeft = 0

/-- What is known of a `WhenAll`. -/
structure AllSound (s : World ε α β) (j : Nat) : Prop where
  size : (s.all j).slots.length = (s.all j).tasks.length
  left : (s.all j).iLeft = tally Slot.left (s.all j).slots
  ready : ∀ (i : Nat) t, (s.all j).tasks[i]? = some t →
    (s.all j).slots[i]? = some .seen ∨ (s.all j).slots[i]? = some .closed →
    (s.task t).bReady = true
  fresh : ∀ i : Nat, (s.all j).slots[i]? = some .fresh ↔
    (s.all j).phase.reached (s.all j).slots.length ≤ i ∧ i < (s.all j).slots.length
  seen : ∀ i : Nat, (s.all j).slots[i]? = some .seen ↔ (s.all j).phase = .counting i
  outside : (s.all j).phase.outside = true → (s.all j).tasks = []
  empty : (s.all j).tasks = [] → (s.all j).closer = .nobody ∧ (s.all j).returned = none
  member : ∀ t, (s.all j).closer = .completer t ∨ (s.all j).closer = .waker t → t ∈ (s.all j).tasks
  waits : (s.all j).phase.waits = true → (s.all j).tasks ≠ []
  early : (s.all j).phase.early = true → (s.all j).returned = none
  suspended : (s.all j).phase = .suspended → (s.all j).returned = some true
  past : (s.all j).phase.past = true →
    (s.all j).tasks = [] ∨ (s.all j).returned = some false ∨ 0 < (s.all j).calls
  shutting : ∀ i, (s.all j).phase = .shutting i → (s.all j).closer = .registrar
  closer : CloserSound s j

/-- **The invariant of the world.** -/
structure Sound (s : World ε α β) : Prop where
  task : ∀ t, TaskSound s t
  await : ∀ a, AwaitSound s a
  all : ∀ j, AllSound s j

theorem sound_init : Sound (init ε α β) where
  task := by
    intro t
    constructor <;> simp [init, Run.over, Run.cursor, Run.current, Task.held, Await.Pending,
      All.Pushed]
  await := by
    intro a
    constructor <;> simp [init, AwaitPhase.early, AwaitPhase.past]
  all := by
    intro j
    constructor <;> simp [init, AllPhase.early, AllPhase.past, AllPhase.outside, AllPhase.waits,
      CloserSound, unsetGate]

/-! ## Transfer

A step changes the record of one party. The parts of the others hold as before where what they look
at is the same. -/

variable {x : Task ε α} {n : Node}

/-- A task in view of its record only. -/
theorem TaskSound.of_record (hx : s.task t = x) (h : TaskSound { s with task := fun _ => x } t) :
    TaskSound s t := by
  subst hx
  exact ⟨h.ready, h.outcome, h.idle, h.chain, h.walk, h.nodup, h.awaits, h.slots, h.counted, h.waking⟩

theorem AwaitSound.of_record {y : Await ε α} (hy : s.await a = y)
    (h : AwaitSound { s with await := fun _ => y } a) : AwaitSound s a := by
  subst hy
  exact ⟨h.calls, h.early, h.scheduled, h.refused, h.past, h.done⟩

theorem closerSound_record {y : All ε β} (hy : s.all j = y) :
    CloserSound { s with all := fun _ => y } j ↔ CloserSound s j := by
  subst hy
  exact Iff.rfl

theorem AllSound.of_record {y : All ε β} (hy : s.all j = y)
    (h : AllSound { s with all := fun _ => y } j) : AllSound s j := by
  subst hy
  exact ⟨h.size, h.left, h.ready, h.fresh, h.seen, h.outside, h.empty, h.member, h.waits, h.early,
    h.suspended, h.past, h.shutting, h.closer⟩

/-- What a step of others has to leave to a task. -/
theorem TaskSound.transfer (h : TaskSound s t) (htask : s'.task t = s.task t)
    (hchain : Chain s'.pNext (s.task t).pWaiters (s.task t).listed)
    (hwalk : Chain s'.pNext (s.task t).run.cursor (s.task t).taken)
    (hawaits : ∀ a, (s'.await a).stChild = t ∧ (s'.await a).Pending ↔
      (s.await a).stChild = t ∧ (s.await a).Pending)
    (hslots : ∀ j i, (s'.all j).Pushed i t ↔ (s.all j).Pushed i t)
    (hcloser : ∀ j, ((s.all j).closer = .completer t ∨ (s.all j).closer = .waker t) →
      (s'.all j).closer = (s.all j).closer) : TaskSound s' t := by
  apply TaskSound.of_record htask
  exact { h with
    chain := hchain
    walk := hwalk
    awaits := fun a => (h.awaits a).trans (hawaits a).symm
    slots := fun j i => (h.slots j i).trans (hslots j i).symm
    counted := by
      intro j i next hrun
      have hc := h.counted j i next hrun
      exact (hcloser j (Or.inl hc)).trans hc
    waking := by
      intro j i next hrun
      have hc := h.waking j i next hrun
      exact (hcloser j (Or.inr hc)).trans hc }

/-- What a step of others has to leave to an await. -/
theorem AwaitSound.transfer (h : AwaitSound s a) (hawait : s'.await a = s.await a)
    (hready : ∀ t, (s.task t).bReady = true →
      (s'.task t).bReady = true ∧ (s'.task t).stOutcome = (s.task t).stOutcome) :
    AwaitSound s' a := by
  apply AwaitSound.of_record hawait
  exact { h with
    scheduled := fun hc => (hready _ (h.scheduled hc)).1
    past := fun hp => (hready _ (h.past hp)).1
    done := by
      intro o ho
      have hpast : (s.await a).phase.past = true := by
        rw [ho]
        rfl
      exact (h.done o ho).trans (hready _ (h.past hpast)).2.symm }

theorem CloserSound.transfer (h : CloserSound s j) (hall : s'.all j = s.all j)
    (hrun : ∀ t, (s.all j).closer = .completer t ∨ (s.all j).closer = .waker t →
      (s'.task t).run = (s.task t).run) : CloserSound s' j := by
  rw [CloserSound] at h ⊢
  rw [hall]
  cases hc : (s.all j).closer with
  | nobody =>
    rw [hc] at h
    exact h
  | completer t =>
    rw [hc] at h
    dsimp only at h ⊢
    rw [hrun t (Or.inl hc)]
    exact h
  | registrar | shut =>
    rw [hc] at h
    exact h
  | waker t =>
    rw [hc] at h
    dsimp only at h ⊢
    rw [hrun t (Or.inr hc)]
    exact h
  | woken =>
    rw [hc] at h
    exact h

/-- What a step of others has to leave to a `WhenAll`. -/
theorem AllSound.transfer (h : AllSound s j) (hall : s'.all j = s.all j)
    (hready : ∀ t, (s.task t).bReady = true → (s'.task t).bReady = true)
    (hrun : ∀ t, (s.all j).closer = .completer t ∨ (s.all j).closer = .waker t →
      (s'.task t).run = (s.task t).run) : AllSound s' j := by
  apply AllSound.of_record hall
  exact { h with
    ready := fun i t ht hs => hready t (h.ready i t ht hs)
    closer := (closerSound_record hall).2 (h.closer.transfer hall hrun) }

/-! ## Consequences -/

/-- The task is between the count and the gate of a `WhenAll`, or about to wake one. -/
def Run.busy : Run → Bool
  | .counted _ _ _ => true
  | .waking (.slot _ _) _ => true
  | _ => false

theorem CloserSound.counted (h : CloserSound s j) (hc : (s.all j).closer = .completer t) :
    ∃ i next, (s.task t).run = .counted j i next := by
  rw [CloserSound, hc] at h
  exact h.2.2.2.2

theorem CloserSound.waking (h : CloserSound s j) (hc : (s.all j).closer = .waker t) :
    ∃ i next, (s.task t).run = .waking (.slot j i) next := by
  rw [CloserSound, hc] at h
  exact h.2.2.2

/-- A task that is not busy closes no `WhenAll`. -/
theorem CloserSound.busy (h : CloserSound s j)
    (hc : (s.all j).closer = .completer t ∨ (s.all j).closer = .waker t) :
    (s.task t).run.busy = true := by
  rcases hc with hc | hc
  · obtain ⟨i, next, hrun⟩ := h.counted hc
    rw [hrun]
    rfl
  · obtain ⟨i, next, hrun⟩ := h.waking hc
    rw [hrun]
    rfl

/-- While a slot is open, nobody deals with the gate. -/
theorem CloserSound.nobody {s : World ε α β} {j : Nat} (h : CloserSound s j)
    (hleft : 0 < (s.all j).iLeft) : (s.all j).closer = .nobody ∧
      (s.all j).returned ≠ some false ∧ (s.all j).calls = 0 ∧
      (s.all j).iGate = unsetGate (s.all j).returned := by
  rw [CloserSound] at h
  cases hc : (s.all j).closer with
  | nobody =>
    rw [hc] at h
    exact ⟨rfl, h.1, h.2.1, h.2.2.2⟩
  | completer t | registrar =>
    rw [hc] at h
    have := h.2.2.1
    omega
  | shut =>
    rw [hc] at h
    have := h.2.1
    omega
  | waker t =>
    rw [hc] at h
    have := h.2.2.1
    omega
  | woken =>
    rw [hc] at h
    have := h.2.2
    omega

/-- An open slot is in the count. -/
theorem AllSound.left_pos {i : Nat} (h : AllSound s j) {x : Slot}
    (hx : (s.all j).slots[i]? = some x) (hne : x ≠ .closed) : 0 < (s.all j).iLeft := by
  have hle := le_tally Slot.left hx
  have hone : x.left = 1 := by
    cases x with
    | closed => exact absurd rfl hne
    | fresh => rfl
    | pushed => rfl
    | seen => rfl
  rw [h.left]
  omega

/-- The nodes of a task are not let go. -/
theorem Sound.not_released (h : Sound s) (hn : n ∈ (s.task t).held) : s.released n = false := by
  cases n with
  | await a =>
    obtain ⟨_, hret, hcalls⟩ := ((h.task t).awaits a).1 hn
    simp [World.released, hret, hcalls]
  | slot j i =>
    obtain ⟨_, hslot⟩ := ((h.task t).slots j i).1 hn
    have hleft := (h.all j).left_pos hslot (by decide)
    obtain ⟨_, hret, hcalls, _⟩ := (h.all j).closer.nobody hleft
    simp [World.released, hret, hcalls]

theorem mem_held_listed (h : n ∈ x.listed) : n ∈ x.held :=
  List.mem_append_left _ (List.mem_append_left _ h)

theorem mem_held_taken {x : Task ε α} {n : Node} (h : n ∈ x.taken) : n ∈ x.held :=
  List.mem_append_left _ (List.mem_append_right _ h)

theorem mem_held_current {x : Task ε α} {n : Node} (h : n ∈ x.run.current) : n ∈ x.held :=
  List.mem_append_right _ h

/-- The pointer of a node that a task does not hold is of no concern to it. -/
theorem TaskSound.chain_update (h : TaskSound s t) (hn : n ∉ (s.task t).held) (x : Option Node) :
    Chain (Function.update s.pNext n x) (s.task t).pWaiters (s.task t).listed ∧
      Chain (Function.update s.pNext n x) (s.task t).run.cursor (s.task t).taken :=
  ⟨h.chain.update (fun hm => hn (mem_held_listed hm)) x,
    h.walk.update (fun hm => hn (mem_held_taken hm)) x⟩

/-! ## The steps of a task alone -/

/-- A step that changes one task, holds the same nodes, and has nothing to do with a gate. -/
theorem Sound.setTask (h : Sound s) (hready : x.bReady = x.run.over)
    (hmono : (s.task t).bReady = true → x.bReady = true ∧ x.stOutcome = (s.task t).stOutcome)
    (hout : x.stOutcome.isSome = true ↔ x.run ≠ .running) (hidle : x.bReady = true → x.listed = [])
    (hchain : Chain s.pNext x.pWaiters x.listed) (hwalk : Chain s.pNext x.run.cursor x.taken)
    (hheld : x.held.Perm (s.task t).held) (hbusy : (s.task t).run.busy = false)
    (hbusy' : x.run.busy = false) : Sound (s.setTask t x) := by
  have hother : ∀ t', (s.task t').bReady = true → ((s.setTask t x).task t').bReady = true ∧
      ((s.setTask t x).task t').stOutcome = (s.task t').stOutcome := by
    intro t' ht'
    by_cases he : t' = t
    · subst he
      rw [setTask_task_self]
      exact hmono ht'
    · rw [setTask_task_ne s x he]
      exact ⟨ht', rfl⟩
  refine ⟨fun t' => ?_, fun a => (h.await a).transfer rfl hother, fun j => ?_⟩
  · by_cases he : t' = t
    · subst he
      have hx := h.task t'
      apply TaskSound.of_record (setTask_task_self s t' x)
      exact {
        ready := hready
        outcome := hout
        idle := hidle
        chain := hchain
        walk := hwalk
        nodup := hheld.nodup_iff.2 hx.nodup
        awaits := fun a => hheld.mem_iff.trans (hx.awaits a)
        slots := fun j i => hheld.mem_iff.trans (hx.slots j i)
        counted := by
          intro j i next hrun
          rw [show x.run = _ from hrun] at hbusy'
          cases hbusy'
        waking := by
          intro j i next hrun
          rw [show x.run = _ from hrun] at hbusy'
          cases hbusy' }
    · exact (h.task t').transfer (setTask_task_ne s x he) (h.task t').chain (h.task t').walk
        (fun _ => Iff.rfl) (fun _ _ => Iff.rfl) (fun _ _ => rfl)
  · refine (h.all j).transfer rfl (fun t' ht' => (hother t' ht').1) ?_
    intro t' hc
    have hb := (h.all j).closer.busy hc
    have he : t' ≠ t := by
      intro he
      rw [he, hbusy] at hb
      cases hb
    rw [setTask_task_ne s x he]

theorem Sound.taskReturn (h : Sound s) {o : Except ε α} (hs : taskReturn s t o = some s') :
    Sound s' := by
  have hx := h.task t
  rw [Waiters.taskReturn] at hs
  split at hs
  case h_2 => cases hs
  case h_1 hrun =>
    obtain rfl := Option.some.inj hs
    have hnot : (s.task t).bReady = false := by
      rw [hx.ready, hrun]
      rfl
    have hwalk := hx.walk
    rw [hrun] at hwalk
    apply h.setTask
    · exact hnot
    · intro hr
      rw [hnot] at hr
      cases hr
    · simp
    · intro hr
      exact hx.idle hr
    · exact hx.chain
    · exact hwalk
    · rw [Task.held, Task.held, hrun]
      exact List.Perm.refl _
    · rw [hrun]
      rfl
    · rfl

theorem Sound.taskFinal (h : Sound s) (hs : taskFinal s t = some s') : Sound s' := by
  have hx := h.task t
  rw [Waiters.taskFinal] at hs
  split at hs
  case h_2 => cases hs
  case h_1 hrun =>
    obtain rfl := Option.some.inj hs
    have hnot : (s.task t).bReady = false := by
      rw [hx.ready, hrun]
      rfl
    have hwalk := hx.walk
    rw [hrun] at hwalk
    have hnone : (s.task t).taken = [] := hwalk.eq_nil
    apply h.setTask
    · rfl
    · intro hr
      rw [hnot] at hr
      cases hr
    · have hout := hx.outcome
      rw [hrun] at hout
      simpa using hout
    · intro _
      rfl
    · rfl
    · exact hx.chain
    · rw [Task.held, Task.held, hrun, hnone]
      simp [Run.current]
    · rw [hrun]
      rfl
    · rfl

theorem Sound.taskVisit (h : Sound s) (hs : taskVisit s t = some s') : Sound s' := by
  have hx := h.task t
  rw [Waiters.taskVisit] at hs
  split at hs
  case h_3 => cases hs
  case h_1 hrun =>
    obtain rfl := Option.some.inj hs
    have hready := hx.ready
    have hout := hx.outcome
    have hwalk := hx.walk
    rw [hrun] at hready hout hwalk
    apply h.setTask
    · exact hready
    · exact fun hr => ⟨hr, rfl⟩
    · simpa using hout
    · exact hx.idle
    · exact hx.chain
    · exact hwalk
    · rw [Task.held, Task.held, hrun]
      exact List.Perm.refl _
    · rw [hrun]
      rfl
    · rfl
  case h_2 n hrun =>
    obtain rfl := Option.some.inj hs
    have hready := hx.ready
    have hout := hx.outcome
    have hwalk := hx.walk
    rw [hrun] at hready hout hwalk
    obtain ⟨rest, htaken, hrest⟩ := hwalk.uncons
    apply h.setTask
    · exact hready
    · exact fun hr => ⟨hr, rfl⟩
    · simpa using hout
    · exact hx.idle
    · exact hx.chain
    · show Chain s.pNext (s.pNext n) (s.task t).taken.tail
      rw [htaken]
      exact hrest
    · -- the first node of the walk becomes the current one
      rw [Task.held, Task.held, hrun, htaken]
      simp only [Run.current, List.tail_cons, List.append_nil, List.append_assoc]
      exact List.Perm.append_left _ (List.perm_append_singleton n rest)
    · rw [hrun]
      rfl
    · rfl

/-! ## The steps of a task with a `WhenAll` -/

/-- A task that is over stays so, with its outcome. -/
theorem ready_kept {s s' : World ε α β} {t : Nat}
    (htask : ∀ t', t' ≠ t → s'.task t' = s.task t')
    (hmono : (s.task t).bReady = true →
      (s'.task t).bReady = true ∧ (s'.task t).stOutcome = (s.task t).stOutcome) (t' : Nat)
    (ht' : (s.task t').bReady = true) :
    (s'.task t').bReady = true ∧ (s'.task t').stOutcome = (s.task t').stOutcome := by
  by_cases he : t' = t
  · subst he
    exact hmono ht'
  · rw [htask t' he]
    exact ⟨ht', rfl⟩

/-- A step that changes one task and one `WhenAll`, from what is known of the two afterwards. -/
theorem Sound.ofTaskAll {s s' : World ε α β} (h : Sound s) {t j : Nat}
    (htask : ∀ t', t' ≠ t → s'.task t' = s.task t') (hall : ∀ j', j' ≠ j → s'.all j' = s.all j')
    (hawait : s'.await = s.await)
    (hchain : ∀ t', t' ≠ t → Chain s'.pNext (s.task t').pWaiters (s.task t').listed ∧
      Chain s'.pNext (s.task t').run.cursor (s.task t').taken)
    (hmono : (s.task t).bReady = true →
      (s'.task t).bReady = true ∧ (s'.task t).stOutcome = (s.task t).stOutcome)
    (hpush : ∀ t', t' ≠ t → ∀ i, (s'.all j).Pushed i t' ↔ (s.all j).Pushed i t')
    (hcloser : ∀ t', t' ≠ t → (s.all j).closer = .completer t' ∨ (s.all j).closer = .waker t' →
      (s'.all j).closer = (s.all j).closer)
    (hfree : ∀ j', j' ≠ j → (s.all j').closer = .completer t ∨ (s.all j').closer = .waker t →
      (s'.task t).run = (s.task t).run)
    (ht : TaskSound s' t) (hj : AllSound s' j) : Sound s' := by
  have hother := ready_kept htask hmono
  refine ⟨fun t' => ?_, fun a => (h.await a).transfer (by rw [hawait]) hother, fun j' => ?_⟩
  · by_cases he : t' = t
    · subst he
      exact ht
    · refine (h.task t').transfer (htask t' he) (hchain t' he).1 (hchain t' he).2 ?_ ?_ ?_
      · intro a
        rw [hawait]
      · intro j' i
        by_cases hj' : j' = j
        · subst hj'
          exact hpush t' he i
        · rw [hall j' hj']
      · intro j' hc
        by_cases hj' : j' = j
        · subst hj'
          exact hcloser t' he hc
        · rw [hall j' hj']
  · by_cases hj' : j' = j
    · subst hj'
      exact hj
    · refine (h.all j').transfer (hall j' hj') (fun t' ht' => (hother t' ht').1) ?_
      intro t' hc
      by_cases he : t' = t
      · subst he
        exact hfree j' hj' hc
      · rw [htask t' he]

/-- The count after one more slot is closed. -/
theorem AllSound.left_close {i : Nat} (h : AllSound s j) {x : Slot}
    (hx : (s.all j).slots[i]? = some x) (hne : x ≠ .closed) :
    fetchSub (s.all j).iLeft = tally Slot.left ((s.all j).slots.set i .closed) := by
  have hpos := h.left_pos hx hne
  have hone : x.left = 1 := by
    cases x with
    | closed => exact absurd rfl hne
    | fresh => rfl
    | pushed => rfl
    | seen => rfl
  have hset := @tally_set _ Slot.left .closed x _ _ hx
  have hleft := h.left
  have hzero : Slot.closed.left = 0 := rfl
  rw [fetchSub, if_neg (by omega)]
  omega

/-- The slots after a pushed one is closed: the rest of what is known of them. -/
theorem pushed_close {y : All ε β} {i k t : Nat} {c : Slot} (hc : c ≠ .pushed)
    (hi : y.tasks[i]? = some t) {y' : All ε β} (htasks : y'.tasks = y.tasks)
    (hslots : y'.slots = y.slots.set i c) {t' : Nat} :
    y'.Pushed k t' ↔ y.Pushed k t' ∧ (k = i → t' ≠ t) := by
  rw [All.Pushed, All.Pushed, htasks, hslots]
  constructor
  · rintro ⟨hk, hp⟩
    rcases getElem?_set_cases hp with ⟨_, hc'⟩ | ⟨hne, hp⟩
    · exact absurd hc'.symm hc
    · exact ⟨⟨hk, hp⟩, fun he => absurd he hne⟩
  · rintro ⟨⟨hk, hp⟩, hne⟩
    have hki : i ≠ k := by
      intro he
      subst he
      rw [hi] at hk
      exact hne rfl (Option.some.inj hk).symm
    exact ⟨hk, by rw [List.getElem?_set_ne hki]; exact hp⟩

/-- A slot is closed by the walk of its task. -/
theorem AllSound.close {s s' : World ε α β} {j i t : Nat} (h : AllSound s j)
    (hpush : (s.all j).Pushed i t) (hready : (s.task t).bReady = true)
    (hmono : ∀ t', (s.task t').bReady = true → (s'.task t').bReady = true) {c : Closer}
    (hall : s'.all j =
      { s.all j with
        iLeft := fetchSub (s.all j).iLeft, slots := (s.all j).slots.set i .closed, closer := c })
    (hshut : ∀ k, (s.all j).phase ≠ .shutting k)
    (hmem : ∀ t', c = .completer t' ∨ c = .waker t' → t' ∈ (s.all j).tasks)
    (hc : CloserSound s' j) : AllSound s' j := by
  have hlt : i < (s.all j).slots.length := (List.getElem?_eq_some_iff.1 hpush.2).1
  have hother : ∀ k, k ≠ i → ((s.all j).slots.set i .closed)[k]? = (s.all j).slots[k]? :=
    fun k hk => List.getElem?_set_ne (Ne.symm hk)
  have hself : ((s.all j).slots.set i .closed)[i]? = some .closed := List.getElem?_set_self hlt
  apply AllSound.of_record hall
  exact { h with
    size := by simpa using h.size
    left := h.left_close hpush.2 (by decide)
    ready := by
      intro k t' hk hs
      have hk : (s.all j).tasks[k]? = some t' := hk
      by_cases hki : k = i
      · subst hki
        rw [hpush.1] at hk
        obtain rfl := Option.some.inj hk
        exact hmono _ hready
      · rw [hother k hki] at hs
        exact hmono _ (h.ready k t' hk hs)
    fresh := by
      intro k
      show ((s.all j).slots.set i .closed)[k]? = some .fresh ↔
        (s.all j).phase.reached ((s.all j).slots.set i .closed).length ≤ k ∧
          k < ((s.all j).slots.set i .closed).length
      rw [List.length_set, ← h.fresh k]
      by_cases hki : k = i
      · subst hki
        rw [hself, hpush.2]
        exact iff_of_false nofun nofun
      · rw [hother k hki]
    seen := by
      intro k
      refine Iff.trans ?_ (h.seen k)
      by_cases hki : k = i
      · subst hki
        rw [hself, hpush.2]
        exact iff_of_false nofun nofun
      · rw [hother k hki]
    empty := by
      intro he
      have hi := hpush.1
      rw [show (s.all j).tasks = [] from he] at hi
      cases hi
    member := hmem
    shutting := fun k hk => absurd hk (hshut k)
    closer := (closerSound_record hall).2 hc }

/-- The walk moves on; the nodes it holds are those that count as waiting for it. -/
theorem TaskSound.goOn {r : Run} (h : TaskSound s t)
    (htask : s'.task t = { s.task t with run := r }) (hpn : s'.pNext = s.pNext)
    (hcursor : r.cursor = (s.task t).run.cursor) (hover : (s.task t).run.over = true)
    (hro : r.over = true) (hnodup : (Task.held { s.task t with run := r }).Nodup)
    (hawaits : ∀ a, .await a ∈ Task.held { s.task t with run := r } ↔
      (s'.await a).stChild = t ∧ (s'.await a).Pending)
    (hslots : ∀ j i, .slot j i ∈ Task.held { s.task t with run := r } ↔ (s'.all j).Pushed i t)
    (hcounted : ∀ j i next, r = .counted j i next → (s'.all j).closer = .completer t)
    (hwaking : ∀ j i next, r = .waking (.slot j i) next → (s'.all j).closer = .waker t) :
    TaskSound s' t := by
  apply TaskSound.of_record htask
  exact { h with
    ready := by
      show (s.task t).bReady = r.over
      rw [h.ready, hover, hro]
    outcome := by
      show (s.task t).stOutcome.isSome = true ↔ r ≠ .running
      rw [h.outcome]
      refine iff_of_true ?_ ?_
      · intro hr
        rw [hr] at hover
        cases hover
      · intro hr
        rw [hr] at hro
        cases hro
    chain := by
      rw [hpn]
      exact h.chain
    walk := by
      show Chain s'.pNext r.cursor (s.task t).taken
      rw [hpn, hcursor]
      exact h.walk
    nodup := hnodup
    awaits := hawaits
    slots := hslots
    counted := hcounted
    waking := hwaking }

/-- The walk moves on and holds the same nodes. -/
theorem TaskSound.rerun {s s' : World ε α β} {t : Nat} {r : Run} (h : TaskSound s t)
    (htask : s'.task t = { s.task t with run := r }) (hpn : s'.pNext = s.pNext)
    (hcur : r.current = (s.task t).run.current) (hcursor : r.cursor = (s.task t).run.cursor)
    (hover : (s.task t).run.over = true) (hro : r.over = true)
    (hawaits : s'.await = s.await) (hslots : ∀ j i, (s'.all j).Pushed i t ↔ (s.all j).Pushed i t)
    (hcounted : ∀ j i next, r = .counted j i next → (s'.all j).closer = .completer t)
    (hwaking : ∀ j i next, r = .waking (.slot j i) next → (s'.all j).closer = .waker t) :
    TaskSound s' t := by
  have hheld : Task.held { s.task t with run := r } = (s.task t).held := by
    rw [Task.held, Task.held, hcur]
  apply h.goOn htask hpn hcursor hover hro
  · rw [hheld]
    exact h.nodup
  · intro a
    rw [hheld, hawaits]
    exact h.awaits a
  · intro j i
    rw [hheld, hslots]
    exact h.slots j i
  · exact hcounted
  · exact hwaking

/-- The walk is done with its current node and moves on. -/
theorem TaskSound.drop {s s' : World ε α β} {t : Nat} {n : Node} {r : Run} (h : TaskSound s t)
    (hn : (s.task t).run.current = [n])
    (htask : s'.task t = { s.task t with run := r }) (hpn : s'.pNext = s.pNext)
    (hcur : r.current = []) (hcursor : r.cursor = (s.task t).run.cursor)
    (hover : (s.task t).run.over = true) (hro : r.over = true)
    (hawaits : ∀ a, (s'.await a).stChild = t ∧ (s'.await a).Pending ↔
      ((s.await a).stChild = t ∧ (s.await a).Pending) ∧ Node.await a ≠ n)
    (hslots : ∀ j i, (s'.all j).Pushed i t ↔ (s.all j).Pushed i t ∧ Node.slot j i ≠ n)
    (hcounted : ∀ j i next, r = .counted j i next → (s'.all j).closer = .completer t)
    (hwaking : ∀ j i next, r = .waking (.slot j i) next → (s'.all j).closer = .waker t) :
    TaskSound s' t := by
  have hold : (s.task t).held = (s.task t).listed ++ (s.task t).taken ++ [n] := by
    rw [Task.held, hn]
  have hheld : Task.held { s.task t with run := r } = (s.task t).listed ++ (s.task t).taken := by
    rw [Task.held, hcur, List.append_nil]
  have hnodup := h.nodup
  rw [hold] at hnodup
  have hnot : n ∉ (s.task t).listed ++ (s.task t).taken := by
    intro hm
    exact (List.nodup_append.1 hnodup).2.2 n hm n (List.mem_singleton_self n) rfl
  -- what is left is what was held, less the node
  have hmem : ∀ m, m ∈ Task.held { s.task t with run := r } ↔ m ∈ (s.task t).held ∧ m ≠ n := by
    intro m
    rw [hheld, hold]
    constructor
    · intro hm
      refine ⟨List.mem_append_left _ hm, ?_⟩
      rintro rfl
      exact hnot hm
    · rintro ⟨hm, hne⟩
      rcases List.mem_append.1 hm with hm | hm
      · exact hm
      · exact absurd (List.mem_singleton.1 hm) hne
  apply h.goOn htask hpn hcursor hover hro
  · rw [hheld]
    exact (List.nodup_append.1 hnodup).1
  · intro a
    rw [hmem, hawaits, h.awaits a]
  · intro j i
    rw [hmem, hslots, h.slots j i]
  · exact hcounted
  · exact hwaking

/-- The walk counts a slot down. -/
theorem Sound.taskTest (h : Sound s) (hs : taskTest s t = some s') : Sound s' := by
  have hx := h.task t
  rw [Waiters.taskTest] at hs
  split at hs
  case h_3 => cases hs
  case h_1 a next hrun =>
    obtain rfl := Option.some.inj hs
    have hready := hx.ready
    have hout := hx.outcome
    have hwalk := hx.walk
    rw [hrun] at hready hout hwalk
    apply h.setTask
    · exact hready
    · exact fun hr => ⟨hr, rfl⟩
    · simpa using hout
    · exact hx.idle
    · exact hx.chain
    · exact hwalk
    · rw [Task.held, Task.held, hrun]
      exact List.Perm.refl _
    · rw [hrun]
      rfl
    · rfl
  case h_2 j i next hrun =>
    have hheld : .slot j i ∈ (s.task t).held := by
      apply mem_held_current
      rw [hrun]
      exact List.mem_singleton_self _
    have hpush := (hx.slots j i).1 hheld
    have hj := h.all j
    have hleft := hj.left_pos hpush.2 (by decide)
    obtain ⟨hnobody, hret, hcalls, hgate⟩ := hj.closer.nobody hleft
    have hready : (s.task t).bReady = true := by
      rw [hx.ready, hrun]
      rfl
    have hshut : ∀ k, (s.all j).phase ≠ .shutting k := by
      intro k hk
      have hreg := hj.shutting k hk
      rw [hnobody] at hreg
      cases hreg
    have hnotbusy : (s.task t).run.busy = false := by
      rw [hrun]
      rfl
    -- the position and the closer differ between the last slot and the others
    have hmain : ∀ (r : Run) (c : Closer), r.current = [] → r.cursor = next → r.over = true →
        (∀ k l nx, r = .counted k l nx → k = j ∧ c = .completer t) →
        (∀ k l nx, r ≠ .waking (.slot k l) nx) →
        (∀ t', c = .completer t' ∨ c = .waker t' → t' = t) →
        CloserSound ((s.setTask t { s.task t with run := r }).setAll j
          { s.all j with
            iLeft := fetchSub (s.all j).iLeft, slots := (s.all j).slots.set i .closed,
            closer := c }) j →
        Sound ((s.setTask t { s.task t with run := r }).setAll j
          { s.all j with
            iLeft := fetchSub (s.all j).iLeft, slots := (s.all j).slots.set i .closed,
            closer := c }) := by
      intro r c hcur hcursor hover hcounted hwaking hself hcl
      have hview : ∀ k t', All.Pushed
          { s.all j with
            iLeft := fetchSub (s.all j).iLeft, slots := (s.all j).slots.set i .closed,
            closer := c } k t' ↔ (s.all j).Pushed k t' ∧ (k = i → t' ≠ t) := by
        intro k t'
        refine @pushed_close _ _ (s.all j) i k t .closed (by decide) hpush.1 _ ?_ ?_ t'
        · rfl
        · rfl
      refine @Sound.ofTaskAll _ _ _ s _ h t j ?_ ?_ rfl ?_ ?_ ?_ ?_ ?_ ?_ ?_
      · intro t' ht'
        exact setTask_task_ne s _ ht'
      · intro j' hj'
        exact setAll_all_ne _ _ hj'
      · intro t' _
        exact ⟨(h.task t').chain, (h.task t').walk⟩
      · intro hr
        rw [setAll_task, setTask_task_self]
        exact ⟨hr, rfl⟩
      · intro t' ht' k
        rw [setAll_all_self, hview]
        exact ⟨fun hp => hp.1, fun hp => ⟨hp, fun _ => ht'⟩⟩
      · intro t' _ hc
        rw [hnobody] at hc
        rcases hc with hc | hc
        · cases hc
        · cases hc
      · intro j' _ hc
        have hb := (h.all j').closer.busy hc
        rw [hnotbusy] at hb
        cases hb
      · refine @TaskSound.drop _ _ _ s _ t (.slot j i) r hx ?_ ?_ rfl hcur ?_ ?_ hover ?_ ?_ ?_ ?_
        · rw [hrun]
          rfl
        · rw [setAll_task, setTask_task_self]
        · rw [hrun, hcursor]
          rfl
        · rw [hrun]
          rfl
        · intro a
          constructor
          · intro ha
            exact ⟨ha, fun he => by cases he⟩
          · intro ha
            exact ha.1
        · intro j' k
          by_cases hj' : j' = j
          · subst hj'
            rw [setAll_all_self, hview]
            constructor
            · rintro ⟨hp, hne⟩
              refine ⟨hp, fun he => ?_⟩
              injection he with _ hk
              exact hne hk rfl
            · rintro ⟨hp, hne⟩
              refine ⟨hp, fun hk => ?_⟩
              rw [hk] at hne
              exact absurd rfl hne
          · rw [setAll_all_ne _ _ hj']
            constructor
            · intro hp
              refine ⟨hp, fun he => ?_⟩
              injection he with he _
              exact hj' he
            · intro hp
              exact hp.1
        · intro k l nx hr
          obtain ⟨rfl, hc⟩ := hcounted k l nx hr
          rw [setAll_all_self]
          exact hc
        · intro k l nx hr
          exact absurd hr (hwaking k l nx)
      · refine @AllSound.close _ _ _ s _ j i t hj hpush hready ?_ c ?_ hshut ?_ hcl
        · intro t' ht'
          by_cases he : t' = t
          · subst he
            rw [setAll_task, setTask_task_self]
            exact ht'
          · rw [setAll_task, setTask_task_ne s _ he]
            exact ht'
        · rw [setAll_all_self]
        · intro t' ht'
          rw [hself t' ht']
          exact List.mem_of_getElem? hpush.1
    dsimp only at hs
    split at hs
    case isTrue hone =>
      obtain rfl := Option.some.inj hs
      refine hmain (.counted j i next) (.completer t) rfl rfl rfl ?_ ?_ ?_ ?_
      · intro k l nx hr
        injection hr with hk
        exact ⟨hk.symm, rfl⟩
      · intro k l nx hr
        cases hr
      · rintro t' (he | he)
        · injection he with he
          exact he.symm
        · cases he
      · have hzero : fetchSub (s.all j).iLeft = 0 := by rw [hone]; rfl
        simp only [CloserSound, setAll_all_self, setAll_task, setTask_task_self]
        exact ⟨hret, hcalls, hzero, hgate, i, next, rfl⟩
    case isFalse hone =>
      obtain rfl := Option.some.inj hs
      have hpos : 0 < fetchSub (s.all j).iLeft := by
        rw [fetchSub, if_neg (by omega)]
        omega
      have := hmain (.walking next) .nobody rfl rfl rfl ?_ ?_ ?_ ?_
      · rw [← hnobody] at this
        exact this
      · intro k l nx hr
        cases hr
      · intro k l nx hr
        cases hr
      · rintro t' (he | he)
        · cases he
        · cases he
      · simp only [CloserSound, setAll_all_self]
        exact ⟨hret, hcalls, Or.inl hpos, hgate⟩

/-- The party that deals with the gate moves on. -/
theorem AllSound.regate {s s' : World ε α β} {j : Nat} (h : AllSound s j) {g : Gate} {n : Nat}
    {c : Closer} (hall : s'.all j = { s.all j with iGate := g, calls := n, closer := c })
    (hmono : ∀ t, (s.task t).bReady = true → (s'.task t).bReady = true)
    (hn : (s.all j).calls ≤ n) (hshut : (s.all j).closer ≠ .registrar)
    (hsome : (s.all j).closer ≠ .nobody)
    (hmem : ∀ t', c = .completer t' ∨ c = .waker t' → t' ∈ (s.all j).tasks)
    (hc : CloserSound s' j) : AllSound s' j := by
  apply AllSound.of_record hall
  exact { h with
    ready := fun i t ht hs => hmono t (h.ready i t ht hs)
    empty := fun he => absurd (h.empty he).1 hsome
    member := hmem
    past := by
      intro hp
      rcases h.past hp with hp | hp | hp
      · exact Or.inl hp
      · exact Or.inr (Or.inl hp)
      · exact Or.inr (Or.inr (Nat.lt_of_lt_of_le hp hn))
    shutting := fun i hi => absurd (h.shutting i hi) hshut
    closer := (closerSound_record hall).2 hc }

/-- The completer of a `WhenAll` moves on, with the gate and the calls it changes. -/
theorem Sound.regate {s : World ε α β} (h : Sound s) {t j : Nat} {r : Run} {g : Gate} {n : Nat}
    {c : Closer} (hcl : (s.all j).closer = .completer t ∨ (s.all j).closer = .waker t)
    (hcur : r.current = (s.task t).run.current) (hcursor : r.cursor = (s.task t).run.cursor)
    (hover : (s.task t).run.over = true) (hro : r.over = true) (hn : (s.all j).calls ≤ n)
    (hrc : ∀ k l nx, r ≠ .counted k l nx)
    (hrw : ∀ k l nx, r = .waking (.slot k l) nx → k = j ∧ c = .waker t)
    (hself : ∀ t', c = .completer t' ∨ c = .waker t' → t' = t)
    (hc : CloserSound ((s.setTask t { s.task t with run := r }).setAll j
      { s.all j with iGate := g, calls := n, closer := c }) j) :
    Sound ((s.setTask t { s.task t with run := r }).setAll j
      { s.all j with iGate := g, calls := n, closer := c }) := by
  refine @Sound.ofTaskAll _ _ _ s _ h t j ?_ ?_ rfl ?_ ?_ ?_ ?_ ?_ ?_ ?_
  · intro t' ht'
    exact setTask_task_ne s _ ht'
  · intro j' hj'
    exact setAll_all_ne _ _ hj'
  · intro t' _
    exact ⟨(h.task t').chain, (h.task t').walk⟩
  · intro hr
    rw [setAll_task, setTask_task_self]
    exact ⟨hr, rfl⟩
  · intro t' _ i
    rw [setAll_all_self]
    exact Iff.rfl
  · intro t' ht' hc'
    -- there is one closer only
    rcases hcl with hcl | hcl
    · rw [hcl] at hc'
      rcases hc' with hc' | hc'
      · injection hc' with he
        exact absurd he.symm ht'
      · cases hc'
    · rw [hcl] at hc'
      rcases hc' with hc' | hc'
      · cases hc'
      · injection hc' with he
        exact absurd he.symm ht'
  · intro j' hj' hc'
    -- and a task closes one `WhenAll` at a time
    have hone : ∀ k, (s.all k).closer = .completer t ∨ (s.all k).closer = .waker t →
        ∃ i next, (s.task t).run = .counted k i next ∨
          (s.task t).run = .waking (.slot k i) next := by
      intro k hk
      rcases hk with hk | hk
      · obtain ⟨i, next, hrun⟩ := (h.all k).closer.counted hk
        exact ⟨i, next, Or.inl hrun⟩
      · obtain ⟨i, next, hrun⟩ := (h.all k).closer.waking hk
        exact ⟨i, next, Or.inr hrun⟩
    obtain ⟨i, next, hrun⟩ := hone j hcl
    obtain ⟨i', next', hrun'⟩ := hone j' hc'
    exfalso
    rcases hrun with hrun | hrun
    · rw [hrun] at hrun'
      rcases hrun' with hrun' | hrun'
      · injection hrun' with he
        exact hj' he.symm
      · cases hrun'
    · rw [hrun] at hrun'
      rcases hrun' with hrun' | hrun'
      · cases hrun'
      · injection hrun' with he _
        injection he with he _
        exact hj' he.symm
  · refine @TaskSound.rerun _ _ _ s _ t r (h.task t) ?_ rfl hcur hcursor hover hro rfl ?_ ?_ ?_
    · rw [setAll_task, setTask_task_self]
    · intro j' i
      by_cases hj' : j' = j
      · subst hj'
        rw [setAll_all_self]
        exact Iff.rfl
      · rw [setAll_all_ne _ _ hj']
        exact Iff.rfl
    · intro k l nx hr
      exact absurd hr (hrc k l nx)
    · intro k l nx hr
      obtain ⟨rfl, hw⟩ := hrw k l nx hr
      rw [setAll_all_self]
      exact hw
  · refine @AllSound.regate _ _ _ s _ j (h.all j) g n c ?_ ?_ hn ?_ ?_ ?_ hc
    · rw [setAll_all_self]
    · intro t' ht'
      by_cases he : t' = t
      · subst he
        rw [setAll_task, setTask_task_self]
        exact ht'
      · rw [setAll_task, setTask_task_ne s _ he]
        exact ht'
    · intro hreg
      rw [hreg] at hcl
      rcases hcl with hcl | hcl
      · cases hcl
      · cases hcl
    · intro hnob
      rw [hnob] at hcl
      rcases hcl with hcl | hcl
      · cases hcl
      · cases hcl
    · intro t' ht'
      rw [hself t' ht']
      exact (h.all j).member t hcl

/-- The exchange of the gate: the parent waits, and this task is to wake it, or `await_suspend` is
still to come by the gate. -/
theorem Sound.taskGate (h : Sound s) (hs : taskGate s t = some s') : Sound s' := by
  have hx := h.task t
  rw [Waiters.taskGate] at hs
  split at hs
  case h_2 => cases hs
  case h_1 j i next hrun =>
    have hcl := hx.counted j i next hrun
    have hc := (h.all j).closer
    rw [CloserSound, hcl] at hc
    obtain ⟨hret, hcalls, hleft, hgate, _⟩ := hc
    have hover : (s.task t).run.over = true := by
      rw [hrun]
      rfl
    dsimp only at hs
    split at hs
    case isTrue hwait =>
      obtain rfl := Option.some.inj hs
      have hsusp : (s.all j).returned = some true := by
        by_contra hne
        rw [unsetGate, if_neg hne, hwait] at hgate
        cases hgate
      refine @Sound.regate _ _ _ s h t j (.waking (.slot j i) next) .Ready (s.all j).calls (.waker t)
        (Or.inl hcl) ?_ ?_ hover rfl (Nat.le_refl _) ?_ ?_ ?_ ?_
      · rw [hrun]
        rfl
      · rw [hrun]
        rfl
      · intro k l nx hr
        cases hr
      · intro k l nx hr
        injection hr with he _
        injection he with he _
        exact ⟨he.symm, rfl⟩
      · rintro t' (he | he)
        · cases he
        · injection he with he
          exact he.symm
      · simp only [CloserSound, setAll_all_self, setAll_task, setTask_task_self]
        exact ⟨hsusp, hcalls, hleft, i, next, rfl⟩
    case isFalse hwait =>
      obtain rfl := Option.some.inj hs
      have hnone : (s.all j).returned = none := by
        by_contra hne
        have hsusp : (s.all j).returned = some true := by
          cases hr : (s.all j).returned with
          | none => exact absurd hr hne
          | some b =>
            cases b with
            | true => rfl
            | false => exact absurd hr hret
        rw [unsetGate, if_pos hsusp] at hgate
        exact hwait hgate
      refine @Sound.regate _ _ _ s h t j (.walking next) .Ready (s.all j).calls .shut
        (Or.inl hcl) ?_ ?_ hover rfl (Nat.le_refl _) ?_ ?_ ?_ ?_
      · rw [hrun]
        rfl
      · rw [hrun]
        rfl
      · intro k l nx hr
        cases hr
      · intro k l nx hr
        cases hr
      · rintro t' (he | he)
        · cases he
        · cases he
      · simp only [CloserSound, setAll_all_self]
        exact ⟨hcalls, hleft, Or.inl ⟨hnone, trivial⟩⟩

/-! ## The steps of a task with an await -/

/-- A step that changes one task and one await. -/
theorem Sound.ofTaskAwait {s s' : World ε α β} (h : Sound s) {t a : Nat}
    (htask : ∀ t', t' ≠ t → s'.task t' = s.task t')
    (hawait : ∀ a', a' ≠ a → s'.await a' = s.await a') (hall : s'.all = s.all)
    (hchain : ∀ t', t' ≠ t → Chain s'.pNext (s.task t').pWaiters (s.task t').listed ∧
      Chain s'.pNext (s.task t').run.cursor (s.task t').taken)
    (hmono : (s.task t).bReady = true →
      (s'.task t).bReady = true ∧ (s'.task t).stOutcome = (s.task t).stOutcome)
    (hold : ∀ t', t' ≠ t → ¬ ((s.await a).stChild = t' ∧ (s.await a).Pending))
    (hnew : ∀ t', t' ≠ t → ¬ ((s'.await a).stChild = t' ∧ (s'.await a).Pending))
    (hbusy : (s'.task t).run = (s.task t).run ∨ (s.task t).run.busy = false)
    (ht : TaskSound s' t) (ha : AwaitSound s' a) : Sound s' := by
  have hother := ready_kept htask hmono
  refine ⟨fun t' => ?_, fun a' => ?_, fun j => ?_⟩
  · by_cases he : t' = t
    · subst he
      exact ht
    · refine (h.task t').transfer (htask t' he) (hchain t' he).1 (hchain t' he).2 ?_ ?_ ?_
      · intro a'
        by_cases ha' : a' = a
        · subst ha'
          exact iff_of_false (hnew t' he) (hold t' he)
        · rw [hawait a' ha']
      · intro j i
        rw [hall]
      · intro j _
        rw [hall]
  · by_cases ha' : a' = a
    · subst ha'
      exact ha
    · exact (h.await a').transfer (hawait a' ha') hother
  · refine (h.all j).transfer (by rw [hall]) (fun t' ht' => (hother t' ht').1) ?_
    intro t' hc
    by_cases he : t' = t
    · subst he
      rcases hbusy with hrun | hbusy
      · exact hrun
      · have hb := (h.all j).closer.busy hc
        rw [hbusy] at hb
        cases hb
    · rw [htask t' he]

/-- A coroutine is scheduled: an awaiter, or the parent of a `WhenAll`. -/
theorem Sound.taskWake (h : Sound s) (hs : taskWake s t = some s') : Sound s' := by
  have hx := h.task t
  rw [Waiters.taskWake] at hs
  split at hs
  case h_3 => cases hs
  case h_1 a next hrun =>
    obtain rfl := Option.some.inj hs
    have hheld : .await a ∈ (s.task t).held := by
      apply mem_held_current
      rw [hrun]
      exact List.mem_singleton_self _
    obtain ⟨hchild, hret, hcalls⟩ := (hx.awaits a).1 hheld
    have hready : (s.task t).bReady = true := by
      rw [hx.ready, hrun]
      rfl
    have ha := h.await a
    refine @Sound.ofTaskAwait _ _ _ s _ h t a ?_ ?_ rfl ?_ ?_ ?_ ?_ ?_ ?_ ?_
    · intro t' ht'
      exact setTask_task_ne s _ ht'
    · intro a' ha'
      exact setAwait_await_ne _ _ ha'
    · intro t' _
      exact ⟨(h.task t').chain, (h.task t').walk⟩
    · intro hr
      rw [setAwait_task, setTask_task_self]
      exact ⟨hr, rfl⟩
    · intro t' ht' hp
      exact ht' (hp.1.symm.trans hchild)
    · intro t' ht' hp
      rw [setAwait_await_self] at hp
      exact ht' (hp.1.symm.trans hchild)
    · rw [hrun]
      exact Or.inr rfl
    · refine @TaskSound.drop _ _ _ s _ t (.await a) (.walking next) hx ?_ ?_ rfl rfl ?_ ?_ rfl ?_ ?_
        ?_ ?_
      · rw [hrun]
        rfl
      · rw [setAwait_task, setTask_task_self]
      · rw [hrun]
        rfl
      · rw [hrun]
        rfl
      · intro a'
        by_cases ha' : a' = a
        · subst ha'
          rw [setAwait_await_self]
          refine iff_of_false ?_ ?_
          · rintro ⟨_, _, hc⟩
            cases hc
          · rintro ⟨_, hne⟩
            exact hne rfl
        · rw [setAwait_await_ne _ _ ha']
          constructor
          · intro hp
            refine ⟨hp, fun he => ?_⟩
            injection he with he
            exact ha' he
          · intro hp
            exact hp.1
      · intro j i
        constructor
        · intro hp
          exact ⟨hp, fun he => by cases he⟩
        · intro hp
          exact hp.1
      · intro k l nx hr
        cases hr
      · intro k l nx hr
        cases hr
    · have htask : ((s.setTask t { s.task t with run := .walking next }).task
          (s.await a).stChild).bReady = true ∧ ((s.setTask t
            { s.task t with run := .walking next }).task (s.await a).stChild).stOutcome =
          (s.task (s.await a).stChild).stOutcome := by
        rw [hchild, setTask_task_self]
        exact ⟨hready, rfl⟩
      apply AwaitSound.of_record (setAwait_await_self _ a _)
      exact { ha with
        calls := by
          show (s.await a).calls + 1 ≤ if (s.await a).returned = some true then 1 else 0
          rw [hcalls, hret]
          decide
        scheduled := fun _ => htask.1
        past := fun _ => htask.1
        done := fun o ho => (ha.done o ho).trans htask.2.symm }
  case h_2 j i next hrun =>
    obtain rfl := Option.some.inj hs
    have hcl := hx.waking j i next hrun
    have hc := (h.all j).closer
    rw [CloserSound, hcl] at hc
    obtain ⟨hret, hcalls, hleft, _⟩ := hc
    refine @Sound.regate _ _ _ s h t j (.walking next) (s.all j).iGate ((s.all j).calls + 1) .woken
      (Or.inr hcl) ?_ ?_ ?_ rfl (Nat.le_succ _) ?_ ?_ ?_ ?_
    · rw [hrun]
      rfl
    · rw [hrun]
      rfl
    · rw [hrun]
      rfl
    · intro k l nx hr
      cases hr
    · intro k l nx hr
      cases hr
    · rintro t' (he | he)
      · cases he
      · cases he
    · simp only [CloserSound, setAll_all_self]
      exact ⟨hret, by rw [hcalls], hleft⟩

/-! ## The steps of an await -/

/-- A step that changes one await and leaves it pending or not. -/
theorem Sound.setAwait (h : Sound s) {y : Await ε α}
    (hview : ∀ t, y.stChild = t ∧ y.Pending ↔ (s.await a).stChild = t ∧ (s.await a).Pending)
    (ha : AwaitSound (s.setAwait a y) a) : Sound (s.setAwait a y) := by
  refine ⟨fun t => ?_, fun a' => ?_, fun j => ?_⟩
  · refine (h.task t).transfer rfl (h.task t).chain (h.task t).walk ?_ (fun _ _ => Iff.rfl)
      (fun _ _ => rfl)
    intro a'
    by_cases ha' : a' = a
    · subst ha'
      rw [setAwait_await_self]
      exact hview t
    · rw [setAwait_await_ne s y ha']
  · by_cases ha' : a' = a
    · subst ha'
      exact ha
    · exact (h.await a').transfer (setAwait_await_ne s y ha') (fun _ ht => ⟨ht, rfl⟩)
  · exact (h.all j).transfer rfl (fun _ ht => ht) (fun _ _ => rfl)

theorem Sound.awaitCreate (h : Sound s) (hs : awaitCreate s a t = some s') : Sound s' := by
  have ha := h.await a
  rw [Waiters.awaitCreate] at hs
  split at hs
  case h_2 => cases hs
  case h_1 hphase =>
    obtain rfl := Option.some.inj hs
    have hnone : (s.await a).returned = none := ha.early (by rw [hphase]; rfl)
    refine h.setAwait ?_ ?_
    · intro t'
      refine iff_of_false ?_ ?_
      · rintro ⟨_, hp, _⟩
        cases hp
      · rintro ⟨_, hp, _⟩
        rw [hnone] at hp
        cases hp
    · constructor <;> simp [AwaitPhase.past]

theorem Sound.awaitReady (h : Sound s) (hs : awaitReady s a = some s') : Sound s' := by
  have ha := h.await a
  rw [Waiters.awaitReady] at hs
  split at hs
  case h_2 => cases hs
  case h_1 hphase =>
    have hnone : (s.await a).returned = none := ha.early (by rw [hphase]; rfl)
    have hcalls := ha.calls
    rw [hnone] at hcalls
    split at hs
    case isTrue hready =>
      obtain rfl := Option.some.inj hs
      refine h.setAwait (fun _ => Iff.rfl) (.of_record (setAwait_await_self s a _) ?_)
      exact { ha with early := nofun, refused := fun _ => rfl, past := fun _ => hready, done := nofun }
    case isFalse =>
      obtain rfl := Option.some.inj hs
      refine h.setAwait (fun _ => Iff.rfl) (.of_record (setAwait_await_self s a _) ?_)
      exact { ha with
        early := fun _ => hnone
        refused := fun he => absurd (hnone.symm.trans he) nofun
        past := nofun
        done := nofun }

theorem Sound.awaitResume (h : Sound s) (hs : awaitResume s a = some s') : Sound s' := by
  have ha := h.await a
  rw [Waiters.awaitResume] at hs
  split at hs
  case h_2 => cases hs
  case h_1 hphase =>
    obtain ⟨hcalls, rfl⟩ := of_guard hs
    refine h.setAwait (fun _ => Iff.rfl) (.of_record (setAwait_await_self s a _) ?_)
    exact { ha with
      early := nofun
      refused := fun _ => rfl
      past := fun _ => ha.scheduled hcalls
      done := nofun }

theorem Sound.awaitTake (h : Sound s) (hs : awaitTake s a = some s') : Sound s' := by
  have ha := h.await a
  rw [Waiters.awaitTake] at hs
  split at hs
  case h_2 => cases hs
  case h_1 hphase =>
    obtain rfl := Option.some.inj hs
    refine h.setAwait (fun _ => Iff.rfl) (.of_record (setAwait_await_self s a _) ?_)
    exact { ha with
      early := nofun
      refused := fun _ => rfl
      past := fun _ => ha.past (by rw [hphase]; rfl)
      done := by
        rintro o ⟨⟩
        rfl }

/-! ## Pushing a node

The node goes in front of the list it is pushed to, and nobody else has it. -/

@[simp] theorem pushNode_task_self (s : World ε α β) (t : Nat) (n : Node) :
    (pushNode s t n).task t =
      { s.task t with pWaiters := some n, listed := n :: (s.task t).listed } :=
  setTask_task_self s t _

theorem pushNode_task_ne (s : World ε α β) {t' : Nat} (n : Node) (h : t' ≠ t) :
    (pushNode s t n).task t' = s.task t' := setTask_task_ne s _ h

theorem pushNode_pNext (s : World ε α β) (t : Nat) (n : Node) :
    (pushNode s t n).pNext = Function.update s.pNext n (s.task t).pWaiters := rfl

/-- The task after a node was pushed, once the node's owner counts as waiting for it. -/
theorem TaskSound.push {s s' : World ε α β} {t : Nat} {n : Node} (h : TaskSound s t)
    (hn : n ∉ (s.task t).held) (hready : (s.task t).bReady = false)
    (htask : s'.task t = (pushNode s t n).task t) (hpn : s'.pNext = (pushNode s t n).pNext)
    (hawaits : ∀ a, (s'.await a).stChild = t ∧ (s'.await a).Pending ↔
      Node.await a = n ∨ (s.await a).stChild = t ∧ (s.await a).Pending)
    (hslots : ∀ j i, (s'.all j).Pushed i t ↔ Node.slot j i = n ∨ (s.all j).Pushed i t)
    (hcloser : ∀ j, (s'.all j).closer = (s.all j).closer) : TaskSound s' t := by
  rw [pushNode_task_self] at htask
  rw [pushNode_pNext] at hpn
  have hheld : Task.held { s.task t with pWaiters := some n, listed := n :: (s.task t).listed } =
      n :: (s.task t).held := rfl
  apply TaskSound.of_record htask
  exact { h with
    idle := fun hr => absurd (hready.symm.trans hr) nofun
    chain := by
      rw [hpn]
      exact h.chain.push fun hm => hn (mem_held_listed hm)
    walk := by
      rw [hpn]
      exact (h.chain_update hn _).2
    nodup := List.nodup_cons.2 ⟨hn, h.nodup⟩
    awaits := by
      intro a
      rw [hheld, hawaits, List.mem_cons, h.awaits a]
    slots := by
      intro j i
      rw [hheld, hslots, List.mem_cons, h.slots j i]
    counted := fun j i next hrun => (hcloser j).trans (h.counted j i next hrun)
    waking := fun j i next hrun => (hcloser j).trans (h.waking j i next hrun) }

theorem Sound.awaitSuspend (h : Sound s) (hs : awaitSuspend s a = some s') : Sound s' := by
  have ha := h.await a
  rw [Waiters.awaitSuspend] at hs
  split at hs
  case h_2 => cases hs
  case h_1 hphase =>
    have hnone : (s.await a).returned = none := ha.early (by rw [hphase]; rfl)
    have hcalls : (s.await a).calls = 0 := by
      have hle := ha.calls
      rw [hnone] at hle
      simpa using hle
    have hnot : ∀ t, ¬ ((s.await a).stChild = t ∧ (s.await a).Pending) := by
      rintro t ⟨_, hp, _⟩
      rw [hnone] at hp
      cases hp
    split at hs
    case isTrue hready =>
      obtain rfl := Option.some.inj hs
      refine h.setAwait ?_ ?_
      · intro t
        refine iff_of_false ?_ (hnot t)
        rintro ⟨_, hp, _⟩
        cases hp
      · apply AwaitSound.of_record (setAwait_await_self s a _)
        exact { ha with
          calls := hcalls.le.trans (Nat.zero_le _)
          early := nofun
          scheduled := fun _ => hready
          refused := fun _ => rfl
          past := fun _ => hready
          done := nofun }
    case isFalse hready =>
      obtain rfl := Option.some.inj hs
      have hready : (s.task (s.await a).stChild).bReady = false := by simpa using hready
      have hfresh : ∀ t, Node.await a ∉ (s.task t).held := by
        intro t hm
        exact hnot t (((h.task t).awaits a).1 hm)
      refine @Sound.ofTaskAwait _ _ _ s _ h (s.await a).stChild a ?_ ?_ rfl ?_ ?_ ?_ ?_ ?_ ?_ ?_
      · intro t' ht'
        exact pushNode_task_ne s _ ht'
      · intro a' ha'
        rw [setAwait_await_ne _ _ ha']
        rfl
      · intro t' _
        exact (h.task t').chain_update (hfresh t') _
      · intro hr
        rw [hready] at hr
        cases hr
      · intro t' _
        exact hnot t'
      · intro t' ht' hp
        rw [setAwait_await_self] at hp
        exact ht' hp.1.symm
      · refine Or.inl ?_
        rw [setAwait_task, pushNode_task_self]
      · refine @TaskSound.push _ _ _ s _ (s.await a).stChild (.await a) (h.task _) (hfresh _) hready
          rfl rfl ?_ ?_ (fun _ => rfl)
        · intro a'
          by_cases ha' : a' = a
          · subst ha'
            rw [setAwait_await_self]
            exact ⟨fun _ => Or.inl rfl, fun _ => ⟨rfl, rfl, hcalls⟩⟩
          · rw [setAwait_await_ne _ _ ha']
            constructor
            · intro hp
              exact Or.inr hp
            · rintro (he | hp)
              · injection he with he
                exact absurd he ha'
              · exact hp
        · intro j i
          constructor
          · intro hp
            exact Or.inr hp
          · rintro (he | hp)
            · cases he
            · exact hp
      · apply AwaitSound.of_record (setAwait_await_self _ a _)
        exact {
          calls := hcalls.le.trans (Nat.zero_le _)
          early := nofun
          scheduled := fun hc => absurd hcalls (Nat.ne_of_gt hc)
          refused := nofun
          past := nofun
          done := nofun }

end OpenIdea.Coro.Waiters

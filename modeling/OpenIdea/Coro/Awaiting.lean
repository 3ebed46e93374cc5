import OpenIdea.Lib.Runs
import OpenIdea.Lib.Intrusive
import OpenIdea.Coro.TaskWaiters
import OpenIdea.Coro.WaiterInvariant
import OpenIdea.Coro.WhenAllSteps

/-!
# Awaiting a shared task

What an awaiting coroutine can rely on, in every state of every run: `Schedule` is called on it once
if its `await_suspend` returned true, and never otherwise; it does not go on before the task is
over; it gets what the task stored; and its node is not read once it may be running. That the call
of `Schedule` does come is a statement about the end of the task's walk, and the walk does end: the
nodes form a list, whose walk is not disturbed by the coroutines it lets go. The walk ends by
`Sound.finishes`; the main result is `awaits_once`.
-/

set_option autoImplicit false

namespace OpenIdea.Coro.Waiters

open OpenIdea.Lib.Runs OpenIdea.Lib.Intrusive

variable {ε α β : Type}

/-! ## Nobody is read after it was let go -/

variable {s : World ε α β} {t : Nat}

/-- A node that a step reads has an owner that is not let go yet. -/
theorem Sound.reads (h : Sound s) {e : Event ε α} {n : Node} (hn : reads s e = some n) :
    s.released n = false := by
  cases e with
  | taskVisit t =>
    rw [Waiters.reads] at hn
    split at hn
    case h_2 => cases hn
    case h_1 m hrun =>
      subst hn
      have hwalk := (h.task t).walk
      rw [hrun] at hwalk
      obtain ⟨rest, htaken, _⟩ := Chain.uncons hwalk
      apply h.not_released (@mem_held_taken _ _ (s.task t) _ ?_)
      rw [htaken]
      exact List.mem_cons_self
  | taskTest t =>
    rw [Waiters.reads] at hn
    split at hn
    case h_2 => cases hn
    case h_1 m next hrun =>
      obtain rfl := Option.some.inj hn
      apply h.not_released (@mem_held_current _ _ (s.task t) _ ?_)
      rw [hrun]
      exact List.mem_singleton_self _
  | taskGate t =>
    rw [Waiters.reads] at hn
    split at hn
    case h_2 => cases hn
    case h_1 j i next hrun =>
      obtain rfl := Option.some.inj hn
      have hc := (h.all j).closer
      rw [CloserSound, (h.task t).counted j i next hrun] at hc
      simp [World.released, hc.1, hc.2.1]
  | taskWake t =>
    rw [Waiters.reads] at hn
    split at hn
    case h_2 => cases hn
    case h_1 m next hrun =>
      obtain rfl := Option.some.inj hn
      cases m with
      | await a =>
        apply h.not_released (@mem_held_current _ _ (s.task t) _ ?_)
        rw [hrun]
        exact List.mem_singleton_self _
      | slot j i =>
        have hc := (h.all j).closer
        rw [CloserSound, (h.task t).waking j i next hrun] at hc
        simp [World.released, hc.1, hc.2.1]
  | taskReturn t o => cases hn
  | taskFinal t => cases hn
  | awaitCreate a t => cases hn
  | awaitReady a => cases hn
  | awaitSuspend a => cases hn
  | awaitResume a => cases hn
  | awaitTake a => cases hn
  | allCreate j v => cases hn
  | allEnter j => cases hn
  | allRegister j => cases hn
  | allCount j => cases hn
  | allShut j => cases hn
  | allResume j => cases hn
  | allCollect j a => cases hn
  | allTake j => cases hn
  | scribble m garbage => cases hn

/-! ## The walk ends -/

/-- The step is one of the task `t`. -/
def Event.byTask (t : Nat) : Event ε α → Bool
  | .taskFinal t' => t' == t
  | .taskVisit t' => t' == t
  | .taskTest t' => t' == t
  | .taskGate t' => t' == t
  | .taskWake t' => t' == t
  | _ => false

/-- What a task that has returned has left to do. -/
def Task.work (x : Task ε α) : Nat :=
  match x.run with
  | .running => 0
  | .returned => 4 * x.listed.length + 2
  | .walking _ => 4 * x.taken.length + 1
  | .visiting _ _ => 4 * x.taken.length + 4
  | .counted _ _ _ => 4 * x.taken.length + 3
  | .waking _ _ => 4 * x.taken.length + 2
  | .finished => 0

/-- A task that has returned is never stuck, and its steps come nearer to the end. -/
theorem Sound.progress (convert : α → β) (h : Sound s) (hrunning : (s.task t).run ≠ .running)
    (hfinished : (s.task t).run ≠ .finished) :
    ∃ e s', step convert s e = some s' ∧ e.byTask t = true ∧
      (s'.task t).work < (s.task t).work ∧ (s'.task t).run ≠ .running := by
  have hby : ∀ e : Event ε α, ∀ {s' : World ε α β} {x : Task ε α}, step convert s e = some s' →
      e.byTask t = true → s'.task t = x → x.work < (s.task t).work → x.run ≠ .running →
      ∃ e s', step convert s e = some s' ∧ e.byTask t = true ∧
        (s'.task t).work < (s.task t).work ∧ (s'.task t).run ≠ .running := by
    rintro e s' x hs he rfl hwork hrun
    exact ⟨e, s', hs, he, hwork, hrun⟩
  have hself : (t == t) = true := beq_self_eq_true t
  cases hrun : (s.task t).run with
  | running => exact absurd hrun hrunning
  | finished => exact absurd hrun hfinished
  | returned =>
    refine hby (.taskFinal t) (by simp only [step, Waiters.taskFinal, hrun]; rfl) hself
      (setTask_task_self ..) ?_ (by simp)
    rw [Task.work, Task.work, hrun]
    exact Nat.lt_succ_self _
  | walking m =>
    cases m with
    | none =>
      refine hby (.taskVisit t) (by simp only [step, Waiters.taskVisit, hrun]; rfl) hself
        (setTask_task_self ..) ?_ (by simp)
      rw [Task.work, Task.work, hrun]
      exact Nat.succ_pos _
    | some n =>
      have hwalk := (h.task t).walk
      rw [hrun] at hwalk
      obtain ⟨rest, htaken, _⟩ := Chain.uncons hwalk
      refine hby (.taskVisit t) (by simp only [step, Waiters.taskVisit, hrun]; rfl) hself
        (setTask_task_self ..) ?_ (by simp)
      simp only [Task.work, hrun, htaken, List.tail_cons, List.length_cons]
      omega
  | visiting n next =>
    cases n with
    | await a =>
      refine hby (.taskTest t) (by simp only [step, Waiters.taskTest, hrun]; rfl) hself
        (setTask_task_self ..) ?_ (by simp)
      simp only [Task.work, hrun]
      omega
    | slot j i =>
      by_cases hone : (s.all j).iLeft = 1
      · refine hby (.taskTest t) (by simp only [step, Waiters.taskTest, hrun, if_pos hone]; rfl)
          hself (by rw [setAll_task, setTask_task_self]) ?_ (by simp)
        simp only [Task.work, hrun]
        omega
      · refine hby (.taskTest t) (by simp only [step, Waiters.taskTest, hrun, if_neg hone]; rfl)
          hself (by rw [setAll_task, setTask_task_self]) ?_ (by simp)
        simp only [Task.work, hrun]
        omega
  | counted j i next =>
    by_cases hwait : (s.all j).iGate = .Waiting
    · refine hby (.taskGate t) (by simp only [step, Waiters.taskGate, hrun, if_pos hwait]; rfl)
        hself (by rw [setAll_task, setTask_task_self]) ?_ (by simp)
      simp only [Task.work, hrun]
      omega
    · refine hby (.taskGate t) (by simp only [step, Waiters.taskGate, hrun, if_neg hwait]; rfl)
        hself (by rw [setAll_task, setTask_task_self]) ?_ (by simp)
      simp only [Task.work, hrun]
      omega
  | waking n next =>
    cases n with
    | await a =>
      refine hby (.taskWake t) (by simp only [step, Waiters.taskWake, hrun]; rfl) hself
        (by rw [setAwait_task, setTask_task_self]) ?_ (by simp)
      rw [Task.work, Task.work, hrun]
      exact Nat.lt_succ_self _
    | slot j i =>
      refine hby (.taskWake t) (by simp only [step, Waiters.taskWake, hrun]; rfl) hself
        (by rw [setAll_task, setTask_task_self]) ?_ (by simp)
      rw [Task.work, Task.work, hrun]
      exact Nat.lt_succ_self _

/-- A task that has returned comes to its end by its own steps. -/
theorem Sound.finishes (convert : α → β) :
    ∀ (n : Nat) {s : World ε α β}, Sound s → (s.task t).work ≤ n → (s.task t).run ≠ .running →
      ∃ es s', runFrom (step convert) s es = some s' ∧ (∀ e ∈ es, e.byTask t = true) ∧
        (s'.task t).run = .finished := by
  intro n
  induction n with
  | zero =>
    intro s h hn hrunning
    refine ⟨[], s, rfl, by simp, ?_⟩
    by_contra hfinished
    obtain ⟨e, s', _, _, hlt, _⟩ := h.progress convert hrunning hfinished
    omega
  | succ n ih =>
    intro s h hn hrunning
    by_cases hfinished : (s.task t).run = .finished
    · exact ⟨[], s, rfl, by simp, hfinished⟩
    · obtain ⟨e, s₁, hs₁, he, hlt, hrun₁⟩ := h.progress convert hrunning hfinished
      obtain ⟨es, s', hrun, hes, hend⟩ := ih (step_sound h hs₁) (by omega) hrun₁
      refine ⟨e :: es, s', runFrom_cons.2 ⟨s₁, hs₁, hrun⟩, ?_, hend⟩
      intro e' he'
      rcases List.mem_cons.1 he' with rfl | he'
      · exact he
      · exact hes e' he'

/-- A task at its end holds no node. -/
theorem TaskSound.held_finished (h : TaskSound s t) (hrun : (s.task t).run = .finished) :
    (s.task t).held = [] := by
  have hready : (s.task t).bReady = true := by
    rw [h.ready, hrun]
    rfl
  have hwalk := h.walk
  rw [hrun] at hwalk
  have htaken : (s.task t).taken = [] := Chain.eq_nil hwalk
  rw [Task.held, h.idle hready, htaken, hrun]
  rfl

/-! ## What an awaiting coroutine can rely on -/

/-- **What holds of every await in every state.** -/
structure AwaitsOnce (convert : α → β) (s : World ε α β) : Prop where
  /-- `Schedule` is called at most once, and only if `await_suspend` returned true. -/
  atMostOnce : ∀ a, (s.await a).calls ≤ if (s.await a).returned = some true then 1 else 0
  /-- When the task's `final_suspend` is over, it was called if `await_suspend` returned true. -/
  exactlyOnce : ∀ a, (s.task (s.await a).stChild).run = .finished →
    (s.await a).calls = if (s.await a).returned = some true then 1 else 0
  /-- A task that has returned comes to the end of its `final_suspend`. -/
  finishes : ∀ t, (s.task t).run ≠ .running →
    ∃ es s', runFrom (step convert) s es = some s' ∧ (∀ e ∈ es, e.byTask t = true) ∧
      (s'.task t).run = .finished
  /-- Nobody goes on before the task is over. -/
  notBefore : ∀ a, (s.await a).phase.past = true → (s.task (s.await a).stChild).bReady = true
  /-- A coroutine that was scheduled goes on. -/
  resumes : ∀ a, (s.await a).phase = .suspended → 0 < (s.await a).calls →
    ∃ s', step convert s (.awaitResume a) = some s' ∧ (s'.await a).phase = .resumed
  /-- `await_resume` returns or rethrows what the task stored. -/
  takes : ∀ a, (s.await a).phase = .resumed → ∃ o s',
    (s.task (s.await a).stChild).stOutcome = some o ∧
      step convert s (.awaitTake a) = some s' ∧ (s'.await a).phase = .done (some o)
  /-- Everybody has got what the task stored. -/
  sameOutcome : ∀ a o, (s.await a).phase = .done o →
    o = (s.task (s.await a).stChild).stOutcome ∧ o.isSome = true
  /-- No step reads the node of a coroutine that was let go. -/
  noRead : ∀ e a, reads s e = some (.await a) →
    (s.await a).calls = 0 ∧ (s.await a).returned ≠ some false

/-- Whoever is past its wait finds what the task stored. -/
theorem Sound.stored (h : Sound s) {a : Nat} (hpast : (s.await a).phase.past = true) :
    (s.task (s.await a).stChild).stOutcome.isSome = true := by
  have hchild := h.task (s.await a).stChild
  rw [hchild.outcome]
  intro hrun
  have hready := (h.await a).past hpast
  rw [hchild.ready, hrun] at hready
  cases hready

theorem Sound.awaitsOnce (convert : α → β) (h : Sound s) :
    AwaitsOnce convert s where
  atMostOnce := fun a => (h.await a).calls
  exactlyOnce := by
    intro a hrun
    have hle := (h.await a).calls
    by_cases hret : (s.await a).returned = some true
    · rw [if_pos hret] at hle ⊢
      have hne : (s.await a).calls ≠ 0 := by
        intro hzero
        -- a pending awaiter would be held by the task
        have hmem := ((h.task (s.await a).stChild).awaits a).2 ⟨rfl, hret, hzero⟩
        rw [(h.task _).held_finished hrun] at hmem
        cases hmem
      omega
    · rw [if_neg hret] at hle ⊢
      omega
  finishes := fun t hrun => h.finishes convert _ (Nat.le_refl _) hrun
  notBefore := fun a => (h.await a).past
  resumes := by
    intro a hphase hcalls
    refine ⟨_, by rw [step, Waiters.awaitResume, hphase]; exact if_pos hcalls, ?_⟩
    rw [setAwait_await_self]
  takes := by
    intro a hphase
    obtain ⟨o, ho⟩ := Option.isSome_iff_exists.1 (h.stored (a := a) (by rw [hphase]; rfl))
    refine ⟨o, _, ho, by rw [step, Waiters.awaitTake, hphase], ?_⟩
    rw [setAwait_await_self, ho]
  sameOutcome := by
    intro a o ho
    have hdone := (h.await a).done o ho
    refine ⟨hdone, ?_⟩
    rw [hdone]
    exact h.stored (by rw [ho]; rfl)
  noRead := by
    intro e a hn
    have hfalse := h.reads hn
    simp only [World.released, Bool.or_eq_false_iff, decide_eq_false_iff_not, beq_eq_false_iff_ne,
      Nat.not_lt, Nat.le_zero] at hfalse
    exact hfalse

/-- **A shared task resumes every awaiter once, with the same outcome.** In every state of every
run, for any number of tasks and awaiters and whatever the order of their steps: an awaiter is
scheduled once if its `await_suspend` returned true and never otherwise, goes on only after the task
is over, gets the result or the exception the task stored, and its node is not read once it was let
go. -/
theorem awaits_once {convert : α → β} {es : List (Event ε α)} {s : World ε α β}
    (h : runFrom (step convert) (init ε α β) es = some s) : AwaitsOnce convert s :=
  (run_sound h).awaitsOnce convert

deriving instance DecidableEq for AwaitPhase

/-- Task 0 has two awaiters that suspend, one that finds it over in `await_suspend`, and one that
finds it over in `await_ready`; the first to be scheduled runs, and its node is overwritten, while
the walk goes on. -/
def threeAwaiters : List (Event Nat Nat) :=
  [.awaitCreate 0 0, .awaitCreate 1 0, .awaitCreate 2 0, .awaitReady 0, .awaitReady 1, .awaitReady 2,
    .awaitSuspend 0, .awaitSuspend 1, .taskReturn 0 (.error 5), .taskFinal 0, .awaitSuspend 2,
    .taskVisit 0, .taskTest 0, .taskWake 0, .awaitResume 1, .awaitTake 1,
    .scribble (.await 1) (some (.await 1)), .taskVisit 0, .taskTest 0, .taskWake 0, .taskVisit 0,
    .awaitResume 0, .awaitTake 0, .awaitTake 2, .awaitCreate 3 0, .awaitReady 3, .awaitTake 3]

theorem awaits_once_threeAwaiters :
    ∃ s, runFrom (step id) (init Nat Nat Nat) threeAwaiters = some s ∧ AwaitsOnce id s ∧
      (s.task 0).run = .finished ∧
      [0, 1, 2, 3].map (fun a => (s.await a).calls) = [1, 1, 0, 0] ∧
      [0, 1, 2, 3].map (fun a => (s.await a).phase) =
        List.replicate 4 (.done (some (.error 5))) := by
  have hend : (runFrom (step id) (init Nat Nat Nat) threeAwaiters).map (fun s =>
      ((s.task 0).run, [0, 1, 2, 3].map (fun a => (s.await a).calls),
        [0, 1, 2, 3].map fun a => (s.await a).phase)) =
      some (.finished, [1, 1, 0, 0], List.replicate 4 (.done (some (.error 5)))) := by
    decide +kernel
  obtain ⟨s, hs, hfacts⟩ := Option.map_eq_some_iff.1 hend
  obtain ⟨hrun, hawaits⟩ := Prod.mk.inj hfacts
  obtain ⟨hcalls, hphases⟩ := Prod.mk.inj hawaits
  exact ⟨s, hs, awaits_once hs, hrun, hcalls, hphases⟩

end OpenIdea.Coro.Waiters

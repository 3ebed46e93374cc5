import OpenIdea.Lib.Runs
import OpenIdea.Lib.Tally
import OpenIdea.Coro.TaskWaiters
import OpenIdea.Coro.WaiterInvariant
import OpenIdea.Coro.WhenAllSteps
import OpenIdea.Coro.Awaiting

/-!
# `WhenAll`

A `WhenAll` coroutine waits for its tasks, then awaits them one after the other and collects what
they return. The wake-up comes from the invariant of the waiters: with no slot open, all tasks are
over, and there is one party left that deals with the gate. What is collected is a matter of the
coroutine itself, as a task that has stored its outcome keeps it: `Collected` says that the results
so far are those of the first tasks of the list. The main result is `joins_all`.
-/

set_option autoImplicit false

namespace OpenIdea.Coro.Waiters

open OpenIdea.Lib.Runs OpenIdea.Lib.Tally

variable {ε α β : Type}

/-! ## What is collected -/

/-- The results are those of the first tasks of the list, in order. -/
def Collected (convert : α → β) (s : World ε α β) (tasks : List Nat) (vResults : List β) : Prop :=
  ∃ os : List α, vResults = os.map convert ∧
    (tasks.take os.length).map (fun t => (s.task t).stOutcome) = os.map fun o => some (.ok o)

/-- What a `WhenAll` has collected, by its phase. -/
def ResultSound (convert : α → β) (s : World ε α β) (j : Nat) : Prop :=
  match (s.all j).phase with
  | .collecting vs => Collected convert s (s.all j).tasks vs
  | .awaiting a vs =>
      Collected convert s (s.all j).tasks vs ∧
        (s.all j).tasks[vs.length]? = some (s.await a).stChild ∧ (s.await a).phase ≠ .absent
  | .finished (.ok vs) =>
      Collected convert s (s.all j).tasks vs ∧ vs.length = (s.all j).tasks.length
  | .finished (.error (.thrown e)) =>
      ∃ vs t, Collected convert s (s.all j).tasks vs ∧
        (s.all j).tasks[vs.length]? = some t ∧ (s.task t).stOutcome = some (.error e)
  | .finished (.error .noResult) => False
  | .finished (.error .movedFrom) => none ∈ (s.all j).vTasks
  | _ => True

/-- The coroutine ended because of a moved-from handle. -/
def AllPhase.threwHandle : AllPhase ε β → Bool
  | .finished (.error .movedFrom) => true
  | _ => false

/-- Past the test of the handles, the tasks are the ones behind them. -/
def All.Handled (y : All ε β) : Prop :=
  y.phase.outside = false → y.phase.threwHandle = false → y.vTasks = y.tasks.map some

/-- What is known of the results of all `WhenAll`s. -/
structure Results (convert : α → β) (s : World ε α β) : Prop where
  sound : ∀ j, ResultSound convert s j
  handled : ∀ j, (s.all j).Handled

theorem results_init (convert : α → β) : Results convert (init ε α β) where
  sound := fun _ => trivial
  handled := by
    intro j h
    cases h

/-! ## What all steps keep

An outcome that a task has stored stays, so what has been collected goes on being the outcomes of
the first tasks. -/

/-- A stored outcome stays, and so does the task of an await. -/
structure Kept (s s' : World ε α β) : Prop where
  outcome : ∀ t o, (s.task t).stOutcome = some o → (s'.task t).stOutcome = some o
  child : ∀ a, (s.await a).phase ≠ .absent →
    (s'.await a).phase ≠ .absent ∧ (s'.await a).stChild = (s.await a).stChild

variable {s s' : World ε α β} {a j t : Nat} {convert : α → β} {tasks : List Nat} {vs : List β}
  {y : All ε β}

theorem Kept.trans {s₁ : World ε α β} (h : Kept s s₁) (h' : Kept s₁ s') : Kept s s' where
  outcome := fun t o ho => h'.outcome t o (h.outcome t o ho)
  child := by
    intro a ha
    obtain ⟨ha₁, hc₁⟩ := h.child a ha
    obtain ⟨ha', hc'⟩ := h'.child a ha₁
    exact ⟨ha', hc'.trans hc₁⟩

variable {x : Task ε α}

theorem kept_setTask (hx : ∀ o, (s.task t).stOutcome = some o → x.stOutcome = some o) :
    Kept s (s.setTask t x) where
  outcome := by
    intro t' o ho
    by_cases he : t' = t
    · subst he
      rw [setTask_task_self]
      exact hx o ho
    · rw [setTask_task_ne s x he]
      exact ho
  child := fun _ h => ⟨h, rfl⟩

theorem kept_setAwait {y : Await ε α}
    (hy : (s.await a).phase ≠ .absent → y.phase ≠ .absent ∧ y.stChild = (s.await a).stChild) :
    Kept s (s.setAwait a y) where
  outcome := fun _ _ h => h
  child := by
    intro a' ha'
    by_cases he : a' = a
    · subst he
      rw [setAwait_await_self]
      exact hy ha'
    · rw [setAwait_await_ne s y he]
      exact ⟨ha', rfl⟩

theorem kept_setAll (s : World ε α β) (j : Nat) (y : All ε β) : Kept s (s.setAll j y) where
  outcome := fun _ _ h => h
  child := fun _ h => ⟨h, rfl⟩

theorem kept_pushNode (s : World ε α β) (t : Nat) (n : Node) : Kept s (pushNode s t n) where
  outcome := by
    intro t' o ho
    by_cases he : t' = t
    · subst he
      rw [pushNode_task_self]
      exact ho
    · rw [pushNode_task_ne s n he]
      exact ho
  child := fun _ h => ⟨h, rfl⟩

theorem Collected.kept (hk : Kept s s') (h : Collected convert s tasks vs) :
    Collected convert s' tasks vs := by
  obtain ⟨os, hvs, hos⟩ := h
  refine ⟨os, hvs, ?_⟩
  rw [← hos]
  apply List.map_congr_left
  intro t ht
  -- each of these outcomes is one of `os`, so it is stored
  have hmem : (s.task t).stOutcome ∈ os.map fun o => some (Except.ok o) := by
    rw [← hos]
    exact List.mem_map_of_mem ht
  obtain ⟨o, _, ho⟩ := List.mem_map.1 hmem
  rw [← ho]
  exact hk.outcome t _ ho.symm

/-- A `WhenAll` that does not move keeps what it has. -/
theorem ResultSound.kept (hk : Kept s s') (hphase : (s'.all j).phase = (s.all j).phase)
    (htasks : (s'.all j).tasks = (s.all j).tasks) (hv : (s'.all j).vTasks = (s.all j).vTasks)
    (h : ResultSound convert s j) : ResultSound convert s' j := by
  rw [ResultSound] at h ⊢
  rw [hphase, htasks, hv]
  cases hp : (s.all j).phase with
  | collecting vs =>
    rw [hp] at h
    exact h.kept hk
  | awaiting a vs =>
    rw [hp] at h
    obtain ⟨hc, hchild, ha⟩ := h
    obtain ⟨ha', hchild'⟩ := hk.child a ha
    refine ⟨hc.kept hk, ?_, ha'⟩
    rw [hchild']
    exact hchild
  | finished r =>
    rw [hp] at h
    cases r with
    | ok vs => exact ⟨h.1.kept hk, h.2⟩
    | error f =>
      cases f with
      | movedFrom => exact h
      | noResult => exact h
      | thrown e =>
        obtain ⟨vs, t, hc, ht, ho⟩ := h
        exact ⟨vs, t, hc.kept hk, ht, hk.outcome t _ ho⟩
  | absent => trivial
  | entering => trivial
  | registering i => trivial
  | counting i => trivial
  | shutting i => trivial
  | suspended => trivial

/-- A step that moves no `WhenAll` in its coroutine. -/
structure Quiet (s s' : World ε α β) : Prop where
  kept : Kept s s'
  phase : ∀ j, (s'.all j).phase = (s.all j).phase
  tasks : ∀ j, (s'.all j).tasks = (s.all j).tasks
  vTasks : ∀ j, (s'.all j).vTasks = (s.all j).vTasks

theorem Kept.quiet (hk : Kept s s') (hall : s'.all = s.all) : Quiet s s' where
  kept := hk
  phase := by intro j; rw [hall]
  tasks := by intro j; rw [hall]
  vTasks := by intro j; rw [hall]

/-- A task changes its position only. -/
theorem quiet_setTask (hx : x.stOutcome = (s.task t).stOutcome) : Quiet s (s.setTask t x) := by
  refine (kept_setTask ?_).quiet rfl
  intro o ho
  rw [hx]
  exact ho

/-- A task changes its position and the state of a `WhenAll`, but not the coroutine. -/
theorem quiet_setTask_setAll (hx : x.stOutcome = (s.task t).stOutcome)
    (hphase : y.phase = (s.all j).phase) (htasks : y.tasks = (s.all j).tasks)
    (hv : y.vTasks = (s.all j).vTasks) :
    Quiet s ((s.setTask t x).setAll j y) where
  kept := by
    refine Kept.trans (kept_setTask ?_) (kept_setAll _ j y)
    intro o ho
    rw [hx]
    exact ho
  phase := by
    intro j'
    by_cases he : j' = j
    · subst he
      rw [setAll_all_self]
      exact hphase
    · rw [setAll_all_ne _ y he]
      rfl
  tasks := by
    intro j'
    by_cases he : j' = j
    · subst he
      rw [setAll_all_self]
      exact htasks
    · rw [setAll_all_ne _ y he]
      rfl
  vTasks := by
    intro j'
    by_cases he : j' = j
    · subst he
      rw [setAll_all_self]
      exact hv
    · rw [setAll_all_ne _ y he]
      rfl

theorem Results.quiet (h : Results convert s) (hq : Quiet s s') : Results convert s' where
  sound := fun j => (h.sound j).kept hq.kept (hq.phase j) (hq.tasks j) (hq.vTasks j)
  handled := by
    intro j hout hthrew
    rw [hq.phase] at hout hthrew
    rw [hq.vTasks, hq.tasks]
    exact h.handled j hout hthrew

/-- A step of one `WhenAll` coroutine. -/
theorem Results.setAll (h : Results convert s) (hj : ResultSound convert (s.setAll j y) j)
    (hy : y.Handled) :
    Results convert (s.setAll j y) where
  sound := by
    intro j'
    by_cases he : j' = j
    · subst he
      exact hj
    · have hall := setAll_all_ne s y he
      exact (h.sound j').kept (kept_setAll s j y) (by rw [hall]) (by rw [hall]) (by rw [hall])
  handled := by
    intro j'
    by_cases he : j' = j
    · subst he
      rw [setAll_all_self]
      exact hy
    · rw [setAll_all_ne s y he]
      exact h.handled j'

/-! ## The steps of tasks and awaits -/

theorem Sound.quiet_task (h : Sound s) {e : Event ε α} (hs : step convert s e = some s')
    (he : e.byTask t = true ∨ ∃ o, e = .taskReturn t o) : Quiet s s' := by
  cases e with
  | taskReturn u o =>
    simp only [step, Waiters.taskReturn] at hs
    split at hs
    case h_2 => cases hs
    case h_1 hrun =>
      obtain rfl := Option.some.inj hs
      refine (kept_setTask ?_).quiet rfl
      -- a running task has stored nothing
      intro o' ho'
      have hsome : (s.task u).stOutcome.isSome = true := by
        rw [ho']
        rfl
      exact absurd hrun ((h.task u).outcome.1 hsome)
  | taskFinal u =>
    simp only [step, Waiters.taskFinal] at hs
    split at hs
    case h_2 => cases hs
    case h_1 =>
      obtain rfl := Option.some.inj hs
      exact quiet_setTask rfl
  | taskVisit u =>
    simp only [step, Waiters.taskVisit] at hs
    split at hs
    case h_1 =>
      obtain rfl := Option.some.inj hs
      exact quiet_setTask rfl
    case h_2 =>
      obtain rfl := Option.some.inj hs
      exact quiet_setTask rfl
    case h_3 => cases hs
  | taskTest u =>
    simp only [step, Waiters.taskTest] at hs
    split at hs
    case h_1 =>
      obtain rfl := Option.some.inj hs
      exact quiet_setTask rfl
    case h_2 =>
      split at hs
      case isTrue =>
        obtain rfl := Option.some.inj hs
        exact quiet_setTask_setAll rfl rfl rfl rfl
      case isFalse =>
        obtain rfl := Option.some.inj hs
        exact quiet_setTask_setAll rfl rfl rfl rfl
    case h_3 => cases hs
  | taskGate u =>
    simp only [step, Waiters.taskGate] at hs
    split at hs
    case h_2 => cases hs
    case h_1 =>
      split at hs
      case isTrue =>
        obtain rfl := Option.some.inj hs
        exact quiet_setTask_setAll rfl rfl rfl rfl
      case isFalse =>
        obtain rfl := Option.some.inj hs
        exact quiet_setTask_setAll rfl rfl rfl rfl
  | taskWake u =>
    simp only [step, Waiters.taskWake] at hs
    split at hs
    case h_1 =>
      obtain rfl := Option.some.inj hs
      refine (Kept.trans (quiet_setTask ?_).kept (kept_setAwait ?_)).quiet rfl
      · rfl
      · intro ha
        exact ⟨ha, rfl⟩
    case h_2 =>
      obtain rfl := Option.some.inj hs
      exact quiet_setTask_setAll rfl rfl rfl rfl
    case h_3 => cases hs
  | awaitCreate a u => simp [Event.byTask] at he
  | awaitReady a => simp [Event.byTask] at he
  | awaitSuspend a => simp [Event.byTask] at he
  | awaitResume a => simp [Event.byTask] at he
  | awaitTake a => simp [Event.byTask] at he
  | allCreate j v => simp [Event.byTask] at he
  | allEnter j => simp [Event.byTask] at he
  | allRegister j => simp [Event.byTask] at he
  | allCount j => simp [Event.byTask] at he
  | allShut j => simp [Event.byTask] at he
  | allResume j => simp [Event.byTask] at he
  | allCollect j a => simp [Event.byTask] at he
  | allTake j => simp [Event.byTask] at he
  | scribble n garbage => simp [Event.byTask] at he

theorem quiet_awaitCreate (hs : awaitCreate s a t = some s') : Quiet s s' := by
  rw [awaitCreate] at hs
  split at hs
  case h_2 => cases hs
  case h_1 hphase =>
    obtain rfl := Option.some.inj hs
    refine (kept_setAwait ?_).quiet rfl
    intro ha
    exact absurd hphase ha

/-- A step of the coroutine of an await that exists. -/
theorem quiet_rephase {y : Await ε α} (hy : y.phase ≠ .absent)
    (hc : y.stChild = (s.await a).stChild) : Quiet s (s.setAwait a y) := by
  refine (kept_setAwait ?_).quiet rfl
  intro _
  exact ⟨hy, hc⟩

theorem quiet_awaitReady (hs : awaitReady s a = some s') : Quiet s s' := by
  rw [awaitReady] at hs
  split at hs
  case h_2 => cases hs
  case h_1 =>
    split at hs
    case isTrue =>
      obtain rfl := Option.some.inj hs
      exact quiet_rephase (fun he => by cases he) rfl
    case isFalse =>
      obtain rfl := Option.some.inj hs
      exact quiet_rephase (fun he => by cases he) rfl

theorem quiet_awaitSuspend (hs : awaitSuspend s a = some s') : Quiet s s' := by
  rw [awaitSuspend] at hs
  split at hs
  case h_2 => cases hs
  case h_1 =>
    split at hs
    case isTrue =>
      obtain rfl := Option.some.inj hs
      exact quiet_rephase (fun he => by cases he) rfl
    case isFalse =>
      obtain rfl := Option.some.inj hs
      refine (Kept.trans (kept_pushNode s _ _) (kept_setAwait ?_)).quiet rfl
      intro _
      exact ⟨(fun he => by cases he), rfl⟩

theorem quiet_awaitResume (hs : awaitResume s a = some s') : Quiet s s' := by
  rw [awaitResume] at hs
  split at hs
  case h_2 => cases hs
  case h_1 =>
    obtain ⟨_, rfl⟩ := of_guard hs
    exact quiet_rephase (fun he => by cases he) rfl

theorem quiet_awaitTake (hs : awaitTake s a = some s') : Quiet s s' := by
  rw [awaitTake] at hs
  split at hs
  case h_2 => cases hs
  case h_1 =>
    obtain rfl := Option.some.inj hs
    exact quiet_rephase (fun he => by cases he) rfl

/-! ## The steps of the coroutine -/

/-- A phase in which nothing is collected. -/
theorem ResultSound.of_outside (h : (s.all j).phase.past = false) : ResultSound convert s j := by
  rw [ResultSound]
  cases hp : (s.all j).phase with
  | collecting vs | awaiting a vs | finished r =>
    rw [hp] at h
    cases h
  | absent => trivial
  | entering => trivial
  | registering i => trivial
  | counting i => trivial
  | shutting i => trivial
  | suspended => trivial

/-- A coroutine that moves within the wait. -/
theorem Results.setWait (h : Results convert s) (hp : y.phase.past = false) (hy : y.Handled) :
    Results convert (s.setAll j y) := by
  refine h.setAll (ResultSound.of_outside ?_) hy
  rw [setAll_all_self]
  exact hp

/-- The handles stay the ones of the tasks while the coroutine moves on. -/
theorem All.Handled.rephase {y' : All ε β} (h : y.Handled) (hout : y.phase.outside = false)
    (hthrew : y.phase.threwHandle = false) (ht : y'.tasks = y.tasks) (hv : y'.vTasks = y.vTasks) :
    y'.Handled := by
  intro _ _
  rw [ht, hv]
  exact h hout hthrew

theorem collected_nil (convert : α → β) (s : World ε α β) (tasks : List Nat) :
    Collected convert s tasks [] := ⟨[], rfl, by simp⟩

theorem Results.allEnter (h : Results convert s) (hI : Sound s) (hs : allEnter s j = some s') :
    Results convert s' := by
  rw [Waiters.allEnter] at hs
  split at hs
  case h_2 => cases hs
  case h_1 hphase =>
    have htasks : (s.all j).tasks = [] := (hI.all j).outside (by rw [hphase]; rfl)
    split at hs
    case isTrue hnil =>
      obtain rfl := Option.some.inj hs
      apply h.setAll
      · rw [ResultSound, setAll_all_self]
        exact collected_nil convert _ _
      · intro _ _
        show (s.all j).vTasks = (s.all j).tasks.map some
        rw [hnil, htasks]
        rfl
    case isFalse =>
      split at hs
      case h_1 hnone =>
        obtain rfl := Option.some.inj hs
        apply h.setAll
        · rw [ResultSound, setAll_all_self]
          exact mapM_id_eq_none.1 hnone
        · intro _ hthrew
          cases hthrew
      case h_2 ts hts =>
        obtain rfl := Option.some.inj hs
        apply h.setWait
        · rfl
        · intro _ _
          exact mapM_id_eq_some.1 hts

theorem Results.allRegister (h : Results convert s) (hs : allRegister s j = some s') :
    Results convert s' := by
  rw [Waiters.allRegister] at hs
  split at hs
  case h_2 => cases hs
  case h_1 i hphase =>
    have hout : (s.all j).phase.outside = false := by rw [hphase]; rfl
    have hthrew : (s.all j).phase.threwHandle = false := by rw [hphase]; rfl
    split at hs
    case h_1 t ht =>
      split at hs
      case isTrue =>
        obtain rfl := Option.some.inj hs
        exact h.setWait rfl ((h.handled j).rephase hout hthrew rfl rfl)
      case isFalse =>
        obtain rfl := Option.some.inj hs
        have hpush : Results convert (pushNode s t (.slot j i)) :=
          h.quiet ((kept_pushNode s t _).quiet rfl)
        exact hpush.setWait rfl ((h.handled j).rephase hout hthrew rfl rfl)
    case h_2 =>
      split at hs
      case isTrue =>
        obtain rfl := Option.some.inj hs
        refine h.setAll ?_ ((h.handled j).rephase hout hthrew rfl rfl)
        rw [ResultSound, setAll_all_self]
        exact collected_nil convert _ _
      case isFalse =>
        obtain rfl := Option.some.inj hs
        exact h.setWait rfl ((h.handled j).rephase hout hthrew rfl rfl)

theorem Results.allCount (h : Results convert s) (hs : allCount s j = some s') :
    Results convert s' := by
  rw [Waiters.allCount] at hs
  split at hs
  case h_2 => cases hs
  case h_1 i hphase =>
    have hout : (s.all j).phase.outside = false := by rw [hphase]; rfl
    have hthrew : (s.all j).phase.threwHandle = false := by rw [hphase]; rfl
    dsimp only at hs
    split at hs
    case isTrue =>
      obtain rfl := Option.some.inj hs
      exact h.setWait rfl ((h.handled j).rephase hout hthrew rfl rfl)
    case isFalse =>
      obtain rfl := Option.some.inj hs
      exact h.setWait rfl ((h.handled j).rephase hout hthrew rfl rfl)

theorem Results.allShut (h : Results convert s) (hs : allShut s j = some s') :
    Results convert s' := by
  rw [Waiters.allShut] at hs
  split at hs
  case h_2 => cases hs
  case h_1 i hphase =>
    obtain rfl := Option.some.inj hs
    refine h.setWait rfl ((h.handled j).rephase ?_ ?_ rfl rfl)
    · rw [hphase]
      rfl
    · rw [hphase]
      rfl

theorem Results.allResume (h : Results convert s) (hs : allResume s j = some s') :
    Results convert s' := by
  rw [Waiters.allResume] at hs
  split at hs
  case h_2 => cases hs
  case h_1 hphase =>
    obtain ⟨_, rfl⟩ := of_guard hs
    refine h.setAll ?_ ((h.handled j).rephase ?_ ?_ rfl rfl)
    · rw [ResultSound, setAll_all_self]
      exact collected_nil convert _ _
    · rw [hphase]
      rfl
    · rw [hphase]
      rfl

/-- The coroutine awaits the next task, or it has the results of all. -/
theorem Results.allCollect (h : Results convert s) (hs : allCollect s j a = some s') :
    Results convert s' := by
  rw [Waiters.allCollect] at hs
  split at hs
  case h_2 => cases hs
  case h_1 vs hphase =>
    have hout : (s.all j).phase.outside = false := by rw [hphase]; rfl
    have hthrew : (s.all j).phase.threwHandle = false := by rw [hphase]; rfl
    have hj := h.sound j
    rw [ResultSound, hphase] at hj
    split at hs
    case h_1 t ht =>
      obtain ⟨s₁, hs₁, rfl⟩ := Option.map_eq_some_iff.1 hs
      have hquiet := quiet_awaitCreate hs₁
      have hnew : (s₁.await a).stChild = t ∧ (s₁.await a).phase ≠ .absent := by
        rw [awaitCreate] at hs₁
        split at hs₁
        case h_2 => cases hs₁
        case h_1 =>
          obtain rfl := Option.some.inj hs₁
          rw [setAwait_await_self]
          exact ⟨rfl, fun he => by cases he⟩
      refine (h.quiet hquiet).setAll ?_ ((h.handled j).rephase hout hthrew rfl rfl)
      rw [ResultSound, setAll_all_self]
      refine ⟨hj.kept (hquiet.kept.trans (kept_setAll _ _ _)), ?_, hnew.2⟩
      show (s.all j).tasks[vs.length]? = some (s₁.await a).stChild
      rw [hnew.1]
      exact ht
    case h_2 hend =>
      obtain rfl := Option.some.inj hs
      refine h.setAll ?_ ((h.handled j).rephase hout hthrew rfl rfl)
      rw [ResultSound, setAll_all_self]
      refine ⟨hj.kept (kept_setAll _ _ _), ?_⟩
      have hge : (s.all j).tasks.length ≤ vs.length := List.getElem?_eq_none_iff.1 hend
      have hle : vs.length ≤ (s.all j).tasks.length := by
        obtain ⟨os, hvs, hos⟩ := hj
        have hlen := congrArg List.length hos
        rw [List.length_map, List.length_map, List.length_take] at hlen
        rw [hvs, List.length_map]
        omega
      show vs.length = (s.all j).tasks.length
      omega

/-- One more result, of the next task of the list. -/
theorem Collected.snoc {v : α} (h : Collected convert s tasks vs) (ht : tasks[vs.length]? = some t)
    (hv : (s.task t).stOutcome = some (.ok v)) : Collected convert s tasks (vs ++ [convert v]) := by
  obtain ⟨os, rfl, hos⟩ := h
  rw [List.length_map] at ht
  refine ⟨os ++ [v], by rw [List.map_append]; rfl, ?_⟩
  rw [List.length_append, List.length_singleton, List.take_add_one, ht, List.map_append, hos,
    List.map_append]
  simp [hv]

/-- The coroutine takes what `await_resume` gave. -/
theorem Results.allTake (h : Results convert s) (hI : Sound s) (hs : allTake convert s j = some s')
    : Results convert s' := by
  rw [Waiters.allTake] at hs
  split at hs
  case h_2 => cases hs
  case h_1 a vs hphase =>
    have hout : (s.all j).phase.outside = false := by rw [hphase]; rfl
    have hthrew : (s.all j).phase.threwHandle = false := by rw [hphase]; rfl
    have hj := h.sound j
    rw [ResultSound, hphase] at hj
    obtain ⟨hcol, hchild, _⟩ := hj
    have hdone := (hI.await a).done
    split at hs
    case h_1 v ha =>
      obtain rfl := Option.some.inj hs
      refine h.setAll ?_ ((h.handled j).rephase hout hthrew rfl rfl)
      rw [ResultSound, setAll_all_self]
      exact (hcol.kept (kept_setAll _ _ _)).snoc hchild (hdone _ ha).symm
    case h_2 e ha =>
      obtain rfl := Option.some.inj hs
      refine h.setAll ?_ ((h.handled j).rephase hout hthrew rfl rfl)
      rw [ResultSound, setAll_all_self]
      exact ⟨vs, _, hcol.kept (kept_setAll _ _ _), hchild, (hdone _ ha).symm⟩
    case h_3 ha =>
      -- the task is over, so it has stored something
      have hsome := ((hI.awaitsOnce convert).sameOutcome a none ha).2
      cases hsome
    case h_4 => cases hs

theorem step_results {e : Event ε α} (h : Sound s ∧ Results convert s)
    (hs : step convert s e = some s') : Sound s' ∧ Results convert s' := by
  obtain ⟨hI, hR⟩ := h
  refine ⟨step_sound hI hs, ?_⟩
  cases e with
  | taskReturn t o => exact hR.quiet (hI.quiet_task hs (Or.inr ⟨o, rfl⟩))
  | taskFinal t => exact hR.quiet (hI.quiet_task hs (Or.inl (beq_self_eq_true t)))
  | taskVisit t => exact hR.quiet (hI.quiet_task hs (Or.inl (beq_self_eq_true t)))
  | taskTest t => exact hR.quiet (hI.quiet_task hs (Or.inl (beq_self_eq_true t)))
  | taskGate t => exact hR.quiet (hI.quiet_task hs (Or.inl (beq_self_eq_true t)))
  | taskWake t => exact hR.quiet (hI.quiet_task hs (Or.inl (beq_self_eq_true t)))
  | awaitCreate a t => exact hR.quiet (quiet_awaitCreate hs)
  | awaitReady a => exact hR.quiet (quiet_awaitReady hs)
  | awaitSuspend a => exact hR.quiet (quiet_awaitSuspend hs)
  | awaitResume a => exact hR.quiet (quiet_awaitResume hs)
  | awaitTake a => exact hR.quiet (quiet_awaitTake hs)
  | allCreate j v =>
    simp only [step, allCreate] at hs
    split at hs
    case h_2 => cases hs
    case h_1 =>
      obtain rfl := Option.some.inj hs
      refine hR.setWait rfl ?_
      intro hout
      cases hout
  | allEnter j => exact hR.allEnter hI hs
  | allRegister j => exact hR.allRegister hs
  | allCount j => exact hR.allCount hs
  | allShut j => exact hR.allShut hs
  | allResume j => exact hR.allResume hs
  | allCollect j a => exact hR.allCollect hs
  | allTake j => exact hR.allTake hI hs
  | scribble n garbage =>
    rw [step] at hs
    split at hs
    case isTrue =>
      obtain rfl := Option.some.inj hs
      exact hR.quiet (Kept.quiet ⟨fun _ _ ho => ho, fun _ ha => ⟨ha, rfl⟩⟩ rfl)
    case isFalse => cases hs

theorem run_results {es : List (Event ε α)} (h : runFrom (step convert) (init ε α β) es = some s) :
    Sound s ∧ Results convert s :=
  runFrom_invariant (fun _ _ _ => step_results) ⟨sound_init, results_init convert⟩ h

/-! ## What a `WhenAll` coroutine can rely on -/

/-- **What holds of a `WhenAll` in every state.** -/
structure JoinsAll (convert : α → β) (s : World ε α β) (j : Nat) : Prop where
  /-- `Schedule` is called at most once, and only if `await_suspend` returned true. -/
  atMostOnce : (s.all j).calls ≤ if (s.all j).returned = some true then 1 else 0
  /-- When the tasks' `final_suspend`s are over, it was called if `await_suspend` returned true. -/
  exactlyOnce : (∀ t ∈ (s.all j).tasks, (s.task t).run = .finished) →
    (s.all j).calls = if (s.all j).returned = some true then 1 else 0
  /-- The coroutine goes on when all tasks of the list are over. -/
  continues : (s.all j).phase.past = true → (s.all j).phase.threwHandle = false →
    (s.all j).vTasks = (s.all j).tasks.map some ∧
      ∀ t ∈ (s.all j).tasks, (s.task t).bReady = true
  /-- The results are those of all tasks, in the order of the list. -/
  results : ∀ vs, (s.all j).phase = .finished (.ok vs) → ∃ os : List α, vs = os.map convert ∧
    (s.all j).tasks.map (fun t => (s.task t).stOutcome) = os.map fun o => some (.ok o)
  /-- The exception is that of the failed task with the smallest index. -/
  firstError : ∀ e, (s.all j).phase = .finished (.error (.thrown e)) →
    ∃ (i t : Nat), (s.all j).tasks[i]? = some t ∧ (s.task t).stOutcome = some (.error e) ∧
      ∀ k t', k < i → (s.all j).tasks[k]? = some t' → ∃ o, (s.task t').stOutcome = some (.ok o)
  /-- The coroutine ends in no other way, but for a moved-from handle. -/
  otherError : (s.all j).phase ≠ .finished (.error .noResult) ∧
    ((s.all j).phase = .finished (.error .movedFrom) → none ∈ (s.all j).vTasks)
  /-- No task reads a slot, or reaches the state through it, when the coroutine was let go. -/
  noTouch : ∀ e i, reads s e = some (.slot j i) →
    (s.all j).calls = 0 ∧ (s.all j).returned ≠ some false
  /-- The coroutine was not let go while `await_suspend` is at work. -/
  registering : (s.all j).phase.early = true → (s.all j).calls = 0 ∧ (s.all j).returned = none

theorem CloserSound.calls (h : CloserSound s j) :
    (s.all j).calls ≤ if (s.all j).returned = some true then 1 else 0 := by
  rw [CloserSound] at h
  cases hc : (s.all j).closer with
  | nobody | completer t | registrar =>
    rw [hc] at h
    rw [h.2.1]
    exact Nat.zero_le _
  | shut =>
    rw [hc] at h
    rw [h.1]
    exact Nat.zero_le _
  | waker t =>
    rw [hc] at h
    rw [h.2.1]
    exact Nat.zero_le _
  | woken =>
    rw [hc] at h
    rw [h.1, h.2.1, if_pos rfl]

/-- A coroutine that was let go has no open slot. -/
theorem CloserSound.released (h : CloserSound s j)
    (hr : (s.all j).returned = some false ∨ 0 < (s.all j).calls) : (s.all j).iLeft = 0 := by
  by_contra hne
  obtain ⟨_, hret, hcalls, _⟩ := h.nobody (Nat.pos_of_ne_zero hne)
  rcases hr with hr | hr
  · exact hret hr
  · omega

/-- With no open slot, all tasks are over. -/
theorem AllSound.all_ready (h : AllSound s j) (hleft : (s.all j).iLeft = 0) :
    ∀ t ∈ (s.all j).tasks, (s.task t).bReady = true := by
  intro t ht
  obtain ⟨i, hi⟩ := List.mem_iff_getElem?.1 ht
  have hlt : i < (s.all j).slots.length := by
    rw [h.size]
    exact (List.getElem?_eq_some_iff.1 hi).1
  have hslot : (s.all j).slots[i]? = some (s.all j).slots[i] := List.getElem?_eq_getElem hlt
  have hclosed : (s.all j).slots[i] = .closed := by
    by_contra hne
    have := h.left_pos hslot hne
    omega
  rw [hclosed] at hslot
  exact h.ready i t hi (Or.inr hslot)

/-- A coroutine that suspended is woken by the time its tasks are through. -/
theorem Sound.all_woken (h : Sound s) (hret : (s.all j).returned = some true)
    (hdone : ∀ t ∈ (s.all j).tasks, (s.task t).run = .finished) : (s.all j).calls = 1 := by
  have hj := h.all j
  have hc := hj.closer
  have hne : (s.all j).tasks ≠ [] := by
    intro he
    have hnone := (hj.empty he).2
    rw [hret] at hnone
    cases hnone
  have hlate : (s.all j).phase.early = false := by
    by_contra hearly
    have hnone := hj.early (by simpa using hearly)
    rw [hret] at hnone
    cases hnone
  rw [CloserSound] at hc
  cases hcl : (s.all j).closer with
  | nobody =>
    rw [hcl] at hc
    exfalso
    have hpos : 0 < (s.all j).iLeft := by
      rcases hc.2.2.1 with hpos | he
      · exact hpos
      · exact absurd he hne
    -- some slot is open, and it can only be in the list of its task
    have hopen : ∃ (i : Nat) (x : Slot), (s.all j).slots[i]? = some x ∧ x ≠ .closed := by
      by_contra hnone
      rw [hj.left] at hpos
      have hzero : tally Slot.left (s.all j).slots = 0 := by
        apply tally_eq_zero
        intro i x hx
        by_cases hx' : x = .closed
        · rw [hx']
          rfl
        · exact absurd ⟨i, x, hx, hx'⟩ hnone
      omega
    obtain ⟨i, x, hx, hxne⟩ := hopen
    have hlt : i < (s.all j).slots.length := (List.getElem?_eq_some_iff.1 hx).1
    have hti : i < (s.all j).tasks.length := by
      rw [← hj.size]
      exact hlt
    have ht : (s.all j).tasks[i]? = some (s.all j).tasks[i] := List.getElem?_eq_getElem hti
    cases x with
    | closed => exact hxne rfl
    | fresh =>
      have hfresh := ((hj.fresh i).1 hx).1
      have hreach : (s.all j).phase.reached (s.all j).slots.length = (s.all j).slots.length := by
        cases hp : (s.all j).phase with
        | registering k | counting k | shutting k =>
          rw [hp] at hlate
          cases hlate
        | absent => rfl
        | entering => rfl
        | suspended => rfl
        | collecting vs => rfl
        | awaiting a vs => rfl
        | finished r => rfl
      omega
    | seen =>
      have hp := (hj.seen i).1 hx
      rw [hp] at hlate
      cases hlate
    | pushed =>
      have hmem := ((h.task _).slots j i).2 ⟨ht, hx⟩
      rw [(h.task _).held_finished (hdone _ (List.getElem_mem hti))] at hmem
      cases hmem
  | completer t =>
    exfalso
    obtain ⟨i, next, hrun⟩ := hj.closer.counted hcl
    rw [hdone t (hj.member t (Or.inl hcl))] at hrun
    cases hrun
  | registrar =>
    rw [hcl] at hc
    have hnone := hc.1
    rw [hret] at hnone
    cases hnone
  | shut =>
    rw [hcl] at hc
    rw [hret] at hc
    rcases hc.2.2 with ⟨he, _⟩ | he
    · cases he
    · cases he
  | waker t =>
    exfalso
    obtain ⟨i, next, hrun⟩ := hj.closer.waking hcl
    rw [hdone t (hj.member t (Or.inr hcl))] at hrun
    cases hrun
  | woken =>
    rw [hcl] at hc
    exact hc.2.1

theorem Collected.all (h : Collected convert s tasks vs) (hlen : vs.length = tasks.length) :
    ∃ os : List α, vs = os.map convert ∧
      tasks.map (fun t => (s.task t).stOutcome) = os.map fun o => some (.ok o) := by
  obtain ⟨os, rfl, hos⟩ := h
  rw [List.length_map] at hlen
  rw [hlen, List.take_length] at hos
  exact ⟨os, rfl, hos⟩

theorem Collected.before (h : Collected convert s tasks vs) {k : Nat} (hk : k < vs.length)
    (ht : tasks[k]? = some t) : ∃ o, (s.task t).stOutcome = some (.ok o) := by
  obtain ⟨os, rfl, hos⟩ := h
  rw [List.length_map] at hk
  have hmem : t ∈ tasks.take os.length := by
    refine @List.mem_of_getElem? _ _ k _ ?_
    rw [List.getElem?_take_of_lt hk]
    exact ht
  have hout : (s.task t).stOutcome ∈ os.map fun o => some (Except.ok o) := by
    rw [← hos]
    exact List.mem_map_of_mem hmem
  obtain ⟨o, _, ho⟩ := List.mem_map.1 hout
  exact ⟨o, ho.symm⟩

theorem Sound.joinsAll (h : Sound s) (hR : Results convert s) (j : Nat) : JoinsAll convert s j where
  atMostOnce := (h.all j).closer.calls
  exactlyOnce := by
    intro hdone
    have hle := (h.all j).closer.calls
    by_cases hret : (s.all j).returned = some true
    · rw [if_pos hret]
      exact h.all_woken hret hdone
    · rw [if_neg hret] at hle ⊢
      omega
  continues := by
    intro hpast hthrew
    have hj := h.all j
    have hout : (s.all j).phase.outside = false := by
      cases hp : (s.all j).phase with
      | absent | entering =>
        rw [hp] at hpast
        cases hpast
      | registering i => rfl
      | counting i => rfl
      | shutting i => rfl
      | suspended => rfl
      | collecting vs => rfl
      | awaiting a vs => rfl
      | finished r => rfl
    refine ⟨hR.handled j hout hthrew, ?_⟩
    rcases hj.past hpast with he | hr
    · rw [he]
      intro t ht
      cases ht
    · exact hj.all_ready (hj.closer.released hr)
  results := by
    intro vs hphase
    have hj := hR.sound j
    rw [ResultSound, hphase] at hj
    exact hj.1.all hj.2
  firstError := by
    intro e hphase
    have hj := hR.sound j
    rw [ResultSound, hphase] at hj
    obtain ⟨vs, t, hcol, ht, ho⟩ := hj
    exact ⟨vs.length, t, ht, ho, fun k t' hk ht' => hcol.before hk ht'⟩
  otherError := by
    have hj := hR.sound j
    rw [ResultSound] at hj
    constructor
    · intro hphase
      rw [hphase] at hj
      exact hj
    · intro hphase
      rw [hphase] at hj
      exact hj
  noTouch := by
    intro e i hn
    have hfalse := h.reads hn
    simp only [World.released, Bool.or_eq_false_iff, decide_eq_false_iff_not, beq_eq_false_iff_ne,
      Nat.not_lt, Nat.le_zero] at hfalse
    exact hfalse
  registering := by
    intro hearly
    have hnone := (h.all j).early hearly
    have hle := (h.all j).closer.calls
    rw [hnone] at hle
    exact ⟨by simpa using hle, hnone⟩

/-- **`WhenAll` wakes its coroutine once, after all its tasks.** In every state of every run, for
every list of tasks, with repetitions and finished tasks among them, and whatever the order of the
tasks' steps and of the registration: the coroutine is scheduled once if `await_suspend` returned
true and never otherwise, goes on when all tasks are over, has their results in the order of the
list or the exception of the first that failed, and its state is not touched once it was let go. -/
theorem joins_all {convert : α → β} {es : List (Event ε α)} {s : World ε α β}
    (h : runFrom (step convert) (init ε α β) es = some s) (j : Nat) : JoinsAll convert s j :=
  (run_results h).1.joinsAll (run_results h).2 j

/-- A task that is in the list twice, one that is over before the registration comes to it, and one
that brings the count to zero after the coroutine has suspended. -/
def repeatedAndFinished : List (Event Nat Nat) :=
  [.allCreate 0 [some 0, some 1, some 0, some 2], .allEnter 0, .allRegister 0, .taskReturn 1 (.ok 11),
    .taskFinal 1, .allRegister 0, .allCount 0, .allRegister 0, .taskReturn 0 (.ok 10), .taskFinal 0,
    .taskVisit 0, .taskTest 0, .allRegister 0, .allRegister 0, .taskReturn 2 (.ok 12), .taskFinal 2,
    .taskVisit 2, .taskVisit 0, .taskTest 0, .taskTest 2, .taskGate 2, .taskVisit 0, .taskWake 2,
    .allResume 0, .scribble (.slot 0 3) none, .allCollect 0 0, .awaitReady 0, .awaitTake 0,
    .allTake 0, .allCollect 0 1, .awaitReady 1, .awaitTake 1, .allTake 0, .allCollect 0 2,
    .awaitReady 2, .awaitTake 2, .allTake 0, .allCollect 0 3, .awaitReady 3, .awaitTake 3,
    .allTake 0, .allCollect 0 4]

theorem joins_all_repeated :
    ∃ s, runFrom (step id) (init Nat Nat Nat) repeatedAndFinished = some s ∧
      (s.all 0).calls = 1 ∧ (s.all 0).returned = some true ∧ JoinsAll id s 0 := by
  have hend : (runFrom (step id) (init Nat Nat Nat) repeatedAndFinished).map
      (fun s => decide ((s.all 0).calls = 1 ∧ (s.all 0).returned = some true)) = some true := by
    decide +kernel
  obtain ⟨s, hs, hrun⟩ := Option.map_eq_some_iff.1 hend
  obtain ⟨hcalls, hret⟩ := of_decide_eq_true hrun
  exact ⟨s, hs, hcalls, hret, joins_all hs 0⟩

end OpenIdea.Coro.Waiters

import OpenIdea.Lib.Places
import OpenIdea.Lib.Runs
import OpenIdea.Lib.Tally
import OpenIdea.Coro.TaskFrames

/-!
# The references of a frame

The count of a frame is the number of its references: handles, awaiters, and its own execution until
the thread has given that back. A frame without a reference is destroyed, and one with a reference
is not. As the execution's reference is given back only when the thread is outside of the frame, a
frame is destroyed after its `resume` has returned.

`Effect` says once what a step does to the world. The invariant has three parts: what a frame's
record says of itself (`FrameOk`), how the stacks and lists of the threads agree with the records
(`Threads`), and the account of the references (`RefOk`).
-/

set_option autoImplicit false

namespace OpenIdea.Coro.Frames

open OpenIdea.Lib.Places OpenIdea.Lib.Runs OpenIdea.Lib.Tally

variable {ε : Type}

/-! ## What a step does -/

/-- How the frame on top of a stack goes on with its end. -/
inductive Advance : Phase → (Frame ε → Frame ε) → Prop where
  | bodyReturn : Advance .running fun x => { x with phase := .ended }
  | bodyThrow (e : ε) : Advance .running fun x => { x with phase := .stored, stError := some e }
  | loadDetached :
      Advance .stored fun x => { x with phase := if x.bDetached then .seen else .ended }
  | reportSelf : Advance .seen fun x => { reportError x with phase := .ended }
  | setReady : Advance .ended fun x => { x with phase := .ready, bReady := true }

/-- What a step makes of the world, and what it has found there. -/
inductive Effect (s : World ε) : World ε → Prop where
  | stay : Effect s s
  | createQueued (f : Nat) (d : Bool) : (s.frame f).phase = .absent →
      Effect s { s.setFrame f (newFrame .suspended d none) with
        handles := s.handles ++ [some (some f)] }
  | createInline (θ f : Nat) (d : Bool) : (s.frame f).phase = .absent → s.canRun θ = true →
      Effect s { (s.setFrame f (newFrame .running d (some θ))).setThread θ
          { s.thread θ with stack := f :: (s.thread θ).stack } with
        handles := s.handles ++ [some (some f)] }
  | copyHandle (h : Nat) (v : Option Nat) : s.handles[h]? = some (some v) →
      Effect s { acquire s v with handles := s.handles ++ [some v] }
  | moveHandle (h : Nat) (v : Option Nat) : s.handles[h]? = some (some v) →
      Effect s { s with handles := s.handles.set h (some none) ++ [some v] }
  | swapHandles (h k : Nat) (v w : Option Nat) : s.handles[h]? = some (some v) →
      s.handles[k]? = some (some w) →
      Effect s { s with handles := (s.handles.set h (some w)).set k (some v) }
  | dropHandle (h : Nat) (v : Option Nat) : s.handles[h]? = some (some v) →
      Effect s (release { s with handles := s.handles.set h none } v)
  | createAwaiter (h f : Nat) : s.handles[h]? = some (some (some f)) →
      Effect s { acquire s (some f) with awaiters := s.awaiters ++ [some f] }
  | dropAwaiter (w f : Nat) : s.awaiters[w]? = some (some f) →
      Effect s (release { s with awaiters := s.awaiters.set w none } (some f))
  | awaitResume (w f : Nat) : s.awaiters[w]? = some (some f) → (s.frame f).stError.isSome = true →
      Effect s (s.setFrame f { s.frame f with bObserved := true, rethrown := true })
  | startExchange (h f : Nat) : s.handles[h]? = some (some (some f)) →
      Effect s (s.setFrame f
        { s.frame f with stMutex := some (h, (s.frame f).bDetached), bDetached := true })
  | startTest (f : Nat) (m : Nat × Bool) : (s.frame f).stMutex = some m →
      Effect s (s.setFrame f { s.frame f with stMutex := none })
  | startReport (f : Nat) (m : Nat × Bool) : (s.frame f).stMutex = some m →
      (s.frame f).stError.isSome = true →
      Effect s (s.setFrame f { reportError (s.frame f) with stMutex := none })
  | resume (θ f : Nat) : (s.frame f).phase = .suspended → s.canRun θ = true →
      Effect s ((s.setFrame f { s.frame f with phase := .running, owner := some θ }).setThread θ
        { s.thread θ with stack := f :: (s.thread θ).stack })
  | advance (θ f : Nat) (rest : List Nat) (p : Phase) (g : Frame ε → Frame ε) : Advance p g →
      (s.thread θ).stack = f :: rest → (s.frame f).phase = p →
      Effect s (s.setFrame f (g (s.frame f)))
  /-- The frame on top suspends, or is over and control goes back. -/
  | leave (θ f : Nat) (rest : List Nat) (p q : Phase) :
      p = .running ∧ q = .suspended ∨ p = .final ∧ q = .returned →
      (s.thread θ).stack = f :: rest → (s.frame f).phase = p →
      Effect s ((s.setFrame f { s.frame f with phase := q, owner := none }).setThread θ
        { s.thread θ with stack := (s.thread θ).stack.tail })
  | detachFinished (θ f : Nat) (rest : List Nat) : (s.thread θ).stack = f :: rest →
      (s.frame f).phase = .ready →
      Effect s ((s.setFrame f { s.frame f with phase := .final, listed := some θ }).setThread θ
        { s.thread θ with detachedDone := f :: (s.thread θ).detachedDone })
  | drainOne (θ f : Nat) (rest : List Nat) : s.canRun θ = true →
      (s.thread θ).detachedDone = f :: rest →
      Effect s (release ((s.setThread θ { s.thread θ with detachedDone := rest }).setFrame f
        { s.frame f with drained := true, listed := none }) (some f))

variable {f k θ : Nat} {p : Phase} {s s' : World ε} {x : Frame ε} {v : Option Nat}

theorem top_eq_some (h : s.top θ p = some f) :
    ∃ rest, (s.thread θ).stack = f :: rest ∧ (s.frame f).phase = p := by
  rw [World.top] at h
  split at h
  case h_1 g rest hstack =>
    obtain ⟨hp, rfl⟩ := of_guard h
    exact ⟨rest, hstack, hp⟩
  case h_2 => cases h

variable {g : Frame ε → Frame ε} {q : Phase} {e : Event ε} {d : Bool}

theorem effect_moveTop (hg : Advance p g) (hs : s.moveTop θ p g = some s') : Effect s s' := by
  obtain ⟨f, htop, rfl⟩ := Option.map_eq_some_iff.1 hs
  obtain ⟨rest, hstack, hphase⟩ := top_eq_some htop
  exact .advance θ f rest p g hg hstack hphase

theorem effect_leave (hpq : p = .running ∧ q = .suspended ∨ p = .final ∧ q = .returned)
    (hs : (s.top θ p).map (fun f =>
      (s.setFrame f { s.frame f with phase := q, owner := none }).setThread θ
        { s.thread θ with stack := (s.thread θ).stack.tail }) = some s') : Effect s s' := by
  obtain ⟨f, htop, rfl⟩ := Option.map_eq_some_iff.1 hs
  obtain ⟨rest, hstack, hphase⟩ := top_eq_some htop
  exact .leave θ f rest p q hpq hstack hphase

/-- **Every step has one of the effects.** -/
theorem step_effect (hs : step s e = some s') : Effect s s' := by
  cases e with
  | createQueued f d =>
    obtain ⟨habsent, rfl⟩ := of_guard hs
    exact .createQueued f d habsent
  | createInline θ f d =>
    obtain ⟨⟨habsent, hrun, _⟩, rfl⟩ := of_guard hs
    exact .createInline θ f d habsent hrun
  | copyHandle h =>
    simp only [step] at hs
    split at hs
    case h_2 => cases hs
    case h_1 v hh =>
      obtain rfl := Option.some.inj hs
      exact .copyHandle h v hh
  | moveHandle h =>
    simp only [step] at hs
    split at hs
    case h_2 => cases hs
    case h_1 v hh =>
      obtain ⟨_, rfl⟩ := of_guard_not hs
      exact .moveHandle h v hh
  | swapHandles h k =>
    simp only [step] at hs
    split at hs
    case h_2 => cases hs
    case h_1 v w hh hk =>
      obtain ⟨_, rfl⟩ := of_guard_not hs
      exact .swapHandles h k v w hh hk
  | dropHandle h =>
    simp only [step] at hs
    split at hs
    case h_2 => cases hs
    case h_1 v hh =>
      obtain ⟨_, rfl⟩ := of_guard_not hs
      exact .dropHandle h v hh
  | createAwaiter h =>
    simp only [step] at hs
    split at hs
    case h_2 => cases hs
    case h_1 f hh =>
      obtain rfl := Option.some.inj hs
      exact .createAwaiter h f hh
  | dropAwaiter w =>
    simp only [step] at hs
    split at hs
    case h_2 => cases hs
    case h_1 f hw =>
      obtain rfl := Option.some.inj hs
      exact .dropAwaiter w f hw
  | awaitResume w =>
    simp only [step] at hs
    split at hs
    case h_2 => cases hs
    case h_1 f hw =>
      obtain ⟨_, hs⟩ := Option.ite_none_right_eq_some.1 hs
      split at hs
      case isTrue herror =>
        obtain rfl := Option.some.inj hs
        exact .awaitResume w f hw herror
      case isFalse =>
        obtain rfl := Option.some.inj hs
        exact .stay
  | startExchange h =>
    simp only [step] at hs
    split at hs
    case h_2 => cases hs
    case h_1 f hh =>
      obtain ⟨_, rfl⟩ := of_guard hs
      exact .startExchange h f hh
  | startTest h =>
    simp only [step] at hs
    split at hs
    case h_2 => cases hs
    case h_1 f _ =>
      split at hs
      case h_2 => cases hs
      case h_1 k old hm =>
        obtain ⟨_, rfl⟩ := of_guard hs
        split
        case isTrue hcond =>
          rw [Bool.and_eq_true] at hcond
          exact .startReport f _ hm hcond.2
        case isFalse => exact .startTest f _ hm
  | resume θ f =>
    obtain ⟨⟨hphase, hrun⟩, rfl⟩ := of_guard hs
    exact .resume θ f hphase hrun
  | suspend θ => exact effect_leave (Or.inl ⟨rfl, rfl⟩) hs
  | bodyReturn θ => exact effect_moveTop .bodyReturn hs
  | bodyThrow θ e => exact effect_moveTop (.bodyThrow e) hs
  | loadDetached θ => exact effect_moveTop .loadDetached hs
  | reportSelf θ => exact effect_moveTop .reportSelf hs
  | setReady θ =>
    simp only [step] at hs
    split at hs
    case h_2 => cases hs
    case h_1 =>
      obtain ⟨_, hs⟩ := Option.ite_none_right_eq_some.1 hs
      exact effect_moveTop .setReady hs
  | detachFinished θ =>
    obtain ⟨f, htop, rfl⟩ := Option.map_eq_some_iff.1 hs
    obtain ⟨rest, hstack, hphase⟩ := top_eq_some htop
    exact .detachFinished θ f rest hstack hphase
  | resumeReturn θ => exact effect_leave (Or.inr ⟨rfl, rfl⟩) hs
  | drainOne θ =>
    obtain ⟨hrun, hs⟩ := Option.ite_none_right_eq_some.1 hs
    split at hs
    case h_2 => cases hs
    case h_1 f rest hdone =>
      obtain rfl := Option.some.inj hs
      exact .drainOne θ f rest hrun hdone

/-! ## Reading an updated world -/

@[simp] theorem setFrame_frame_self (s : World ε) (f : Nat) (x : Frame ε) :
    (s.setFrame f x).frame f = x := by
  simp [World.setFrame]

theorem setFrame_frame_ne (s : World ε) {g : Nat} (x : Frame ε) (h : g ≠ f) :
    (s.setFrame f x).frame g = s.frame g := by
  simp [World.setFrame, h]

@[simp] theorem setFrame_thread (s : World ε) (f : Nat) (x : Frame ε) :
    (s.setFrame f x).thread = s.thread := rfl

@[simp] theorem setThread_thread_self (s : World ε) (θ : Nat) (x : Thread) :
    (s.setThread θ x).thread θ = x := by
  simp [World.setThread]

theorem setThread_thread_ne (s : World ε) {η : Nat} (x : Thread) (h : η ≠ θ) :
    (s.setThread θ x).thread η = s.thread η := by
  simp [World.setThread, h]

@[simp] theorem setThread_frame (s : World ε) (θ : Nat) (x : Thread) :
    (s.setThread θ x).frame = s.frame := rfl

/-! ## A frame's own record -/

/-- Some thread executes the frame. -/
def Phase.onStack : Phase → Bool
  | .running => true
  | .stored => true
  | .seen => true
  | .ended => true
  | .ready => true
  | .final => true
  | _ => false

theorem Phase.onStack_ne (hp : p.onStack = true) (hq : q.onStack = false) : p ≠ q := by
  rintro rfl
  rw [hp] at hq
  cases hq

/-- What a frame's record says of itself. -/
structure FrameOk (x : Frame ε) : Prop where
  owned : x.owner.isSome = x.phase.onStack
  listed : ∀ θ, x.listed = some θ →
    x.drained = false ∧ (x.phase = .returned ∨ x.phase = .final ∧ x.owner = some θ)
  finished : x.phase = .final ∨ x.phase = .returned → x.drained = false → x.listed.isSome = true
  drained : x.drained = true → x.phase = .returned ∨ x.phase = .destroyed

theorem frameOk_noFrame : FrameOk (noFrame ε) := by
  constructor <;> simp [noFrame, Phase.onStack]

/-- A change that leaves the position alone. -/
theorem FrameOk.congr {y : Frame ε} (h : FrameOk x) (hphase : y.phase = x.phase)
    (howner : y.owner = x.owner) (hlisted : y.listed = x.listed) (hdrained : y.drained = x.drained)
    : FrameOk y := by
  constructor
  · rw [hphase, howner]
    exact h.owned
  · rw [hphase, howner, hlisted, hdrained]
    exact h.listed
  · rw [hphase, hlisted, hdrained]
    exact h.finished
  · rw [hphase, hdrained]
    exact h.drained

theorem FrameOk.owner_eq_none (h : FrameOk x) (hp : x.phase.onStack = false) : x.owner = none := by
  have howned := h.owned
  rw [hp] at howned
  exact Option.not_isSome_iff_eq_none.1 (by rw [howned]; decide)

theorem FrameOk.listed_eq_none (h : FrameOk x) (hr : x.phase ≠ .returned) (hf : x.phase ≠ .final) :
    x.listed = none := by
  cases hl : x.listed with
  | none => rfl
  | some θ =>
    rcases (h.listed θ hl).2 with he | ⟨he, _⟩
    · exact absurd he hr
    · exact absurd he hf

theorem FrameOk.undrained (h : FrameOk x) (hr : x.phase ≠ .returned) (hd : x.phase ≠ .destroyed) :
    x.drained = false := by
  by_contra hdrained
  rcases h.drained (by simpa using hdrained) with he | he
  · exact hr he
  · exact hd he

/-- A record that was not drained and is in no list. -/
theorem frameOk_unlisted (howned : x.owner.isSome = x.phase.onStack) (hlisted : x.listed = none)
    (hdrained : x.drained = false) (hf : x.phase ≠ .final) (hr : x.phase ≠ .returned) :
    FrameOk x where
  owned := howned
  listed := by
    intro θ hθ
    rw [hlisted] at hθ
    cases hθ
  finished := by
    rintro (he | he)
    · exact absurd he hf
    · exact absurd he hr
  drained := by
    intro hd
    rw [hdrained] at hd
    cases hd

/-- A frame that some thread executes, before the end of `final_suspend`, and stays so. -/
theorem FrameOk.rephase (h : FrameOk x) (hx : x.phase.onStack = true) (hxf : x.phase ≠ .final)
    {y : Frame ε} (hy : y.phase.onStack = true) (hyf : y.phase ≠ .final)
    (howner : y.owner = x.owner) (hlisted : y.listed = x.listed) (hdrained : y.drained = x.drained)
    : FrameOk y := by
  have hret := Phase.onStack_ne hx (q := .returned) rfl
  apply frameOk_unlisted
  · rw [howner, h.owned, hx, hy]
  · rw [hlisted, h.listed_eq_none hret hxf]
  · rw [hdrained, h.undrained hret (Phase.onStack_ne hx rfl)]
  · exact hyf
  · exact Phase.onStack_ne hy rfl

/-! ## The threads -/

/-- The stacks and lists of the threads agree with the records. -/
structure Threads (s : World ε) : Prop where
  stack : ∀ θ f, f ∈ (s.thread θ).stack ↔ (s.frame f).owner = some θ
  nodup : ∀ θ, (s.thread θ).stack.Nodup
  inner : ∀ θ g rest, (s.thread θ).stack = g :: rest → ∀ f ∈ rest, (s.frame f).phase = .running
  done : ∀ θ f, f ∈ (s.thread θ).detachedDone ↔ (s.frame f).listed = some θ
  doneNodup : ∀ θ, (s.thread θ).detachedDone.Nodup

theorem threads_init : Threads (init ε) := by
  constructor <;> simp [init, noFrame]

theorem Threads.stacks (h : Threads s) :
    Filed (fun θ => (s.thread θ).stack) fun f => (s.frame f).owner := ⟨h.stack, h.nodup⟩

theorem Threads.lists (h : Threads s) :
    Filed (fun θ => (s.thread θ).detachedDone) fun f => (s.frame f).listed := ⟨h.done, h.doneNodup⟩

theorem threads_of (hstacks : Filed (fun θ => (s.thread θ).stack) fun f => (s.frame f).owner)
    (hlists : Filed (fun θ => (s.thread θ).detachedDone) fun f => (s.frame f).listed)
    (hinner : ∀ θ g rest, (s.thread θ).stack = g :: rest → ∀ f ∈ rest,
      (s.frame f).phase = .running) : Threads s :=
  ⟨hstacks.mem, hstacks.nodup, hinner, hlists.mem, hlists.nodup⟩

theorem Threads.owner_top (h : Threads s) {rest : List Nat} (htop : (s.thread θ).stack = f :: rest)
    : (s.frame f).owner = some θ := by
  apply (h.stack θ f).1
  rw [htop]
  exact List.mem_cons_self

/-- The frame on top of a stack is in no stack below the top. -/
theorem Threads.not_inner (h : Threads s) {rest : List Nat} (htop : (s.thread θ).stack = f :: rest)
    {η g : Nat} {rest' : List Nat} (hη : (s.thread η).stack = g :: rest') : f ∉ rest' := by
  intro hf
  have howner : (s.frame f).owner = some η := by
    apply (h.stack η f).1
    rw [hη]
    exact List.mem_cons_of_mem _ hf
  obtain rfl : θ = η := Option.some.inj ((h.owner_top htop).symm.trans howner)
  have hnd := h.nodup θ
  rw [hη] at htop hnd
  injection htop with hfg _
  rw [← hfg] at hf
  exact (List.nodup_cons.1 hnd).1 hf

/-- A thread that executes code is not in a frame that has ended. -/
theorem Threads.not_final (h : Threads s) (hrun : s.canRun θ = true) (hf : f ∈ (s.thread θ).stack) :
    (s.frame f).phase = .running := by
  rw [World.canRun] at hrun
  cases hstack : (s.thread θ).stack with
  | nil =>
    rw [hstack] at hf
    cases hf
  | cons g rest =>
    rw [hstack] at hrun hf
    rcases List.mem_cons.1 hf with rfl | hrest
    · simpa using hrun
    · exact h.inner θ g rest hstack f hrest

section Change

/-- The frames below the top run on, whatever becomes of one on top. -/
theorem Threads.inner_update (h : Threads s) (hx : (∃ θ rest, (s.thread θ).stack = f :: rest) ∨
      ((s.frame f).phase = .running → x.phase = .running)) {η g : Nat} {rest : List Nat}
    (hstack : (s.thread η).stack = g :: rest) (hk : k ∈ rest) :
    (Function.update s.frame f x k).phase = .running := by
  have hold := h.inner η g rest hstack k hk
  by_cases hkf : k = f
  · subst hkf
    rw [Function.update_self]
    rcases hx with ⟨θ, rest', htop⟩ | hx
    · exact absurd hk (h.not_inner htop hstack)
    · exact hx hold
  · rw [Function.update_of_ne hkf]
    exact hold

/-- A step that changes one record and no list. -/
theorem Threads.setFrame (h : Threads s) (hframe : s'.frame = Function.update s.frame f x)
    (hthread : s'.thread = s.thread) (howner : x.owner = (s.frame f).owner)
    (hlisted : x.listed = (s.frame f).listed) (hx : (∃ θ rest, (s.thread θ).stack = f :: rest) ∨
      ((s.frame f).phase = .running → x.phase = .running)) : Threads s' := by
  apply threads_of
  · rw [hthread, hframe]
    exact h.stacks.congr (fun _ => rfl) (update_field Frame.owner howner)
  · rw [hthread, hframe]
    exact h.lists.congr (fun _ => rfl) (update_field Frame.listed hlisted)
  · rw [hthread, hframe]
    exact fun η g rest hstack k hk => h.inner_update hx hstack hk

/-- A frame goes on top of the stack of a thread that executes code. -/
theorem Threads.push (h : Threads s) (hrun : s.canRun θ = true) (hfree : (s.frame f).owner = none)
    (hframe : s'.frame = Function.update s.frame f x)
    (hthread : s'.thread = Function.update s.thread θ
      { s.thread θ with stack := f :: (s.thread θ).stack })
    (howner : x.owner = some θ) (hlisted : x.listed = (s.frame f).listed) : Threads s' := by
  apply threads_of
  · rw [hframe, hthread]
    refine h.stacks.push (k := θ) hfree ?_ ?_ ?_ ?_
    · rw [Function.update_self]
    · intro η hη
      rw [Function.update_of_ne hη]
    · rw [Function.update_self, howner]
    · intro g hg
      rw [Function.update_of_ne hg]
  · rw [hframe, hthread]
    exact h.lists.congr (update_field Thread.detachedDone rfl) (update_field Frame.listed hlisted)
  · rw [hframe, hthread]
    intro η g rest hstack k hk
    have hmem : k ∈ (s.thread η).stack ∧ (s.frame k).phase = .running := by
      by_cases hη : η = θ
      · subst hη
        rw [Function.update_self] at hstack
        injection hstack with _ hrest
        rw [← hrest] at hk
        exact ⟨hk, h.not_final hrun hk⟩
      · rw [Function.update_of_ne hη] at hstack
        refine ⟨?_, h.inner η g rest hstack k hk⟩
        rw [hstack]
        exact List.mem_cons_of_mem _ hk
    have hne : k ≠ f := by
      rintro rfl
      exact h.stacks.not_mem hfree η hmem.1
    rw [Function.update_of_ne hne]
    exact hmem.2

/-- The frame on top leaves the stack. -/
theorem Threads.pop (h : Threads s) {rest : List Nat} (htop : (s.thread θ).stack = f :: rest)
    (hframe : s'.frame = Function.update s.frame f x)
    (hthread : s'.thread = Function.update s.thread θ
      { s.thread θ with stack := (s.thread θ).stack.tail })
    (howner : x.owner = none) (hlisted : x.listed = (s.frame f).listed) : Threads s' := by
  apply threads_of
  · rw [hframe, hthread]
    refine h.stacks.pop (k := θ) (i := f) ?_ ?_ ?_ ?_
    · rw [Function.update_self, htop]
      rfl
    · intro η hη
      rw [Function.update_of_ne hη]
    · rw [Function.update_self, howner]
    · intro g hg
      rw [Function.update_of_ne hg]
  · rw [hframe, hthread]
    exact h.lists.congr (update_field Thread.detachedDone rfl) (update_field Frame.listed hlisted)
  · rw [hframe, hthread]
    intro η g rest' hstack k hk
    by_cases hη : η = θ
    · subst hη
      rw [Function.update_self, htop] at hstack
      have hstack : rest = g :: rest' := hstack
      apply h.inner_update (Or.inl ⟨η, rest, htop⟩) htop
      rw [hstack]
      exact List.mem_cons_of_mem _ hk
    · rw [Function.update_of_ne hη] at hstack
      exact h.inner_update (Or.inl ⟨θ, rest, htop⟩) hstack hk

/-- A step of the lists of finished frames leaves the stacks alone. -/
theorem Threads.relist (h : Threads s) {l : List Nat} (hframe : s'.frame = Function.update s.frame f x)
    (hthread : s'.thread = Function.update s.thread θ { s.thread θ with detachedDone := l })
    (howner : x.owner = (s.frame f).owner) (hx : (∃ θ rest, (s.thread θ).stack = f :: rest) ∨
      ((s.frame f).phase = .running → x.phase = .running))
    (hlists : Filed (fun θ => (s'.thread θ).detachedDone) fun f => (s'.frame f).listed) :
    Threads s' := by
  have hstacks : ∀ η, (s'.thread η).stack = (s.thread η).stack := by
    rw [hthread]
    exact update_field Thread.stack rfl
  refine threads_of ?_ hlists ?_
  · rw [hframe]
    exact h.stacks.congr hstacks (update_field Frame.owner howner)
  · intro η g rest hstack k hk
    rw [hstacks] at hstack
    rw [hframe]
    exact h.inner_update hx hstack hk

end Change

/-! ## The account of the references

The count of a frame is the number of handles and awaiters that have it, and one for its execution
until that is given back. -/

/-- One for a handle that holds the frame. -/
def holds (f : Nat) (o : Option (Option Nat)) : Nat := if o = some (some f) then 1 else 0

/-- One for an awaiter of the frame. -/
def awaits (f : Nat) (o : Option Nat) : Nat := if o = some f then 1 else 0

/-- One until the finished frame was drained. -/
def execution (x : Frame ε) : Nat := if x.drained then 0 else 1

/-- All references of a frame. -/
def World.total (s : World ε) (f : Nat) : Nat :=
  tally (holds f) s.handles + tally (awaits f) s.awaiters + execution (s.frame f)

/-- What is known of the references of a frame. -/
structure RefOk (s : World ε) (f : Nat) : Prop where
  absent : (s.frame f).phase = .absent →
    tally (holds f) s.handles = 0 ∧ tally (awaits f) s.awaiters = 0 ∧ (s.frame f).drained = false
  count : (s.frame f).phase ≠ .absent → (s.frame f).iReferences = s.total f
  dead : (s.frame f).phase = .destroyed ↔ (s.frame f).phase ≠ .absent ∧ s.total f = 0
  destroys : (s.frame f).destroys = if (s.frame f).phase = .destroyed then 1 else 0

/-- **The invariant of the frames.** -/
structure Sound (s : World ε) : Prop where
  frame : ∀ f, FrameOk (s.frame f)
  threads : Threads s
  ref : ∀ f, RefOk s f

theorem sound_init : Sound (init ε) where
  frame := fun _ => frameOk_noFrame
  threads := threads_init
  ref := by
    intro f
    constructor <;> simp [init, noFrame]

/-- A step that leaves the account of a frame alone. -/
theorem RefOk.congr (h : RefOk s f)
    (hholds : tally (holds f) s'.handles = tally (holds f) s.handles)
    (hawaits : tally (awaits f) s'.awaiters = tally (awaits f) s.awaiters)
    (hdrained : (s'.frame f).drained = (s.frame f).drained)
    (hrefs : (s'.frame f).iReferences = (s.frame f).iReferences)
    (hdestroys : (s'.frame f).destroys = (s.frame f).destroys)
    (habsent : (s'.frame f).phase = .absent ↔ (s.frame f).phase = .absent)
    (hdead : (s'.frame f).phase = .destroyed ↔ (s.frame f).phase = .destroyed) : RefOk s' f := by
  have htotal : s'.total f = s.total f := by
    rw [World.total, World.total, hholds, hawaits, execution, execution, hdrained]
  constructor
  · intro hp
    rw [hholds, hawaits, hdrained]
    exact h.absent (habsent.1 hp)
  · intro hp
    rw [hrefs, htotal]
    exact h.count fun he => hp (habsent.2 he)
  · rw [htotal, hdead, h.dead]
    constructor
    · rintro ⟨hp, ht⟩
      exact ⟨fun he => hp (habsent.1 he), ht⟩
    · rintro ⟨hp, ht⟩
      exact ⟨fun he => hp (habsent.2 he), ht⟩
  · rw [hdestroys, h.destroys]
    by_cases hd : (s.frame f).phase = .destroyed
    · rw [if_pos hd, if_pos (hdead.2 hd)]
    · rw [if_neg hd, if_neg fun he => hd (hdead.1 he)]

/-- A step that changes one record and none of its references. -/
theorem RefOk.update (h : ∀ g, RefOk s g) (hframe : s'.frame = Function.update s.frame f x)
    (hhandles : s'.handles = s.handles) (hawaiters : s'.awaiters = s.awaiters)
    (hdrained : x.drained = (s.frame f).drained) (hrefs : x.iReferences = (s.frame f).iReferences)
    (hdestroys : x.destroys = (s.frame f).destroys)
    (habsent : x.phase = .absent ↔ (s.frame f).phase = .absent)
    (hdead : x.phase = .destroyed ↔ (s.frame f).phase = .destroyed) (g : Nat) : RefOk s' g := by
  apply (h g).congr
  · rw [hhandles]
  · rw [hawaiters]
  · rw [hframe]
    exact update_field Frame.drained hdrained g
  · rw [hframe]
    exact update_field Frame.iReferences hrefs g
  · rw [hframe]
    exact update_field Frame.destroys hdestroys g
  · rw [hframe]
    exact all_update (P := fun j (y : Frame ε) => y.phase = .absent ↔ (s.frame j).phase = .absent) habsent
      (fun _ _ => Iff.rfl) g
  · rw [hframe]
    exact all_update (P := fun j (y : Frame ε) => y.phase = .destroyed ↔ (s.frame j).phase = .destroyed) hdead
      (fun _ _ => Iff.rfl) g

/-! ## Steps that leave the references alone -/

/-- A step that changes one record, not its place and none of its references. -/
theorem Sound.setFrame (h : Sound s) (hok : FrameOk x) (howner : x.owner = (s.frame f).owner)
    (hlisted : x.listed = (s.frame f).listed) (hdrained : x.drained = (s.frame f).drained)
    (hrefs : x.iReferences = (s.frame f).iReferences)
    (hdestroys : x.destroys = (s.frame f).destroys)
    (habsent : x.phase = .absent ↔ (s.frame f).phase = .absent)
    (hdead : x.phase = .destroyed ↔ (s.frame f).phase = .destroyed)
    (hx : (∃ θ rest, (s.thread θ).stack = f :: rest) ∨
      ((s.frame f).phase = .running → x.phase = .running)) : Sound (s.setFrame f x) where
  frame := all_update hok fun g _ => h.frame g
  threads := h.threads.setFrame rfl rfl howner hlisted hx
  ref := RefOk.update h.ref rfl rfl rfl hdrained hrefs hdestroys habsent hdead

/-- The position and the references are no matter of `ReportError`. -/
theorem reportError_keeps (x : Frame ε) : (reportError x).phase = x.phase ∧
    (reportError x).owner = x.owner ∧ (reportError x).listed = x.listed ∧
    (reportError x).drained = x.drained ∧ (reportError x).iReferences = x.iReferences ∧
    (reportError x).destroys = x.destroys := by
  rw [reportError]
  split
  · exact ⟨rfl, rfl, rfl, rfl, rfl, rfl⟩
  · exact ⟨rfl, rfl, rfl, rfl, rfl, rfl⟩

/-- A change of the exception's flags only. -/
theorem Sound.setFlags (h : Sound s) (hphase : x.phase = (s.frame f).phase)
    (howner : x.owner = (s.frame f).owner) (hlisted : x.listed = (s.frame f).listed)
    (hdrained : x.drained = (s.frame f).drained) (hrefs : x.iReferences = (s.frame f).iReferences)
    (hdestroys : x.destroys = (s.frame f).destroys) : Sound (s.setFrame f x) := by
  apply h.setFrame ((h.frame f).congr hphase howner hlisted hdrained) howner hlisted hdrained hrefs
    hdestroys
  · rw [hphase]
  · rw [hphase]
  · right
    rw [hphase]
    exact id

/-- The frame on top stays in its execution, and its references are no matter. -/
theorem Advance.keeps (hg : Advance p g) :
    (p.onStack = true ∧ p ≠ .final) ∧ ∀ x : Frame ε, (g x).phase.onStack = true ∧
      (g x).phase ≠ .final ∧ (g x).owner = x.owner ∧ (g x).listed = x.listed ∧
      (g x).drained = x.drained ∧ (g x).iReferences = x.iReferences ∧
      (g x).destroys = x.destroys := by
  cases hg with
  | bodyReturn | bodyThrow e =>
    exact ⟨⟨rfl, by decide⟩, fun x => ⟨rfl, nofun, rfl, rfl, rfl, rfl, rfl⟩⟩
  | loadDetached =>
    refine ⟨⟨rfl, by decide⟩, fun x => ?_⟩
    dsimp only
    split
    · exact ⟨rfl, nofun, rfl, rfl, rfl, rfl, rfl⟩
    · exact ⟨rfl, nofun, rfl, rfl, rfl, rfl, rfl⟩
  | reportSelf =>
    refine ⟨⟨rfl, by decide⟩, fun x => ?_⟩
    obtain ⟨_, howner, hlisted, hdrained, hrefs, hdestroys⟩ := reportError_keeps x
    exact ⟨rfl, nofun, howner, hlisted, hdrained, hrefs, hdestroys⟩
  | setReady =>
    exact ⟨⟨rfl, by decide⟩, fun x => ⟨rfl, nofun, rfl, rfl, rfl, rfl, rfl⟩⟩

theorem Sound.advance (h : Sound s) {rest : List Nat} (hg : Advance p g)
    (hstack : (s.thread θ).stack = f :: rest) (hphase : (s.frame f).phase = p) :
    Sound (s.setFrame f (g (s.frame f))) := by
  obtain ⟨⟨hp, hpf⟩, hx⟩ := hg.keeps
  obtain ⟨hon, hfin, howner, hlisted, hdrained, hrefs, hdestroys⟩ := hx (s.frame f)
  rw [← hphase] at hp hpf
  apply h.setFrame ((h.frame f).rephase hp hpf hon hfin howner hlisted hdrained) howner hlisted
    hdrained hrefs hdestroys
  · exact iff_of_false (Phase.onStack_ne hon rfl) (Phase.onStack_ne hp rfl)
  · exact iff_of_false (Phase.onStack_ne hon rfl) (Phase.onStack_ne hp rfl)
  · exact Or.inl ⟨θ, rest, hstack⟩

/-! ## Steps of the stacks -/

theorem Sound.resume (h : Sound s) (hphase : (s.frame f).phase = .suspended)
    (hrun : s.canRun θ = true) :
    Sound ((s.setFrame f { s.frame f with phase := .running, owner := some θ }).setThread θ
      { s.thread θ with stack := f :: (s.thread θ).stack }) := by
  have hne : ∀ {p : Phase}, p ≠ .suspended → (s.frame f).phase ≠ p := by
    intro p hp he
    exact hp (he.symm.trans hphase)
  have hok := h.frame f
  have hfree := hok.owner_eq_none (by rw [hphase]; rfl)
  constructor
  · refine all_update ?_ fun g _ => h.frame g
    exact frameOk_unlisted rfl (hok.listed_eq_none (hne nofun) (hne nofun))
      (hok.undrained (hne nofun) (hne nofun)) nofun nofun
  · exact h.threads.push hrun hfree rfl rfl rfl rfl
  · refine RefOk.update h.ref (f := f) rfl rfl rfl rfl rfl rfl ?_ ?_
    · exact iff_of_false nofun (hne nofun)
    · exact iff_of_false nofun (hne nofun)

/-- The frame on top suspends, or is over and control goes back. -/
theorem Sound.leave (h : Sound s) {rest : List Nat}
    (hpq : p = .running ∧ q = .suspended ∨ p = .final ∧ q = .returned)
    (hstack : (s.thread θ).stack = f :: rest) (hphase : (s.frame f).phase = p) :
    Sound ((s.setFrame f { s.frame f with phase := q, owner := none }).setThread θ
      { s.thread θ with stack := (s.thread θ).stack.tail }) := by
  have hok := h.frame f
  have hon : (s.frame f).phase.onStack = true := by
    rw [hphase]
    rcases hpq with ⟨rfl, _⟩ | ⟨rfl, _⟩
    · rfl
    · rfl
  have hundrained := hok.undrained (Phase.onStack_ne hon rfl) (Phase.onStack_ne hon rfl)
  have hnew : q ≠ .absent ∧ q ≠ .destroyed := by
    rcases hpq with ⟨_, rfl⟩ | ⟨_, rfl⟩
    · exact ⟨nofun, nofun⟩
    · exact ⟨nofun, nofun⟩
  constructor
  · refine all_update ?_ fun g _ => h.frame g
    rcases hpq with ⟨rfl, rfl⟩ | ⟨rfl, rfl⟩
    · have hlisted := hok.listed_eq_none (Phase.onStack_ne hon rfl) (by rw [hphase]; decide)
      exact frameOk_unlisted rfl hlisted hundrained nofun nofun
    · constructor
      · rfl
      · exact fun η _ => ⟨hundrained, Or.inl rfl⟩
      · exact fun _ hd => hok.finished (Or.inl hphase) hd
      · exact fun _ => Or.inl rfl
  · exact h.threads.pop hstack rfl rfl rfl rfl
  · refine RefOk.update h.ref (f := f) rfl rfl rfl rfl rfl rfl ?_ ?_
    · exact iff_of_false hnew.1 (Phase.onStack_ne hon rfl)
    · exact iff_of_false hnew.2 (Phase.onStack_ne hon rfl)

/-- The end of `final_suspend`: the frame is in the list of its thread, which is still in it. -/
theorem Sound.detachFinished (h : Sound s) {rest : List Nat}
    (hstack : (s.thread θ).stack = f :: rest) (hphase : (s.frame f).phase = .ready) :
    Sound ((s.setFrame f { s.frame f with phase := .final, listed := some θ }).setThread θ
      { s.thread θ with detachedDone := f :: (s.thread θ).detachedDone }) := by
  have hne : ∀ {p : Phase}, p ≠ .ready → (s.frame f).phase ≠ p := by
    intro p hp he
    exact hp (he.symm.trans hphase)
  have hok := h.frame f
  have howner := h.threads.owner_top hstack
  have hunlisted := hok.listed_eq_none (hne nofun) (hne nofun)
  have hundrained := hok.undrained (hne nofun) (hne nofun)
  constructor
  · refine all_update ?_ fun g _ => h.frame g
    constructor
    · show (s.frame f).owner.isSome = true
      rw [howner]
      rfl
    · rintro η ⟨⟩
      exact ⟨hundrained, Or.inr ⟨rfl, howner⟩⟩
    · exact fun _ _ => rfl
    · intro hd
      have hd : (s.frame f).drained = true := hd
      rw [hundrained] at hd
      cases hd
  · refine h.threads.relist rfl rfl rfl (Or.inl ⟨θ, rest, hstack⟩) ?_
    refine h.threads.lists.push (k := θ) (i := f) hunlisted ?_ ?_ ?_ ?_
    · rw [setThread_thread_self]
    · intro η hη
      rw [setThread_thread_ne _ _ hη]
      rfl
    · rw [setThread_frame, setFrame_frame_self]
    · intro g hg
      rw [setThread_frame, setFrame_frame_ne _ _ hg]
  · refine RefOk.update h.ref (f := f) rfl rfl rfl rfl rfl rfl ?_ ?_
    · exact iff_of_false nofun (hne nofun)
    · exact iff_of_false nofun (hne nofun)

/-! ## Steps of the references -/

/-- What `Release` keeps of a record. -/
theorem releaseFrame_keeps (x : Frame ε) : (releaseFrame x).owner = x.owner ∧
    (releaseFrame x).listed = x.listed ∧ (releaseFrame x).drained = x.drained ∧
    (releaseFrame x).iReferences = fetchSub x.iReferences := by
  obtain ⟨_, howner, hlisted, hdrained, hrefs, _⟩ :=
    reportError_keeps { x with iReferences := fetchSub x.iReferences }
  simp only [releaseFrame]
  split
  · split
    · exact ⟨howner, hlisted, hdrained, hrefs⟩
    · exact ⟨rfl, rfl, rfl, rfl⟩
  · exact ⟨rfl, rfl, rfl, rfl⟩

theorem releaseFrame_last (hx : x.iReferences = 1) :
    (releaseFrame x).phase = .destroyed ∧ (releaseFrame x).destroys = x.destroys + 1 := by
  obtain ⟨_, _, _, _, _, h⟩ := reportError_keeps { x with iReferences := fetchSub x.iReferences }
  simp only [releaseFrame, if_pos hx]
  refine ⟨trivial, ?_⟩
  split
  · rw [h]
  · rfl

theorem releaseFrame_more (hx : x.iReferences ≠ 1) :
    (releaseFrame x).phase = x.phase ∧ (releaseFrame x).destroys = x.destroys := by
  simp only [releaseFrame, if_neg hx]
  exact ⟨trivial, trivial⟩

@[simp] theorem release_handles (s : World ε) (o : Option Nat) :
    (release s o).handles = s.handles := by
  cases o with
  | none => rfl
  | some f => rfl

@[simp] theorem release_awaiters (s : World ε) (o : Option Nat) :
    (release s o).awaiters = s.awaiters := by
  cases o with
  | none => rfl
  | some f => rfl

/-- What `Release` needs to know: the frame has the reference that is given back on top of those
that are left, and it is not destroyed. -/
structure Releasing (s : World ε) (f : Nat) : Prop where
  frame : ∀ g, FrameOk (s.frame g)
  threads : Threads s
  other : ∀ g, g ≠ f → RefOk s g
  count : (s.frame f).iReferences = s.total f + 1
  alive : (s.frame f).phase ≠ .absent ∧ (s.frame f).phase ≠ .destroyed
  destroys : (s.frame f).destroys = 0

/-- The last reference can only be given back after the execution's. -/
theorem Releasing.returned (h : Releasing s f) (hlast : (s.frame f).iReferences = 1) :
    (s.frame f).drained = true ∧ (s.frame f).phase = .returned := by
  have hcount := h.count
  have hzero : s.total f = 0 := by omega
  have hdrained : (s.frame f).drained = true := by
    by_contra hd
    have hd : (s.frame f).drained = false := by simpa using hd
    have hone : execution (s.frame f) = 1 := by simp [execution, hd]
    rw [World.total, hone] at hzero
    omega
  refine ⟨hdrained, ?_⟩
  rcases (h.frame f).drained hdrained with he | he
  · exact he
  · exact absurd he h.alive.2

theorem Releasing.other_release {g : Nat} (h : Releasing s f) (hg : g ≠ f) :
    RefOk (release s (some f)) g := by
  have hg' : (release s (some f)).frame g = s.frame g := setFrame_frame_ne s _ hg
  exact (h.other g hg).congr (by rw [release_handles]) (by rw [release_awaiters]) (by rw [hg'])
    (by rw [hg']) (by rw [hg']) (by rw [hg']) (by rw [hg'])

theorem Releasing.sound (h : Releasing s f) : Sound (release s (some f)) := by
  have hself : (release s (some f)).frame f = releaseFrame (s.frame f) := setFrame_frame_self s f _
  have hok := h.frame f
  obtain ⟨howner, hlisted, hdrained, hrefs⟩ := releaseFrame_keeps (s.frame f)
  have htotal : (release s (some f)).total f = s.total f := by
    rw [World.total, World.total, release_handles, release_awaiters, execution, execution, hself,
      hdrained]
  have hcount : (releaseFrame (s.frame f)).iReferences = s.total f := by
    have hc := h.count
    rw [hrefs, fetchSub, if_neg (by omega)]
    omega
  -- the last reference, or another one
  rcases eq_or_ne (s.frame f).iReferences 1 with hlast | hmore
  · obtain ⟨hgiven, hreturned⟩ := h.returned hlast
    obtain ⟨hdead, hdestroys⟩ := releaseFrame_last hlast
    have hzero : s.total f = 0 := by
      have hc := h.count
      omega
    constructor
    · refine all_update ?_ fun g _ => h.frame g
      constructor
      · rw [howner, hdead, hok.owner_eq_none (by rw [hreturned]; rfl)]
        rfl
      · intro θ hθ
        rw [hlisted] at hθ
        have hd := (hok.listed θ hθ).1
        rw [hgiven] at hd
        cases hd
      · rw [hdead]
        exact nofun
      · exact fun _ => Or.inr hdead
    · refine h.threads.setFrame rfl rfl howner hlisted (Or.inr ?_)
      intro hrunning
      rw [hreturned] at hrunning
      cases hrunning
    · intro g
      rcases eq_or_ne g f with rfl | hg
      · constructor
        · rw [hself, hdead]
          exact nofun
        · intro _
          rw [hself, hcount, htotal]
        · rw [hself, hdead, htotal]
          exact iff_of_true rfl ⟨nofun, hzero⟩
        · rw [hself, hdead, hdestroys, h.destroys, if_pos rfl]
      · exact h.other_release hg
  · obtain ⟨hphase, hdestroys⟩ := releaseFrame_more hmore
    constructor
    · exact all_update (hok.congr hphase howner hlisted hdrained) fun g _ => h.frame g
    · exact h.threads.setFrame rfl rfl howner hlisted (Or.inr fun hr => hphase.trans hr)
    · intro g
      rcases eq_or_ne g f with rfl | hg
      · constructor
        · intro he
          rw [hself, hphase] at he
          exact absurd he h.alive.1
        · intro _
          rw [hself, hcount, htotal]
        · rw [hself, hphase, htotal]
          refine iff_of_false h.alive.2 ?_
          rintro ⟨_, hzero⟩
          have hc := h.count
          omega
        · rw [hself, hphase, hdestroys, h.destroys, if_neg h.alive.2]
      · exact h.other_release hg

/-- A frame with a reference is alive. -/
theorem RefOk.alive (h : RefOk s f)
    (hpos : 0 < tally (holds f) s.handles + tally (awaits f) s.awaiters) :
    ((s.frame f).phase ≠ .absent ∧ (s.frame f).phase ≠ .destroyed) ∧ (s.frame f).destroys = 0 := by
  have habs : (s.frame f).phase ≠ .absent := by
    intro he
    have := h.absent he
    omega
  have hdead : (s.frame f).phase ≠ .destroyed := by
    intro he
    have hzero := (h.dead.1 he).2
    rw [World.total] at hzero
    omega
  refine ⟨⟨habs, hdead⟩, ?_⟩
  rw [h.destroys, if_neg hdead]

theorem holds_pos {h : Nat} (hh : s.handles[h]? = some (some (some f))) :
    0 < tally (holds f) s.handles := by
  have hle := le_tally (holds f) hh
  have hone : holds f (some (some f)) = 1 := by simp [holds]
  omega

theorem awaits_pos {w : Nat} (hw : s.awaiters[w]? = some (some f)) :
    0 < tally (awaits f) s.awaiters := by
  have hle := le_tally (awaits f) hw
  have hone : awaits f (some f) = 1 := by simp [awaits]
  omega

/-- A step that gives a frame to one more object. -/
theorem Sound.acquire (h : Sound s) {a b : Nat} (hab : a + b = 1)
    (halive : (s.frame f).phase ≠ .absent ∧ (s.frame f).phase ≠ .destroyed)
    (hframe : s'.frame = Function.update s.frame f
      { s.frame f with iReferences := (s.frame f).iReferences + 1 })
    (hthread : s'.thread = s.thread) (hholds : ∀ g, tally (holds g) s'.handles =
      tally (holds g) s.handles + if g = f then a else 0)
    (hawaits : ∀ g, tally (awaits g) s'.awaiters =
      tally (awaits g) s.awaiters + if g = f then b else 0) : Sound s' := by
  constructor
  · rw [hframe]
    exact all_update ((h.frame f).congr rfl rfl rfl rfl) fun g _ => h.frame g
  · exact h.threads.setFrame hframe hthread rfl rfl (Or.inr id)
  · intro g
    by_cases hg : g = f
    · subst hg
      have hr := h.ref g
      have hcount := hr.count halive.1
      have htotal : s'.total g = s.total g + 1 := by
        rw [World.total, World.total, hholds, hawaits, if_pos rfl, if_pos rfl, hframe,
          Function.update_self]
        show _ + execution (s.frame g) = _
        omega
      constructor
      · rw [hframe, Function.update_self]
        exact fun he => absurd he halive.1
      · intro _
        rw [htotal, hframe, Function.update_self, ← hcount]
      · rw [htotal, hframe, Function.update_self]
        refine iff_of_false halive.2 ?_
        rintro ⟨_, hzero⟩
        omega
      · rw [hframe, Function.update_self]
        exact hr.destroys
    · have hg' : s'.frame g = s.frame g := by rw [hframe, Function.update_of_ne hg]
      refine (h.ref g).congr ?_ ?_ (by rw [hg']) (by rw [hg']) (by rw [hg']) (by rw [hg'])
        (by rw [hg'])
      · rw [hholds, if_neg hg, Nat.add_zero]
      · rw [hawaits, if_neg hg, Nat.add_zero]

/-! ## Handles and awaiters -/

theorem holds_some (f g : Nat) : holds g (some (some f)) = if g = f then 1 else 0 := by
  rw [holds]
  by_cases h : g = f
  · rw [if_pos h, if_pos (by rw [h])]
  · rw [if_neg h, if_neg (fun he => h (by injection he with he; injection he with he; exact he.symm))]

theorem holds_empty (g : Nat) : holds g (some none) = 0 := by
  simp [holds]

theorem holds_none (g : Nat) : holds g none = 0 := by
  simp [holds]

theorem awaits_some (f g : Nat) : awaits g (some f) = if g = f then 1 else 0 := by
  rw [awaits]
  by_cases h : g = f
  · rw [if_pos h, if_pos (by rw [h])]
  · rw [if_neg h, if_neg (fun he => h (by injection he with he; exact he.symm))]

theorem awaits_none (g : Nat) : awaits g none = 0 := by
  simp [awaits]

/-- A change of the objects that changes nobody's number of handles. -/
theorem Sound.setHandles (h : Sound s) {l : List (Option (Option Nat))}
    (hl : ∀ g, tally (holds g) l = tally (holds g) s.handles) : Sound { s with handles := l } where
  frame := h.frame
  threads := threads_of h.threads.stacks h.threads.lists h.threads.inner
  ref := fun g => (h.ref g).congr (hl g) rfl rfl rfl rfl Iff.rfl Iff.rfl

theorem Sound.copyHandle (h : Sound s) (hk : s.handles[k]? = some (some v)) :
    Sound { Frames.acquire s v with handles := s.handles ++ [some v] } := by
  cases v with
  | none =>
    apply h.setHandles
    intro g
    rw [tally_append, tally_cons, tally_nil, holds_empty]
    rfl
  | some f =>
    have halive := ((h.ref f).alive (Nat.add_pos_left (holds_pos hk) _)).1
    refine h.acquire (a := 1) (b := 0) (f := f) rfl halive rfl rfl ?_ ?_
    · intro g
      rw [tally_append, tally_cons, tally_nil, holds_some, Nat.add_zero]
    · intro g
      rw [ite_self, Nat.add_zero]
      rfl

theorem Sound.moveHandle (h : Sound s) (hk : s.handles[k]? = some (some v)) :
    Sound { s with handles := s.handles.set k (some none) ++ [some v] } := by
  apply h.setHandles
  intro g
  have hset := @tally_set _ (holds g) (some none) _ _ _ hk
  rw [holds_empty] at hset
  rw [tally_append, tally_cons, tally_nil]
  omega

theorem Sound.swapHandles (h : Sound s) {l : Nat} {w : Option Nat}
    (hk : s.handles[k]? = some (some v)) (hl : s.handles[l]? = some (some w)) :
    Sound { s with handles := (s.handles.set k (some w)).set l (some v) } := by
  apply h.setHandles
  intro g
  have hset := @tally_set _ (holds g) (some w) _ _ _ hk
  -- also where the two objects are the same
  have hmid : (s.handles.set k (some w))[l]? = some (some w) := by
    apply (getElem?_set_iff hk).2
    by_cases hkl : l = k
    · exact Or.inl ⟨hkl, rfl⟩
    · exact Or.inr ⟨hkl, hl⟩
  have hset' := @tally_set _ (holds g) (some v) _ _ _ hmid
  omega

/-- `Release` of the frame of an object that is destroyed. -/
theorem Sound.dropping {s₁ : World ε} (h : Sound s) {a b : Nat} (hab : a + b = 1)
    (hframe : s₁.frame = s.frame) (hthread : s₁.thread = s.thread)
    (hholds : ∀ g, tally (holds g) s₁.handles + (if g = f then a else 0) =
      tally (holds g) s.handles)
    (hawaits : ∀ g, tally (awaits g) s₁.awaiters + (if g = f then b else 0) =
      tally (awaits g) s.awaiters) : Releasing s₁ f := by
  have hh := hholds f
  have ha := hawaits f
  rw [if_pos rfl] at hh ha
  obtain ⟨halive, hdestroys⟩ := (h.ref f).alive (by omega)
  constructor
  · rw [hframe]
    exact h.frame
  · apply threads_of
    · rw [hthread, hframe]
      exact h.threads.stacks
    · rw [hthread, hframe]
      exact h.threads.lists
    · rw [hthread, hframe]
      exact h.threads.inner
  · intro g hg
    have hh := hholds g
    have ha := hawaits g
    rw [if_neg hg, Nat.add_zero] at hh ha
    exact (h.ref g).congr hh ha (by rw [hframe]) (by rw [hframe]) (by rw [hframe]) (by rw [hframe])
      (by rw [hframe])
  · have hcount := (h.ref f).count halive.1
    rw [World.total] at hcount
    rw [World.total, hframe]
    omega
  · rw [hframe]
    exact halive
  · rw [hframe]
    exact hdestroys

theorem Sound.dropHandle (h : Sound s) (hk : s.handles[k]? = some (some v)) :
    Sound (release { s with handles := s.handles.set k none } v) := by
  cases v with
  | none =>
    apply h.setHandles
    intro g
    have hset := @tally_set _ (holds g) none _ _ _ hk
    rw [holds_empty, holds_none] at hset
    exact hset
  | some f =>
    refine Releasing.sound (h.dropping (a := 1) (b := 0) (f := f) rfl rfl rfl ?_ ?_)
    · intro g
      have hset := @tally_set _ (holds g) none _ _ _ hk
      rw [holds_some, holds_none] at hset
      exact hset
    · intro g
      rw [ite_self, Nat.add_zero]

theorem Sound.createAwaiter (h : Sound s) (hk : s.handles[k]? = some (some (some f))) :
    Sound { Frames.acquire s (some f) with awaiters := s.awaiters ++ [some f] } := by
  have halive := ((h.ref f).alive (Nat.add_pos_left (holds_pos hk) _)).1
  refine h.acquire (a := 0) (b := 1) (f := f) rfl halive rfl rfl ?_ ?_
  · intro g
    rw [ite_self, Nat.add_zero]
    rfl
  · intro g
    rw [tally_append, tally_cons, tally_nil, awaits_some, Nat.add_zero]

theorem Sound.dropAwaiter (h : Sound s) {w : Nat} (hw : s.awaiters[w]? = some (some f)) :
    Sound (release { s with awaiters := s.awaiters.set w none } (some f)) := by
  refine Releasing.sound (h.dropping (a := 0) (b := 1) (f := f) rfl rfl rfl ?_ ?_)
  · intro g
    rw [ite_self, Nat.add_zero]
  · intro g
    have hset := @tally_set _ (awaits g) none _ _ _ hw
    rw [awaits_some, awaits_none] at hset
    exact hset

/-! ## New frames -/

/-- The references of a new frame are its handle and its execution. -/
theorem RefOk.create (h : ∀ g, RefOk s g) {o : Option Nat} (habsent : (s.frame f).phase = .absent)
    (hp : p ≠ .absent ∧ p ≠ .destroyed)
    (hframe : s'.frame = Function.update s.frame f (newFrame p d o))
    (hhandles : s'.handles = s.handles ++ [some (some f)]) (hawaiters : s'.awaiters = s.awaiters)
    (g : Nat) : RefOk s' g := by
  have hholds : tally (holds g) s'.handles =
      tally (holds g) s.handles + if g = f then 1 else 0 := by
    rw [hhandles, tally_append, tally_cons, tally_nil, holds_some, Nat.add_zero]
  by_cases hg : g = f
  · subst hg
    have hself : s'.frame g = newFrame p d o := by rw [hframe, Function.update_self]
    obtain ⟨hh, ha, _⟩ := (h g).absent habsent
    rw [hh, if_pos rfl] at hholds
    have htotal : s'.total g = 2 := by
      rw [World.total, hholds, hawaiters, ha, hself]
      rfl
    constructor
    · rw [hself]
      intro he
      exact absurd he hp.1
    · intro _
      rw [htotal, hself]
      rfl
    · rw [htotal, hself]
      refine iff_of_false hp.2 ?_
      rintro ⟨_, he⟩
      cases he
    · rw [hself]
      show 0 = if p = .destroyed then 1 else 0
      rw [if_neg hp.2]
  · have hg' : s'.frame g = s.frame g := by rw [hframe, Function.update_of_ne hg]
    rw [if_neg hg, Nat.add_zero] at hholds
    exact (h g).congr hholds (by rw [hawaiters]) (by rw [hg']) (by rw [hg']) (by rw [hg'])
      (by rw [hg']) (by rw [hg'])

/-- A frame that is not there has no place. -/
theorem Sound.unplaced (h : Sound s) (habsent : (s.frame f).phase = .absent) :
    (s.frame f).owner = none ∧ (s.frame f).listed = none :=
  ⟨(h.frame f).owner_eq_none (by rw [habsent]; rfl),
    (h.frame f).listed_eq_none (by rw [habsent]; decide) (by rw [habsent]; decide)⟩

theorem Sound.createQueued (h : Sound s) (habsent : (s.frame f).phase = .absent) :
    Sound { s.setFrame f (newFrame .suspended d none) with
      handles := s.handles ++ [some (some f)] } := by
  obtain ⟨hfree, hunlisted⟩ := h.unplaced habsent
  constructor
  · exact all_update (frameOk_unlisted rfl rfl rfl nofun nofun) fun g _ => h.frame g
  · refine h.threads.setFrame rfl rfl hfree.symm hunlisted.symm (Or.inr ?_)
    intro hrunning
    rw [habsent] at hrunning
    cases hrunning
  · exact RefOk.create (p := .suspended) h.ref habsent ⟨nofun, nofun⟩ rfl rfl rfl

theorem Sound.createInline (h : Sound s) (habsent : (s.frame f).phase = .absent)
    (hrun : s.canRun θ = true) :
    Sound { (s.setFrame f (newFrame .running d (some θ))).setThread θ
        { s.thread θ with stack := f :: (s.thread θ).stack } with
      handles := s.handles ++ [some (some f)] } := by
  obtain ⟨hfree, hunlisted⟩ := h.unplaced habsent
  constructor
  · exact all_update (frameOk_unlisted rfl rfl rfl nofun nofun) fun g _ => h.frame g
  · exact h.threads.push hrun hfree rfl rfl rfl hunlisted.symm
  · exact RefOk.create (p := .running) h.ref habsent ⟨nofun, nofun⟩ rfl rfl rfl

/-! ## `DrainDetached` -/

/-- The frame a thread takes from its list is one it is not in any more. -/
theorem Sound.draining (h : Sound s) {rest : List Nat} (hrun : s.canRun θ = true)
    (hdone : (s.thread θ).detachedDone = f :: rest) :
    (s.frame f).listed = some θ ∧ (s.frame f).drained = false ∧
      (s.frame f).phase = .returned := by
  have hlisted : (s.frame f).listed = some θ := by
    apply (h.threads.done θ f).1
    rw [hdone]
    exact List.mem_cons_self
  obtain ⟨hundrained, hphase⟩ := (h.frame f).listed θ hlisted
  refine ⟨hlisted, hundrained, ?_⟩
  rcases hphase with he | ⟨he, howner⟩
  · exact he
  · have hrunning := h.threads.not_final hrun ((h.threads.stack θ f).2 howner)
    rw [he] at hrunning
    cases hrunning

theorem Sound.drainOne (h : Sound s) {rest : List Nat} (hrun : s.canRun θ = true)
    (hdone : (s.thread θ).detachedDone = f :: rest) :
    Sound (release ((s.setThread θ { s.thread θ with detachedDone := rest }).setFrame f
      { s.frame f with drained := true, listed := none }) (some f)) := by
  obtain ⟨hlisted, hundrained, hphase⟩ := h.draining hrun hdone
  have hok := h.frame f
  apply Releasing.sound
  constructor
  · refine all_update ?_ fun g _ => h.frame g
    exact ⟨hok.owned, nofun, nofun, fun _ => Or.inl hphase⟩
  · refine h.threads.relist rfl rfl rfl ?_ ?_
    · right
      rw [hphase]
      exact nofun
    · refine h.threads.lists.pop (k := θ) (i := f) ?_ ?_ ?_ ?_
      · rw [setFrame_thread, setThread_thread_self, hdone]
      · intro η hη
        rw [setFrame_thread, setThread_thread_ne _ _ hη]
      · rw [setFrame_frame_self]
      · intro g hg
        rw [setFrame_frame_ne _ _ hg]
        rfl
  · intro g hg
    have hg' : ((s.setThread θ { s.thread θ with detachedDone := rest }).setFrame f
        { s.frame f with drained := true, listed := none }).frame g = s.frame g :=
      setFrame_frame_ne _ _ hg
    exact (h.ref g).congr rfl rfl (by rw [hg']) (by rw [hg']) (by rw [hg']) (by rw [hg'])
      (by rw [hg'])
  · have hcount := (h.ref f).count (by rw [hphase]; decide)
    have hone : execution (s.frame f) = 1 := by simp [execution, hundrained]
    rw [World.total, hone] at hcount
    rw [setFrame_frame_self, World.total, setFrame_frame_self]
    show (s.frame f).iReferences =
      tally (holds f) s.handles + tally (awaits f) s.awaiters + 0 + 1
    omega
  · rw [setFrame_frame_self]
    show (s.frame f).phase ≠ .absent ∧ (s.frame f).phase ≠ .destroyed
    rw [hphase]
    exact ⟨by decide, by decide⟩
  · rw [setFrame_frame_self]
    show (s.frame f).destroys = 0
    rw [(h.ref f).destroys, hphase]
    rfl

/-! ## Every step -/

theorem step_sound (h : Sound s) (hs : step s e = some s') : Sound s' := by
  cases step_effect hs with
  | stay => exact h
  | createQueued f d habsent => exact h.createQueued habsent
  | createInline θ f d habsent hrun => exact h.createInline habsent hrun
  | copyHandle k v hk => exact h.copyHandle hk
  | moveHandle k v hk => exact h.moveHandle hk
  | swapHandles k l v w hk hl => exact h.swapHandles hk hl
  | dropHandle k v hk => exact h.dropHandle hk
  | createAwaiter k f hk => exact h.createAwaiter hk
  | dropAwaiter w f hw => exact h.dropAwaiter hw
  | awaitResume w f hw herror => exact h.setFlags rfl rfl rfl rfl rfl rfl
  | startExchange k f hk => exact h.setFlags rfl rfl rfl rfl rfl rfl
  | startTest f m hm => exact h.setFlags rfl rfl rfl rfl rfl rfl
  | startReport f m hm herror =>
    obtain ⟨hphase, howner, hlisted, hdrained, hrefs, hdestroys⟩ := reportError_keeps (s.frame f)
    exact h.setFlags hphase howner hlisted hdrained hrefs hdestroys
  | resume θ f hphase hrun => exact h.resume hphase hrun
  | advance θ f rest p g hg hstack hphase => exact h.advance hg hstack hphase
  | leave θ f rest p q hpq hstack hphase => exact h.leave hpq hstack hphase
  | detachFinished θ f rest hstack hphase => exact h.detachFinished hstack hphase
  | drainOne θ f rest hrun hdone => exact h.drainOne hrun hdone

theorem run_sound {es : List (Event ε)} (h : runFrom step (init ε) es = some s) : Sound s :=
  runFrom_invariant (fun _ _ _ => step_sound) sound_init h

/-! ## When the execution's reference is given back -/

/-- A record keeps whether it was drained. -/
def KeepsDrained (s s' : World ε) : Prop := ∀ f, (s'.frame f).drained = (s.frame f).drained

theorem keepsDrained_setFrame (hx : x.drained = (s.frame f).drained) :
    KeepsDrained s (s.setFrame f x) :=
  update_field Frame.drained hx

theorem keepsDrained_acquire (s : World ε) (o : Option Nat) : KeepsDrained s (acquire s o) := by
  cases o with
  | none => exact fun _ => rfl
  | some f => exact keepsDrained_setFrame rfl

theorem keepsDrained_release (s : World ε) (o : Option Nat) : KeepsDrained s (release s o) := by
  cases o with
  | none => exact fun _ => rfl
  | some f => exact keepsDrained_setFrame (releaseFrame_keeps _).2.2.1

/-- Only `DrainDetached` gives the execution's reference back, and only when `resume` has
returned. -/
theorem Sound.drained_step (h : Sound s) (hs : step s e = some s')
    (hold : (s.frame f).drained = false) (hnew : (s'.frame f).drained = true) :
    (s.frame f).phase = .returned := by
  have hkeep : KeepsDrained s s' → (s.frame f).phase = .returned := by
    intro hk
    rw [hk f, hold] at hnew
    cases hnew
  cases step_effect hs with
  | stay => exact hkeep fun _ => rfl
  | createQueued g d habsent | createInline θ g d habsent hrun =>
    exact hkeep (keepsDrained_setFrame ((h.ref g).absent habsent).2.2.symm)
  | copyHandle k v hk => exact hkeep (keepsDrained_acquire s v)
  | moveHandle k v hk => exact hkeep fun _ => rfl
  | swapHandles k l v w hk hl => exact hkeep fun _ => rfl
  | dropHandle k v hk => exact hkeep (keepsDrained_release _ v)
  | createAwaiter k g hk => exact hkeep (keepsDrained_acquire s (some g))
  | dropAwaiter w g hw => exact hkeep (keepsDrained_release _ (some g))
  | awaitResume w g hw herror => exact hkeep (keepsDrained_setFrame rfl)
  | startExchange k g hk => exact hkeep (keepsDrained_setFrame rfl)
  | startTest g m hm => exact hkeep (keepsDrained_setFrame rfl)
  | startReport g m hm herror =>
    exact hkeep (keepsDrained_setFrame (reportError_keeps (s.frame g)).2.2.2.1)
  | resume θ g hphase hrun => exact hkeep (keepsDrained_setFrame rfl)
  | advance θ g rest p k hk hstack hphase =>
    obtain ⟨_, _, _, _, hdrained, _⟩ := hk.keeps.2 (s.frame g)
    exact hkeep (keepsDrained_setFrame hdrained)
  | leave θ g rest p q hpq hstack hphase => exact hkeep (keepsDrained_setFrame rfl)
  | detachFinished θ g rest hstack hphase => exact hkeep (keepsDrained_setFrame rfl)
  | drainOne θ g rest hrun hdone =>
    by_cases hg : f = g
    · subst hg
      exact (h.draining hrun hdone).2.2
    · rw [keepsDrained_release, setFrame_frame_ne _ _ hg] at hnew
      have hnew : (s.frame f).drained = true := hnew
      rw [hold] at hnew
      cases hnew

/-! ## What holds of every frame -/

/-- **What holds of the references of all frames in every state.** -/
structure DestroyedOnce (s : World ε) : Prop where
  /-- The count is the number of handles and awaiters, and one until the frame was drained. -/
  account : ∀ f, (s.frame f).phase ≠ .absent → (s.frame f).iReferences =
    s.handles.count (some (some f)) + s.awaiters.count (some f) +
      if (s.frame f).drained then 0 else 1
  /-- `destroy` is called on the frames that are destroyed, once. -/
  once : ∀ f, (s.frame f).destroys = if (s.frame f).phase = .destroyed then 1 else 0
  /-- A frame is destroyed exactly when it was drained and nobody refers to it. -/
  destroyed : ∀ f, (s.frame f).phase = .destroyed ↔ (s.frame f).phase ≠ .absent ∧
    s.handles.count (some (some f)) = 0 ∧ s.awaiters.count (some f) = 0 ∧
    (s.frame f).drained = true
  /-- It is destroyed by a step that finds its `final_suspend` over and its `resume` returned. -/
  after : ∀ e s' f, step s e = some s' → (s.frame f).phase ≠ .destroyed →
    (s'.frame f).phase = .destroyed → (s.frame f).phase = .returned
  /-- A finished frame that was not drained is in the list of a thread, and one that ended and is
  still on a stack is not drained. -/
  listed : ∀ f, (s.frame f).phase = .final ∨ (s.frame f).phase = .returned →
    (s.frame f).drained = false → ∃ θ, f ∈ (s.thread θ).detachedDone

theorem tally_holds (f : Nat) (l : List (Option (Option Nat))) :
    tally (holds f) l = l.count (some (some f)) := by
  induction l with
  | nil => rfl
  | cons o l ih =>
    rw [tally_cons, List.count_cons, ih, holds]
    simp only [beq_iff_eq]
    omega

theorem tally_awaits (f : Nat) (l : List (Option Nat)) : tally (awaits f) l = l.count (some f) := by
  induction l with
  | nil => rfl
  | cons o l ih =>
    rw [tally_cons, List.count_cons, ih, awaits]
    simp only [beq_iff_eq]
    omega

theorem total_eq (s : World ε) (f : Nat) : s.total f =
    s.handles.count (some (some f)) + s.awaiters.count (some f) +
      if (s.frame f).drained then 0 else 1 := by
  rw [World.total, tally_holds, tally_awaits]
  rfl

theorem Sound.destroyedOnce (h : Sound s) : DestroyedOnce s where
  account := by
    intro f hp
    rw [(h.ref f).count hp, total_eq]
  once := fun f => (h.ref f).destroys
  destroyed := by
    intro f
    rw [(h.ref f).dead, total_eq]
    constructor
    · rintro ⟨hp, hzero⟩
      refine ⟨hp, by omega, by omega, ?_⟩
      by_contra hd
      rw [if_neg hd] at hzero
      omega
    · rintro ⟨hp, hh, ha, hd⟩
      rw [hh, ha, if_pos hd]
      exact ⟨hp, rfl⟩
  after := by
    intro e s' f hs hold hnew
    have h' := step_sound h hs
    have hdrained : (s'.frame f).drained = true := by
      have hzero := ((h'.ref f).dead.1 hnew).2
      rw [total_eq] at hzero
      by_contra hd
      rw [if_neg hd] at hzero
      omega
    by_cases hd : (s.frame f).drained = true
    · rcases (h.frame f).drained hd with he | he
      · exact he
      · exact absurd he hold
    · exact h.drained_step hs (by simpa using hd) hdrained
  listed := by
    intro f hp hd
    obtain ⟨θ, hθ⟩ := Option.isSome_iff_exists.1 ((h.frame f).finished hp hd)
    exact ⟨θ, (h.threads.done θ f).2 hθ⟩

/-- **A frame is destroyed once, after its execution.** In every state of every run of any number of
threads, that make, copy, move, swap and destroy handles, make and destroy awaiters, run frames in
place and from the queue, end them and drain their lists, in whatever order: the count of a frame is
the number of its references, and the frame is destroyed, once, when it has none left, which is
after its `resume` has returned. -/
theorem destroyed_once {es : List (Event ε)} {s : World ε}
    (h : runFrom step (init ε) es = some s) : DestroyedOnce s :=
  (run_sound h).destroyedOnce

/-- A coroutine runs a task in place, which ends there, and waits for it: `await_ready` drains the
list inside of the outer frame. The handle is assigned to itself and moved; with the awaiter and the
last handle the inner frame goes. -/
def inlineRun : List (Event Unit) :=
  [.createQueued 0 false, .resume 0 0, .createInline 0 1 false, .bodyReturn 0, .setReady 0,
    .detachFinished 0, .resumeReturn 0, .createAwaiter 1, .drainOne 0, .copyHandle 1,
    .swapHandles 1 2, .dropHandle 2, .moveHandle 1, .dropHandle 1, .dropAwaiter 0, .dropHandle 3]

theorem destroyed_once_inlineRun : ∃ s, runFrom step (init Unit) inlineRun = some s ∧
    DestroyedOnce s ∧ (s.frame 1).phase = .destroyed ∧ (s.frame 1).destroys = 1 ∧
    (s.frame 0).phase = .running ∧ (s.frame 0).iReferences = 2 := by
  have hrun : (runFrom step (init Unit) inlineRun).map (fun s => decide
      ((s.frame 1).phase = .destroyed ∧ (s.frame 1).destroys = 1 ∧
        (s.frame 0).phase = .running ∧ (s.frame 0).iReferences = 2)) = some true := by
    decide +kernel
  obtain ⟨s, hs, hfacts⟩ := Option.map_eq_some_iff.1 hrun
  exact ⟨s, hs, destroyed_once hs, of_decide_eq_true hfacts⟩

end OpenIdea.Coro.Frames

import OpenIdea.Coro.FrameReferences

/-!
# What becomes of a task's exception

Three flags of a frame decide who speaks of its exception. `bDetached` is exchanged by `Start` under
the mutex and read by `unhandled_exception` without it; `bObserved` is stored by an `await_resume`
that rethrows; `bErrorReported` is exchanged by `ReportError`. `Move` lists what one step of the
system can do to the record of one frame; all the rest is read off it. The flags and the exception
agree in every run (`run_errOk`), so an exception is told once (`error_told_once`).
-/

set_option autoImplicit false

namespace OpenIdea.Coro.Frames

open OpenIdea.Lib.Places OpenIdea.Lib.Runs

variable {ε : Type}

/-! ## What a step does to a record -/

/-- How far a frame is with its exception. -/
inductive Stage where
  /-- The body has not ended. -/
  | early
  | stored
  | seen
  /-- `unhandled_exception` is over, or the body ended without an exception. -/
  | late
  | destroyed
  deriving DecidableEq, Repr

def Phase.stage : Phase → Stage
  | .absent => .early
  | .suspended => .early
  | .running => .early
  | .stored => .stored
  | .seen => .seen
  | .ended => .late
  | .ready => .late
  | .final => .late
  | .returned => .late
  | .destroyed => .destroyed

/-- A record with another position and another count. -/
def Frame.place (x : Frame ε) (p : Phase) (n : Nat) (o l : Option Nat) (d : Bool) : Frame ε :=
  { x with phase := p, iReferences := n, owner := o, listed := l, drained := d }

/-- What one step of the system can do to the record of a frame. -/
inductive Move : Frame ε → Frame ε → Prop where
  | place {x : Frame ε} (p : Phase) (n : Nat) (o l : Option Nat) (d : Bool) :
      p.stage = x.phase.stage → (p = .absent → x.phase = .absent) → Move x (x.place p n o l d)
  | create {x : Frame ε} (p : Phase) (bDetached : Bool) (o : Option Nat) :
      x.phase = .absent → p.stage = .early → p ≠ .absent → Move x (newFrame p bDetached o)
  | bodyReturn {x : Frame ε} : x.phase = .running → Move x { x with phase := .ended }
  | bodyThrow {x : Frame ε} (e : ε) : x.phase = .running →
      Move x { x with phase := .stored, stError := some e }
  | loadDetached {x : Frame ε} : x.phase = .stored →
      Move x { x with phase := if x.bDetached then .seen else .ended }
  | reportSelf {x : Frame ε} : x.phase = .seen → Move x { reportError x with phase := .ended }
  | setReady {x : Frame ε} : x.phase = .ended → Move x { x with phase := .ready, bReady := true }
  | awaitResume {x : Frame ε} : x.phase ≠ .destroyed → x.stError.isSome = true →
      Move x { x with bObserved := true, rethrown := true }
  | startExchange {x : Frame ε} (h : Nat) : x.phase ≠ .absent →
      Move x { x with stMutex := some (h, x.bDetached), bDetached := true }
  | startTest {x : Frame ε} (m : Nat × Bool) : x.stMutex = some m →
      Move x { x with stMutex := none }
  | startReport {x : Frame ε} (m : Nat × Bool) : x.stMutex = some m → x.stError.isSome = true →
      Move x { reportError x with stMutex := none }
  | release {x : Frame ε} (l : Option Nat) (d : Bool) : x.phase ≠ .destroyed →
      Move x (releaseFrame { x with listed := l, drained := d })

theorem Move.refl (x : Frame ε) : Move x x :=
  Move.place x.phase x.iReferences x.owner x.listed x.drained rfl id

variable {s : World ε} {x : Frame ε}

/-- A step that changes one record. -/
theorem move_setFrame {f : Nat} (h : Move (s.frame f) x) :
    ∀ g, Move (s.frame g) ((s.setFrame f x).frame g) :=
  all_update (P := fun g y => Move (s.frame g) y) h fun _ _ => Move.refl _

theorem move_acquire (s : World ε) (o : Option Nat) :
    ∀ g, Move (s.frame g) ((acquire s o).frame g) := by
  cases o with
  | none => exact fun g => Move.refl _
  | some f => exact move_setFrame (Move.place _ _ _ _ _ rfl id)

/-- A reference is given back that was there. -/
theorem move_release {s : World ε} {o : Option Nat}
    (h : ∀ f, o = some f → (s.frame f).phase ≠ .destroyed) :
    ∀ g, Move (s.frame g) ((release s o).frame g) := by
  cases o with
  | none => exact fun g => Move.refl _
  | some f =>
    have hmove := Move.release (s.frame f).listed (s.frame f).drained (h f rfl)
    exact move_setFrame hmove

/-- **What a step does to every record.** -/
theorem Sound.move {s' : World ε} {e : Event ε} (h : Sound s) (hs : step s e = some s') :
    ∀ g, Move (s.frame g) (s'.frame g) := by
  cases step_effect hs with
  | stay => exact fun g => Move.refl _
  | createQueued f d habsent => exact move_setFrame (Move.create .suspended d none habsent rfl nofun)
  | createInline θ f d habsent hrun =>
    exact move_setFrame (Move.create .running d (some θ) habsent rfl nofun)
  | copyHandle k v hk => exact move_acquire s v
  | moveHandle k v hk => exact fun g => Move.refl _
  | swapHandles k l v w hk hl => exact fun g => Move.refl _
  | dropHandle k v hk =>
    refine @move_release _ { s with handles := s.handles.set k none } v ?_
    rintro f rfl
    have hpos := holds_pos hk
    exact ((h.ref f).alive (by omega)).1.2
  | createAwaiter k f hk => exact move_acquire s (some f)
  | dropAwaiter w f hw =>
    refine @move_release _ { s with awaiters := s.awaiters.set w none } (some f) ?_
    rintro _ ⟨⟩
    have hpos := awaits_pos hw
    exact ((h.ref f).alive (by omega)).1.2
  | awaitResume w f hw herror =>
    have hpos := awaits_pos hw
    exact move_setFrame (Move.awaitResume ((h.ref f).alive (by omega)).1.2 herror)
  | startExchange k f hk =>
    have hpos := holds_pos hk
    exact move_setFrame (Move.startExchange k ((h.ref f).alive (by omega)).1.1)
  | startTest f m hm => exact move_setFrame (Move.startTest m hm)
  | startReport f m hm herror => exact move_setFrame (Move.startReport m hm herror)
  | resume θ f hphase hrun =>
    refine move_setFrame (Move.place .running _ (some θ) _ _ ?_ nofun)
    rw [hphase]
    rfl
  | advance θ f rest p g hg hstack hphase =>
    apply move_setFrame
    cases hg with
    | bodyReturn => exact Move.bodyReturn hphase
    | bodyThrow e => exact Move.bodyThrow e hphase
    | loadDetached => exact Move.loadDetached hphase
    | reportSelf => exact Move.reportSelf hphase
    | setReady => exact Move.setReady hphase
  | leave θ f rest p q hpq hstack hphase =>
    rcases hpq with ⟨rfl, rfl⟩ | ⟨rfl, rfl⟩
    · refine move_setFrame (Move.place .suspended _ none _ _ ?_ nofun)
      rw [hphase]
      rfl
    · refine move_setFrame (Move.place .returned _ none _ _ ?_ nofun)
      rw [hphase]
      rfl
  | detachFinished θ f rest hstack hphase =>
    refine move_setFrame (Move.place .final _ _ (some θ) _ ?_ nofun)
    rw [hphase]
    rfl
  | drainOne θ f rest hrun hdone =>
    have halive : (s.frame f).phase ≠ .destroyed := by
      rw [(h.draining hrun hdone).2.2]
      decide
    -- the record is marked and released in one step
    have hmove := Move.release none true halive
    intro g
    by_cases hg : g = f
    · subst hg
      rw [release, setFrame_frame_self, setFrame_frame_self]
      exact hmove
    · rw [release, setFrame_frame_ne _ _ hg, setFrame_frame_ne _ _ hg]
      exact Move.refl _

/-! ## The exception of a frame -/

/-- **The invariant of a frame's exception.** -/
structure ErrOk (x : Frame ε) : Prop where
  absent : x.phase = .absent → x.bDetached = false
  reports : x.reports = if x.bErrorReported then 1 else 0
  rethrown : x.rethrown = x.bObserved
  early : x.phase.stage = .early → x.stError = none
  stored : x.phase.stage = .stored ∨ x.phase.stage = .seen → x.stError.isSome = true
  seen : x.phase.stage = .seen → x.bDetached = true
  mutex : x.stMutex.isSome = true → x.bDetached = true
  /-- Only an exception is reported or rethrown. -/
  error : x.bErrorReported = true ∨ x.bObserved = true → x.stError.isSome = true
  /-- Who reports is a detached task, or the last reference of one that nobody has seen. -/
  reporter : x.bErrorReported = true →
    x.bDetached = true ∨ x.phase = .destroyed ∧ x.bObserved = false
  /-- The last reference leaves nothing unsaid. -/
  told : x.phase = .destroyed → x.stError.isSome = true → x.bObserved = false →
    x.bErrorReported = true

theorem errOk_noFrame : ErrOk (noFrame ε) := by
  constructor <;> simp [noFrame, Phase.stage]

/-- `ReportError` of an exception that is there, by who may report it. -/
theorem ErrOk.reportError (h : ErrOk x) (herror : x.stError.isSome = true)
    (hdetached : x.bDetached = true) : ErrOk (reportError x) := by
  rw [Frames.reportError]
  split
  case isTrue => exact h
  case isFalse hnot =>
    refine ⟨h.absent, ?_, h.rethrown, h.early, h.stored, h.seen, h.mutex, ?_, ?_, ?_⟩
    · have hzero := h.reports
      rw [if_neg hnot] at hzero
      show x.reports + 1 = 1
      omega
    · exact fun _ => herror
    · exact fun _ => Or.inl hdetached
    · exact fun _ _ _ => rfl

theorem reportError_detached (x : Frame ε) : (reportError x).bDetached = x.bDetached := by
  rw [reportError]
  split
  · rfl
  · rfl

theorem reportError_error (x : Frame ε) : (reportError x).stError = x.stError := by
  rw [reportError]
  split
  · rfl
  · rfl

/-- The body has ended and `unhandled_exception` is over. -/
theorem ErrOk.ended {x : Frame ε} (h : ErrOk x) (hphase : x.phase ≠ .destroyed) {p : Phase}
    (hp : p.stage = .late) : ErrOk { x with phase := p } := by
  have hlate : p ≠ .destroyed := by
    rintro rfl
    cases hp
  have hnew : p ≠ .absent := by
    rintro rfl
    cases hp
  refine ⟨fun he => absurd he hnew, h.reports, h.rethrown, ?_, ?_, ?_, h.mutex, h.error, ?_, ?_⟩
  · intro he
    rw [hp] at he
    cases he
  · intro he
    rw [hp] at he
    rcases he with he | he <;> cases he
  · intro he
    rw [hp] at he
    cases he
  · intro hr
    rcases h.reporter hr with hd | ⟨hd, _⟩
    · exact Or.inl hd
    · exact absurd hd hphase
  · exact fun hd => absurd hd hlate

theorem stage_destroyed {p : Phase} : p.stage = .destroyed ↔ p = .destroyed := by
  cases p <;> simp [Phase.stage]

/-- The last reference reports what nobody has seen. -/
theorem ErrOk.releaseFrame (h : ErrOk x) (hphase : x.phase ≠ .destroyed) :
    ErrOk (releaseFrame x) := by
  -- before the last reference only a detached task has reported
  have hdetached : x.bErrorReported = true → x.bDetached = true := by
    intro hr
    rcases h.reporter hr with hd | ⟨hd, _⟩
    · exact hd
    · exact absurd hd hphase
  simp only [Frames.releaseFrame]
  split
  case isFalse =>
    exact { h with }
  case isTrue =>
    split
    case isTrue hcond =>
      rw [Bool.and_eq_true] at hcond
      obtain ⟨herror, hobserved⟩ := hcond
      have hobserved : x.bObserved = false := by simpa using hobserved
      rw [Frames.reportError]
      split
      case isTrue hr =>
        refine ⟨?_, h.reports, h.rethrown, ?_, ?_, ?_, h.mutex, h.error, ?_, ?_⟩
        · exact fun he => by cases he
        · exact fun he => by cases he
        · exact fun _ => herror
        · exact fun he => by cases he
        · exact fun _ => Or.inl (hdetached hr)
        · exact fun _ _ _ => hr
      case isFalse hr =>
        refine ⟨(fun he => by cases he), ?_, h.rethrown, ?_, ?_, ?_, h.mutex, ?_, ?_, ?_⟩
        · have hzero := h.reports
          have hr : x.bErrorReported = false := by simpa using hr
          rw [hr] at hzero
          show x.reports + 1 = 1
          rw [hzero]
          rfl
        · exact fun he => by cases he
        · exact fun _ => herror
        · exact fun he => by cases he
        · exact fun _ => herror
        · exact fun _ => Or.inr ⟨rfl, hobserved⟩
        · exact fun _ _ _ => rfl
    case isFalse hcond =>
      refine ⟨(fun he => by cases he), h.reports, h.rethrown, ?_, ?_, ?_, h.mutex, h.error, ?_, ?_⟩
      · exact fun he => by cases he
      · rintro (he | he) <;> cases he
      · exact fun he => by cases he
      · exact fun hr => Or.inl (hdetached hr)
      · intro _ herror hobserved
        have herror : x.stError.isSome = true := herror
        have hobserved : x.bObserved = false := hobserved
        exact absurd (by simp [herror, hobserved]) hcond

/-- Every step keeps the invariant of a record. -/
theorem ErrOk.move {y : Frame ε} (h : ErrOk x) (hmove : Move x y) : ErrOk y := by
  cases hmove with
  | place p n o l d hp hab =>
    have hdead : p = .destroyed ↔ x.phase = .destroyed := by
      rw [← stage_destroyed, hp, stage_destroyed]
    refine ⟨?_, h.reports, h.rethrown, ?_, ?_, ?_, h.mutex, h.error, ?_, ?_⟩
    · exact fun he => h.absent (hab he)
    · exact fun he => h.early (hp.symm.trans he)
    · rintro (he | he)
      · exact h.stored (Or.inl (hp.symm.trans he))
      · exact h.stored (Or.inr (hp.symm.trans he))
    · exact fun he => h.seen (hp.symm.trans he)
    · intro hr
      rcases h.reporter hr with hd | ⟨hd, ho⟩
      · exact Or.inl hd
      · exact Or.inr ⟨hdead.2 hd, ho⟩
    · exact fun hd => h.told (hdead.1 hd)
  | create p d o _ hp hne =>
    have hdead : p ≠ .destroyed := by
      rintro rfl
      cases hp
    refine ⟨fun he => absurd he hne, rfl, rfl, fun _ => rfl, ?_, ?_, ?_, ?_, ?_, ?_⟩
    · intro he
      have he : p.stage = .stored ∨ p.stage = .seen := he
      rw [hp] at he
      rcases he with he | he <;> cases he
    · intro he
      have he : p.stage = .seen := he
      rw [hp] at he
      cases he
    · exact fun he => by cases he
    · rintro (he | he) <;> cases he
    · exact fun he => by cases he
    · exact fun he => absurd he hdead
  | bodyReturn hp =>
    refine h.ended ?_ rfl
    rw [hp]
    decide
  | bodyThrow e hp =>
    refine ⟨?_, h.reports, h.rethrown, ?_, fun _ => rfl, ?_, h.mutex, fun _ => rfl, ?_, ?_⟩
    · exact fun he => by cases he
    · exact fun he => by cases he
    · exact fun he => by cases he
    · intro hr
      rcases h.reporter hr with hd | ⟨hd, _⟩
      · exact Or.inl hd
      · rw [hp] at hd
        cases hd
    · exact fun he => by cases he
  | loadDetached hp =>
    split
    case isTrue hd =>
      refine ⟨?_, h.reports, h.rethrown, ?_, ?_, fun _ => hd, h.mutex, h.error, ?_, ?_⟩
      · exact fun he => by cases he
      · exact fun he => by cases he
      · intro _
        apply h.stored
        left
        rw [hp]
        rfl
      · exact fun _ => Or.inl hd
      · exact fun he => by cases he
    case isFalse =>
      refine h.ended ?_ rfl
      rw [hp]
      decide
  | reportSelf hp =>
    have hseen : x.phase.stage = .seen := by
      rw [hp]
      rfl
    refine (h.reportError (h.stored (Or.inr hseen)) (h.seen hseen)).ended ?_ rfl
    rw [(reportError_keeps x).1, hp]
    decide
  | setReady hp =>
    have hlate : x.phase ≠ .destroyed := by
      rw [hp]
      decide
    have hready := @ErrOk.ended _ x h hlate .ready rfl
    exact { hready with }
  | awaitResume hp herror =>
    refine ⟨h.absent, h.reports, rfl, h.early, h.stored, h.seen, h.mutex, fun _ => herror, ?_, ?_⟩
    · intro hr
      rcases h.reporter hr with hd | ⟨hd, _⟩
      · exact Or.inl hd
      · exact absurd hd hp
    · exact fun he => absurd he hp
  | startExchange k hp =>
    exact { h with
      absent := fun he => absurd he hp
      seen := fun _ => rfl
      mutex := fun _ => rfl
      reporter := fun _ => Or.inl rfl }
  | startTest m hm =>
    exact { h with mutex := fun he => by cases he }
  | startReport m hm herror =>
    have hdetached : x.bDetached = true := by
      apply h.mutex
      rw [hm]
      rfl
    have hr := h.reportError herror hdetached
    exact { hr with mutex := fun he => by cases he }
  | release l d hp =>
    refine ErrOk.releaseFrame ?_ hp
    exact { h with }

/-! ## Every run -/

theorem run_errOk {es : List (Event ε)} (h : runFrom step (init ε) es = some s) :
    ∀ f, ErrOk (s.frame f) := by
  have hboth : Sound s ∧ ∀ f, ErrOk (s.frame f) := by
    refine @runFrom_invariant _ _ step (fun s => Sound s ∧ ∀ f, ErrOk (s.frame f)) ?_ _ _ _
      ⟨sound_init, fun _ => errOk_noFrame⟩ h
    intro s e s' hI hs
    exact ⟨step_sound hI.1 hs, fun f => (hI.2 f).move (hI.1.move hs f)⟩
  exact hboth.2

/-- An exception is stored for good, and a task that was detached stays so. -/
theorem ErrOk.stays {y : Frame ε} (h : ErrOk x) (hmove : Move x y) :
    (x.stError.isSome = true → y.stError = x.stError) ∧
      (x.bDetached = true → y.bDetached = true) := by
  cases hmove with
  | place p n o l d hp hab => exact ⟨fun _ => rfl, id⟩
  | create p d o hp hstage hne =>
    have hnone : x.stError = none := by
      apply h.early
      rw [hp]
      rfl
    constructor
    · intro hsome
      rw [hnone] at hsome
      cases hsome
    · intro hd
      rw [h.absent hp] at hd
      cases hd
  | bodyReturn hp => exact ⟨fun _ => rfl, id⟩
  | bodyThrow e hp =>
    have hnone : x.stError = none := by
      apply h.early
      rw [hp]
      rfl
    constructor
    · intro hsome
      rw [hnone] at hsome
      cases hsome
    · exact id
  | loadDetached hp => exact ⟨fun _ => rfl, id⟩
  | reportSelf hp =>
    constructor
    · exact fun _ => reportError_error x
    · exact fun hd => (reportError_detached x).trans hd
  | setReady hp => exact ⟨fun _ => rfl, id⟩
  | awaitResume hp herror => exact ⟨fun _ => rfl, id⟩
  | startExchange k hp => exact ⟨fun _ => rfl, fun _ => rfl⟩
  | startTest m hm => exact ⟨fun _ => rfl, id⟩
  | startReport m hm herror =>
    constructor
    · exact fun _ => reportError_error x
    · exact fun hd => (reportError_detached x).trans hd
  | release l d hp =>
    simp only [Frames.releaseFrame]
    split
    · split
      · constructor
        · exact fun _ => reportError_error _
        · exact fun hd => (reportError_detached _).trans hd
      · exact ⟨fun _ => rfl, id⟩
    · exact ⟨fun _ => rfl, id⟩

/-- **What holds of the exceptions of all tasks in every state.** -/
structure ErrorTold (s : World ε) : Prop where
  /-- `ReportTaskError` is called at most once, and for an exception. -/
  once : ∀ f, (s.frame f).reports ≤ 1 ∧
    (0 < (s.frame f).reports → (s.frame f).stError.isSome = true)
  /-- A destroyed frame has an exception that was rethrown, or reported, or none. -/
  told : ∀ f, (s.frame f).phase = .destroyed → (s.frame f).stError.isSome = true →
    (s.frame f).rethrown = false → (s.frame f).reports = 1
  /-- An exception of a task that was never detached, once rethrown, is not reported. -/
  silent : ∀ f, (s.frame f).bDetached = false → (s.frame f).rethrown = true →
    (s.frame f).reports = 0
  /-- An exception stays the same, and so does a task that was detached. -/
  stays : ∀ e s' f, step s e = some s' →
    ((s.frame f).stError.isSome = true → (s'.frame f).stError = (s.frame f).stError) ∧
      ((s.frame f).bDetached = true → (s'.frame f).bDetached = true)

/-- **No exception of a task is lost or reported twice.** In every state of every run, with tasks
launched detached or not, `Start` calls on any of their handles, awaits that rethrow, and handles
and awaiters released in whatever order: an exception is reported at most once; when the frame is
gone and no `await_resume` rethrew it, it was reported; and if the task was never detached and one
rethrew it, it is not. -/
theorem error_told_once {es : List (Event ε)} {s : World ε}
    (h : runFrom step (init ε) es = some s) : ErrorTold s where
  once := by
    intro f
    have hok := run_errOk h f
    rw [hok.reports]
    split
    case isTrue hr => exact ⟨Nat.le_refl 1, fun _ => hok.error (Or.inl hr)⟩
    case isFalse => exact ⟨Nat.zero_le 1, fun hpos => absurd hpos (Nat.lt_irrefl 0)⟩
  told := by
    intro f hp herror hrethrown
    have hok := run_errOk h f
    rw [hok.rethrown] at hrethrown
    rw [hok.reports, if_pos (hok.told hp herror hrethrown)]
  silent := by
    intro f hdetached hrethrown
    have hok := run_errOk h f
    rw [hok.reports, if_neg]
    intro hr
    rcases hok.reporter hr with hd | ⟨_, ho⟩
    · rw [hdetached] at hd
      cases hd
    · rw [hok.rethrown, ho] at hrethrown
      cases hrethrown
  stays := by
    intro e s' f hs
    exact (run_errOk h f).stays ((run_sound h).move hs f)

/-- Three tasks throw: the first is awaited and not detached, the second is started after its end,
the third is dropped by everybody. -/
def threeThrows : List (Event Unit) :=
  [.createQueued 0 false, .resume 0 0, .createAwaiter 0, .bodyThrow 0 (), .loadDetached 0,
    .setReady 0, .detachFinished 0, .resumeReturn 0, .awaitResume 0, .drainOne 0, .dropAwaiter 0,
    .dropHandle 0,
    .createQueued 1 false, .resume 0 1, .bodyThrow 0 (), .loadDetached 0, .setReady 0,
    .startExchange 1, .startTest 1, .detachFinished 0, .resumeReturn 0, .drainOne 0, .dropHandle 1,
    .createQueued 2 false, .dropHandle 2, .resume 1 2, .bodyThrow 1 (), .loadDetached 1,
    .setReady 1, .detachFinished 1, .resumeReturn 1, .drainOne 1]

theorem error_told_once_threeThrows : ∃ s, runFrom step (init Unit) threeThrows = some s ∧
    ErrorTold s ∧ (s.frame 0).phase = .destroyed ∧ (s.frame 0).stError.isSome = true ∧
    (s.frame 0).reports = 0 ∧ (s.frame 1).phase = .destroyed ∧ (s.frame 1).reports = 1 ∧
    (s.frame 2).phase = .destroyed ∧ (s.frame 2).reports = 1 := by
  have hrun : (runFrom step (init Unit) threeThrows).map (fun s => decide
      ((s.frame 0).phase = .destroyed ∧ (s.frame 0).stError.isSome = true ∧
        (s.frame 0).reports = 0 ∧ (s.frame 1).phase = .destroyed ∧ (s.frame 1).reports = 1 ∧
        (s.frame 2).phase = .destroyed ∧ (s.frame 2).reports = 1)) = some true := by
    decide +kernel
  obtain ⟨s, hs, hfacts⟩ := Option.map_eq_some_iff.1 hrun
  exact ⟨s, hs, error_told_once hs, of_decide_eq_true hfacts⟩

end OpenIdea.Coro.Frames

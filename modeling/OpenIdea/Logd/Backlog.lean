import OpenIdea.Logd.Accounts

/-!
# Back-pressure

The invariants of the waiting sessions.  `Queue`: a session waits once, with a whole frame at the
front of its buffer whose size is the one it is queued with; a session that is resumed finds the
space for that frame.  `Turns`: a resume is posted or under way whenever the head of the queue
fits.  Every step keeps both (`Backlog.step`), so they hold in every reachable state
(`Reachable.backlog`).
-/

set_option autoImplicit false

namespace OpenIdea.Logd

open OpenIdea.Lib OpenIdea.Lib.Runs

namespace Daemon

/-! ## The waiting sessions -/

/-- The sessions in `m_vWaitingSessions`. -/
def waiters (s : Daemon) : List Nat := s.waitingSessions.map WaitingLog.pSession

/-- The buffer of the session starts with a whole frame of `iBytes` with its title. -/
def Awaits (s : Daemon) (sid iBytes : Nat) : Prop :=
  ∃ f rest, nextFrame (s.sessions sid).stInputBuffer = .message f rest ∧
    iBytes = f.text.length + 9

/-- What holds of the waiting sessions and of the one that is resumed. -/
structure Queue (s : Daemon) : Prop where
  distinct : s.waiters.Nodup
  waiting : ∀ sid, (s.sessions sid).waiting = true ↔ sid ∈ s.waiters
  awaits : ∀ w ∈ s.waitingSessions, s.Awaits w.pSession w.iBytes
  idle : s.runner = .idle → s.resumingSession = none
  parsing : ∀ {sid iUsed iFrames resuming}, s.runner = .parsing sid iUsed iFrames resuming →
    (s.sessions sid).waiting = false ∧ s.resumingSession = if resuming then some sid else none
  resumed : ∀ {sid}, s.runner = .resumed sid → s.resumingSession = some sid
  /-- nothing has been used yet: the frame that was waited for is there, and so is the space -/
  first : ∀ {sid iFrames}, s.runner = .parsing sid 0 iFrames true →
    ∃ f rest, nextFrame (s.sessions sid).stInputBuffer = .message f rest ∧
      f.text.length + 9 ≤ s.space

variable {s s' : Daemon} {iUsed iFrames sid : Nat} {resuming : Bool}

/-- The queue does not mind what happens to the levels, as long as no space is taken from a session
that is resumed. -/
theorem Queue.congr (h : s.Queue) (hwaiting : s'.waitingSessions = s.waitingSessions)
    (hresuming : s'.resumingSession = s.resumingSession) (hrunner : s'.runner = s.runner)
    (hbuffer : ∀ sid, (s'.sessions sid).stInputBuffer = (s.sessions sid).stInputBuffer)
    (hflag : ∀ sid, (s'.sessions sid).waiting = (s.sessions sid).waiting)
    (hspace : s.space ≤ s'.space ∨ s.resumingSession = none) : s'.Queue where
  distinct := by
    rw [waiters, hwaiting]
    exact h.distinct
  waiting := fun sid => by
    rw [hflag, waiters, hwaiting]
    exact h.waiting sid
  awaits := fun w hw => by
    rw [hwaiting] at hw
    rw [Awaits, hbuffer]
    exact h.awaits w hw
  idle := fun hr => by
    rw [hrunner] at hr
    rw [hresuming]
    exact h.idle hr
  parsing := fun hr => by
    rw [hrunner] at hr
    rw [hflag, hresuming]
    exact h.parsing hr
  resumed := fun hr => by
    rw [hrunner] at hr
    rw [hresuming]
    exact h.resumed hr
  first := fun {sid _} hr => by
    rw [hrunner] at hr
    obtain ⟨f, rest, hnext, hfits⟩ := h.first hr
    -- with no session resumed there is no frame that space is kept for
    rcases hspace with hspace | hnone
    · exact ⟨f, rest, by rw [hbuffer, hnext], Nat.le_trans hfits hspace⟩
    · have hsome := (h.parsing hr).2
      rw [hnone, if_pos rfl] at hsome
      exact absurd hsome (Option.some_ne_none sid).symm

theorem Queue.scheduleResume (h : s.Queue) : s.scheduleResume.Queue :=
  h.congr (by simp) (by simp) (by simp) (fun _ => by simp) (fun _ => by simp) (Or.inl (by simp))

/-- A change of one session that leaves its buffer and its flag alone. -/
theorem Queue.setSession (h : s.Queue) {v : LogServerSession}
    (hbuffer : v.stInputBuffer = (s.sessions sid).stInputBuffer)
    (hflag : v.waiting = (s.sessions sid).waiting) : (s.setSession sid v).Queue := by
  refine h.congr rfl rfl rfl (fun other => ?_) (fun other => ?_) (Or.inl (Nat.le_refl _))
  · by_cases ho : other = sid
    · rw [ho, setSession_self, hbuffer]
    · rw [setSession_ne _ _ _ ho]
  · by_cases ho : other = sid
    · rw [ho, setSession_self, hflag]
    · rw [setSession_ne _ _ _ ho]

/-- The runner is back from `OnDataIn`; the rest of the invariant is untouched by this. -/
theorem Queue.leave (hdistinct : s.waiters.Nodup)
    (hwaiting : ∀ sid, (s.sessions sid).waiting = true ↔ sid ∈ s.waiters)
    (hawaits : ∀ w ∈ s.waitingSessions, s.Awaits w.pSession w.iBytes)
    (hresuming : s.resumingSession = if resuming then some sid else none) :
    (s.leave sid resuming).Queue := by
  cases resuming with
  | false =>
    rw [Daemon.leave, if_neg (by decide)]
    rw [if_neg (by decide)] at hresuming
    exact ⟨hdistinct, hwaiting, hawaits, fun _ => hresuming, fun h => (nomatch h),
      fun h => (nomatch h), fun h => (nomatch h)⟩
  | true =>
    rw [Daemon.leave, if_pos rfl]
    rw [if_pos rfl] at hresuming
    -- what ends here is a mark of the session, which the queue does not look at
    have hview : ∀ other,
        ((s.setSession sid (s.sessions sid).endResume).sessions other).stInputBuffer =
            (s.sessions other).stInputBuffer ∧
          ((s.setSession sid (s.sessions sid).endResume).sessions other).waiting =
            (s.sessions other).waiting := by
      intro other
      by_cases ho : other = sid
      · rw [ho, setSession_self]
        exact ⟨rfl, rfl⟩
      · rw [setSession_ne _ _ _ ho]
        exact ⟨rfl, rfl⟩
    refine ⟨hdistinct, fun other => ?_, fun w hw => ?_, fun h => (nomatch h),
      fun h => (nomatch h), fun h => ?_, fun h => (nomatch h)⟩
    · show ((s.setSession sid (s.sessions sid).endResume).sessions other).waiting = true ↔ _
      rw [(hview other).2]
      exact hwaiting other
    · show ∃ f rest, nextFrame
        ((s.setSession sid (s.sessions sid).endResume).sessions w.pSession).stInputBuffer = _ ∧ _
      rw [(hview w.pSession).1]
      exact hawaits w hw
    · rw [← Runner.resumed.inj h]
      exact hresuming

/-- The session whose data is looked at does not wait. -/
theorem Queue.not_waiting (h : s.Queue) (hrunner : s.runner = .parsing sid iUsed iFrames resuming) :
    sid ∉ s.waiters := by
  intro hmem
  have hflag := (h.parsing hrunner).1
  rw [(h.waiting sid).2 hmem] at hflag
  cases hflag

/-- `OnDataIn` ends for a session that does not wait. -/
theorem Queue.endOnDataIn (h : s.Queue) (hrunner : s.runner = .parsing sid iUsed iFrames resuming) :
    (s.endOnDataIn sid iUsed resuming).Queue := by
  have hresuming := (h.parsing hrunner).2
  have hout := h.not_waiting hrunner
  rw [Daemon.endOnDataIn]
  refine Queue.leave h.distinct (fun other => ?_) (fun w hw => ?_) hresuming
  · by_cases ho : other = sid
    · rw [ho, setSession_self]
      exact h.waiting sid
    · rw [setSession_ne _ _ _ ho]
      exact h.waiting other
  · -- the buffer loses its front, but no session in the queue is the one that ends
    have ho : w.pSession ≠ sid := fun he => hout (he ▸ List.mem_map_of_mem hw)
    rw [Awaits, setSession_ne _ _ _ ho]
    exact h.awaits w hw

section QueueWaiter

variable (s : Daemon) (sid iBytes : Nat)

@[simp] theorem queueWaiter_iMaxPendingBytes :
    (s.queueWaiter sid iBytes).iMaxPendingBytes = s.iMaxPendingBytes := by
  simp [queueWaiter, Daemon.setSession]

@[simp] theorem queueWaiter_iPendingBytes :
    (s.queueWaiter sid iBytes).iPendingBytes = s.iPendingBytes := by
  simp [queueWaiter, Daemon.setSession]

@[simp] theorem queueWaiter_waitingSessions :
    (s.queueWaiter sid iBytes).waitingSessions = s.waitingSessions ++ [⟨sid, iBytes⟩] := by
  simp [queueWaiter]

@[simp] theorem queueWaiter_resumingSession :
    (s.queueWaiter sid iBytes).resumingSession = s.resumingSession := by
  simp [queueWaiter, Daemon.setSession]

@[simp] theorem queueWaiter_logFiles : (s.queueWaiter sid iBytes).logFiles = s.logFiles := by
  simp [queueWaiter, Daemon.setSession]

@[simp] theorem queueWaiter_runner : (s.queueWaiter sid iBytes).runner = s.runner := by
  simp [queueWaiter, Daemon.setSession]

@[simp] theorem queueWaiter_phase : (s.queueWaiter sid iBytes).phase = s.phase := by
  simp [queueWaiter, Daemon.setSession]

theorem queueWaiter_sessions : (s.queueWaiter sid iBytes).sessions =
    (s.setSession sid (s.sessions sid).waitForWrite).sessions := by
  simp [queueWaiter]

theorem queueWaiter_self : (s.queueWaiter sid iBytes).sessions sid =
    (s.sessions sid).waitForWrite := by
  rw [queueWaiter_sessions, setSession_self]

theorem queueWaiter_ne {other : Nat} (h : other ≠ sid) :
    (s.queueWaiter sid iBytes).sessions other = s.sessions other := by
  rw [queueWaiter_sessions, setSession_ne _ _ _ h]

end QueueWaiter

/-- **A session that has to wait is queued once, with the frame it stopped at.** -/
theorem Queue.wait (h : s.Queue) (hrunner : s.runner = .parsing sid iUsed iFrames resuming)
    {f : LogFrame} {rest : List UInt8}
    (hnext : nextFrame ((s.sessions sid).stInputBuffer.drop iUsed) = .message f rest) :
    ((s.queueWaiter sid (f.text.length + 9)).endOnDataIn sid iUsed resuming).Queue := by
  have hresuming := (h.parsing hrunner).2
  have hout := h.not_waiting hrunner
  have hwaiters : (s.queueWaiter sid (f.text.length + 9)).waiters = s.waiters ++ [sid] := by
    simp [waiters]
  rw [Daemon.endOnDataIn]
  refine Queue.leave ?_ (fun other => ?_) (fun w hw => ?_) ?_
  · show (s.queueWaiter sid (f.text.length + 9)).waiters.Nodup
    -- it was not in the queue, so it is not in it twice
    rw [hwaiters, List.nodup_append]
    refine ⟨h.distinct, by simp, fun a ha b hb => ?_⟩
    rw [List.mem_singleton.1 hb]
    exact fun he => hout (he ▸ ha)
  · show _ ↔ other ∈ (s.queueWaiter sid (f.text.length + 9)).waiters
    rw [hwaiters, List.mem_append, List.mem_singleton]
    by_cases ho : other = sid
    · rw [ho, setSession_self, queueWaiter_self]
      exact ⟨fun _ => Or.inr rfl, fun _ => rfl⟩
    · rw [setSession_ne _ _ _ ho, queueWaiter_ne _ _ _ ho, h.waiting other]
      exact ⟨Or.inl, fun hm => hm.resolve_right ho⟩
  · have hw' : w ∈ s.waitingSessions ++ [⟨sid, f.text.length + 9⟩] := by
      rw [← queueWaiter_waitingSessions]
      exact hw
    rcases List.mem_append.1 hw' with hold | hnew
    · have ho : w.pSession ≠ sid := fun he => hout (he ▸ List.mem_map_of_mem hold)
      rw [Awaits, setSession_ne _ _ _ ho, queueWaiter_ne _ _ _ ho]
      exact h.awaits w hold
    · rw [List.mem_singleton.1 hnew]
      refine ⟨f, rest, ?_, rfl⟩
      rw [setSession_self, queueWaiter_self]
      exact hnext
  · show (s.queueWaiter sid (f.text.length + 9)).resumingSession = _
    rw [queueWaiter_resumingSession]
    exact hresuming

/-- A round that goes on has used a frame. -/
theorem Queue.advance (h : s.Queue) (hrunner : s.runner = .parsing sid iUsed iFrames resuming)
    {f : LogFrame} (hwaiting : s'.waitingSessions = s.waitingSessions)
    (hsessions : s'.sessions = s.sessions) (hresuming : s'.resumingSession = s.resumingSession)
    (hrunner' : s'.runner = .parsing sid (iUsed + f.size) (iFrames + 1) resuming) : s'.Queue where
  distinct := by
    rw [waiters, hwaiting]
    exact h.distinct
  waiting := fun other => by
    rw [hsessions, waiters, hwaiting]
    exact h.waiting other
  awaits := fun w hw => by
    rw [hwaiting] at hw
    rw [Awaits, hsessions]
    exact h.awaits w hw
  idle := fun hr => by
    rw [hrunner'] at hr
    exact (nomatch hr)
  parsing := fun hr => by
    rw [hrunner'] at hr
    obtain ⟨rfl, -, -, rfl⟩ := Runner.parsing.inj hr
    rw [hsessions, hresuming]
    exact h.parsing hrunner
  resumed := fun hr => by
    rw [hrunner'] at hr
    exact (nomatch hr)
  first := fun hr => by
    rw [hrunner'] at hr
    have hused := (Runner.parsing.inj hr).2.1
    have hpos := f.size_pos
    omega

variable {title : Title} {l : LogLevel}

/-- A round of `OnDataIn` keeps the queue in order. -/
theorem Queue.round (h : s.Queue) (hrunner : s.runner = .parsing sid iUsed iFrames resuming)
    (hround : Round s sid iUsed iFrames resuming title s') : s'.Queue := by
  cases hround with
  | more hnext => exact h.endOnDataIn hrunner
  | bad hnext =>
    have hclosed : (s.passiveClose sid).Queue := h.setSession rfl rfl
    obtain ⟨-, hresuming⟩ := hclosed.parsing hrunner
    exact Queue.leave hclosed.distinct hclosed.waiting hclosed.awaits hresuming
  | wait f rest hnext hwait => exact h.wait hrunner hnext
  | skip f rest hnext hlevel => exact h.advance (f := f) hrunner rfl rfl rfl rfl
  | accept f rest l hnext hlevel hspace hbarred =>
    exact h.advance (f := f) hrunner rfl rfl rfl rfl

/-- New data joins the buffer at its end. -/
theorem Queue.dataIn (h : s.Queue) (hidle : s.runner = .idle) (sid : Nat) (chunk : List UInt8) :
    (s.dataIn sid chunk).Queue := by
  have hview : ∀ other, ((s.dataIn sid chunk).sessions other).waiting =
      (s.sessions other).waiting := by
    intro other
    by_cases ho : other = sid
    · rw [Daemon.dataIn, ho]
      simp only [Daemon.setSession, Function.update_self]
    · rw [Daemon.dataIn]
      simp only [Daemon.setSession, Function.update_of_ne ho]
  refine ⟨h.distinct, fun other => ?_, fun w hw => ?_, fun _ => h.idle hidle, fun hr => ?_,
    fun hr => ?_, fun hr => ?_⟩
  · rw [hview other]
    exact h.waiting other
  · obtain ⟨f, rest, hnext, hbytes⟩ := h.awaits w hw
    by_cases ho : w.pSession = sid
    · -- the frame it waits for is still the first one
      refine ⟨f, rest ++ chunk, ?_, hbytes⟩
      rw [ho] at hnext ⊢
      simp only [Daemon.dataIn, Daemon.setSession, Function.update_self]
      exact nextFrame_append hnext chunk
    · refine ⟨f, rest, ?_, hbytes⟩
      simp only [Daemon.dataIn, Daemon.setSession, Function.update_of_ne ho]
      exact hnext
  · simp only [Daemon.dataIn] at hr
    cases hflag : (s.sessions sid).waiting with
    | true =>
      rw [hflag, if_pos rfl] at hr
      cases hr
    | false =>
      rw [hflag, if_neg (by decide)] at hr
      obtain ⟨rfl, -, -, rfl⟩ := Runner.parsing.inj hr
      rw [hview, hflag]
      exact ⟨rfl, h.idle hidle⟩
  · simp only [Daemon.dataIn] at hr
    split at hr <;> cases hr
  · simp only [Daemon.dataIn] at hr
    split at hr
    · cases hr
    · exact absurd (Runner.parsing.inj hr).2.2.2 (by decide)

/-- **The session at the head is popped when its frame fits, and finds it there.** -/
theorem Queue.resumeWaiting (h : s.Queue) (bShutdown : Bool) :
    (s.resumeWaiting bShutdown).Queue := by
  rw [Daemon.resumeWaiting]
  split
  · exact h.congr rfl rfl rfl (fun _ => rfl) (fun _ => rfl) (Or.inl (Nat.le_refl _))
  · next w ws hqueue =>
      split
      · exact h.congr rfl rfl rfl (fun _ => rfl) (fun _ => rfl) (Or.inl (Nat.le_refl _))
      · next hfits =>
          have hdistinct := h.distinct
          rw [waiters, hqueue, List.map_cons, List.nodup_cons] at hdistinct
          refine ⟨hdistinct.2, fun other => ?_, fun x hx => ?_, fun hr => (by cases hr), fun hr => ?_,
            fun hr => (by cases hr), fun hr => ?_⟩
          · -- only the session at the head has its flag taken back
            have hold := h.waiting other
            rw [waiters, hqueue, List.map_cons, List.mem_cons] at hold
            by_cases ho : other = w.pSession
            · simp only [Daemon.setSession, ho, Function.update_self]
              exact ⟨fun hf => (by cases hf), fun hm => absurd hm hdistinct.1⟩
            · simp only [Daemon.setSession, Function.update_of_ne ho]
              rw [hold]
              exact ⟨fun hm => hm.resolve_left ho, Or.inr⟩
          · have ho : x.pSession ≠ w.pSession := fun he =>
              hdistinct.1 (he ▸ List.mem_map_of_mem hx)
            rw [Awaits]
            simp only [Daemon.setSession, Function.update_of_ne ho]
            exact h.awaits x (hqueue ▸ List.mem_cons_of_mem w hx)
          · obtain ⟨rfl, -, -, rfl⟩ := Runner.parsing.inj hr
            simp only [Daemon.setSession, Function.update_self]
            exact ⟨rfl, rfl⟩
          · -- the space was looked at just now, against the size of that very frame
            obtain ⟨rfl, -, -, -⟩ := Runner.parsing.inj hr
            obtain ⟨f, rest, hnext, hbytes⟩ := h.awaits w (hqueue ▸ List.mem_cons_self)
            refine ⟨f, rest, ?_, ?_⟩
            · simp only [Daemon.setSession, Function.update_self]
              exact hnext
            · rw [← hbytes]
              exact Nat.not_lt.1 hfits

theorem Queue.endResumeWaiting (h : s.Queue) : s.endResumeWaiting.Queue := by
  rw [Daemon.endResumeWaiting]
  exact Queue.scheduleResume ⟨h.distinct, h.waiting, h.awaits, fun _ => rfl, fun hr => (nomatch hr),
    fun hr => (nomatch hr), fun hr => (nomatch hr)⟩

/-! ## The posted resume -/

/-- What holds of the phases of the process and of the callback in the poll loop. -/
structure Places (s : Daemon) : Prop where
  stopping : s.stopping = true ↔ s.phase ≠ .running
  posted : s.phase = .running → s.posted = if s.resumePosted then 1 else 0
  blocked : s.phase = .blocked → s.waitingSessions ≠ [] ∧ s.headFits = false
  settled : s.phase ≠ .running → s.phase ≠ .checking → s.runner = .idle
  drained : ((∃ levels, s.phase = .joining levels) ∨ s.phase = .stopped) → s.waitingSessions = []

/-- The levels are joined after the phases in which sessions are served. -/
theorem not_joining {p : Phase}
    (h : p = .running ∨ p = .draining ∨ p = .checking ∨ p = .blocked) :
    ¬ ((∃ levels, p = .joining levels) ∨ p = .stopped) := by
  rintro (⟨levels, rfl⟩ | rfl)
  · rcases h with h | h | h | h <;> exact (nomatch h)
  · rcases h with h | h | h | h <;> exact (nomatch h)

/-- Outside `Stop` a resume is posted or runs whenever the head of the queue fits. -/
def Awake (s : Daemon) : Prop :=
  s.phase = .running → s.headFits = true → 0 < s.posted ∨ s.resumingSession.isSome = true

/-- In `Stop` nothing has to wake the head of the queue, except where `Stop` waits for space. -/
theorem Places.ofStop (hstop : s.stopping = true) (hrunning : s.phase ≠ .running)
    (hblocked : s.phase ≠ .blocked) (hidle : s.runner = .idle)
    (hdrained : (∃ levels, s.phase = .joining levels) ∨ s.phase = .stopped →
      s.waitingSessions = []) : s.Places ∧ s.Awake :=
  ⟨⟨⟨fun _ => hrunning, fun _ => hstop⟩, fun hr => absurd hr hrunning,
    fun hb => absurd hb hblocked, fun _ _ => hidle, hdrained⟩, fun hr => absurd hr hrunning⟩

theorem Places.congr (h : s.Places) (hphase : s'.phase = s.phase)
    (hstopping : s'.stopping = s.stopping) (hposted : s'.posted = s.posted)
    (hresumePosted : s'.resumePosted = s.resumePosted)
    (hwaiting : s'.waitingSessions = s.waitingSessions)
    (hfits : s'.headFits = true → s.headFits = true)
    (hrunner : s.phase ≠ .running → s.phase ≠ .checking → s'.runner = .idle) : s'.Places where
  stopping := by
    rw [hstopping, hphase]
    exact h.stopping
  posted := fun hp => by
    rw [hphase] at hp
    rw [hposted, hresumePosted]
    exact h.posted hp
  blocked := fun hp => by
    rw [hphase] at hp
    obtain ⟨hne, hno⟩ := h.blocked hp
    refine ⟨hwaiting ▸ hne, Bool.eq_false_iff.2 fun hyes => ?_⟩
    rw [hfits hyes] at hno
    exact absurd hno (by decide)
  settled := fun h₁ h₂ => by
    rw [hphase] at h₁ h₂
    exact hrunner h₁ h₂
  drained := fun hp => by
    rw [hphase] at hp
    rw [hwaiting]
    exact h.drained hp

theorem Awake.congr (h : s.Awake) (hphase : s'.phase = s.phase) (hposted : s'.posted = s.posted)
    (hresuming : s'.resumingSession = s.resumingSession)
    (hfits : s'.headFits = true → s.headFits = true) : s'.Awake := fun hp hf => by
  rw [hphase] at hp
  rw [hposted, hresuming]
  exact h hp (hfits hf)

/-- A runner that is not idle is not in the later phases. -/
theorem Places.runs (h : s.Places) (hr : s.runner ≠ .idle) :
    s.phase = .running ∨ s.phase = .checking := by
  by_contra hno
  rw [not_or] at hno
  exact hr (h.settled hno.1 hno.2)

/-- **`ScheduleResume` posts when nothing else wakes the head of the queue.** -/
theorem Places.scheduleResume (h : s.Places) :
    s.scheduleResume.Places ∧ s.scheduleResume.Awake := by
  rcases s.scheduleResume_cases with ⟨hs, heq⟩ | ⟨hs, heq⟩
  · rw [heq]
    have hrunning : s.phase = .running := by
      by_contra hp
      exact absurd (h.stopping.2 hp) (by rw [hs.1]; decide)
    have hnone := h.posted hrunning
    rw [hs.2.1, if_neg (by decide)] at hnone
    refine ⟨⟨h.stopping, fun _ => ?_, h.blocked, h.settled, h.drained⟩, fun _ _ => Or.inl ?_⟩
    · show s.posted + 1 = 1
      omega
    · exact Nat.succ_pos s.posted
  · rw [heq]
    refine ⟨h, fun hp hf => ?_⟩
    have hposted := h.posted hp
    have hstop : s.stopping = false := Bool.eq_false_iff.2 fun hst => h.stopping.1 hst hp
    -- one of the four conditions of the post fails, and it is not the head's
    by_cases hflag : s.resumePosted = true
    · rw [hflag, if_pos rfl] at hposted
      exact Or.inl (by omega)
    · rw [Bool.not_eq_true] at hflag
      refine Or.inr ?_
      by_contra hnone
      rw [Option.not_isSome_iff_eq_none] at hnone
      exact hs ⟨hstop, hflag, hnone, hf⟩

/-- A session joins the queue. -/
theorem Places.queueWaiter (h : s.Places) (hr : s.runner ≠ .idle) (sid iBytes : Nat) :
    (s.queueWaiter sid iBytes).Places ∧ (s.queueWaiter sid iBytes).Awake := by
  rw [Daemon.queueWaiter]
  apply Places.scheduleResume
  rcases h.runs hr with hp | hp
  · exact ⟨h.stopping, h.posted, fun hb => absurd (hp.symm.trans hb) (by decide),
      fun hn => absurd hp hn, fun hd => absurd hd (not_joining (Or.inl hp))⟩
  · exact ⟨h.stopping, h.posted, fun hb => absurd (hp.symm.trans hb) (by decide),
      fun _ hn => absurd hp hn, fun hd => absurd hd (not_joining (Or.inr (Or.inr (Or.inl hp))))⟩

theorem leave_fields (s : Daemon) (sid : Nat) (resuming : Bool) :
    ∃ sessions runner, s.leave sid resuming = { s with sessions := sessions, runner := runner } := by
  cases resuming with
  | false => exact ⟨s.sessions, .idle, rfl⟩
  | true =>
    exact ⟨(s.setSession sid (s.sessions sid).endResume).sessions, .resumed sid, rfl⟩

/-- The end of `OnDataIn` touches the session and the place of its thread. -/
theorem endOnDataIn_fields (s : Daemon) (sid iUsed : Nat) (resuming : Bool) :
    ∃ sessions runner, s.endOnDataIn sid iUsed resuming =
      { s with sessions := sessions, runner := runner } := by
  rw [endOnDataIn]
  obtain ⟨sessions, runner, h⟩ := leave_fields (s.setSession sid
    { s.sessions sid with stInputBuffer := (s.sessions sid).stInputBuffer.drop iUsed }) sid resuming
  exact ⟨sessions, runner, h⟩

/-- Only the session and the place of the thread change, outside the later phases. -/
theorem Places.runnerStep (h : s.Places ∧ s.Awake) (hp : s.phase = .running ∨ s.phase = .checking)
    (sessions : Nat → LogServerSession) (runner : Runner) :
    ({ s with sessions := sessions, runner := runner } : Daemon).Places ∧
      ({ s with sessions := sessions, runner := runner } : Daemon).Awake := by
  refine ⟨h.1.congr rfl rfl rfl rfl rfl (fun hf => hf) (fun h₁ h₂ => ?_),
    h.2.congr rfl rfl rfl (fun hf => hf)⟩
  rcases hp with hp | hp
  · exact absurd hp h₁
  · exact absurd hp h₂

/-- Accepting a log takes space, so a head that fits has fitted before. -/
theorem headFits_of_accept {x : Log} (h : (s.accept l x).headFits = true) : s.headFits = true := by
  cases hqueue : s.waitingSessions with
  | nil =>
    rw [headFits_of_empty (show (s.accept l x).waitingSessions = [] from hqueue)] at h
    exact absurd h (by decide)
  | cons w ws =>
    rw [headFits_cons (show (s.accept l x).waitingSessions = w :: ws from hqueue),
      decide_eq_true_iff, space] at h
    rw [headFits_cons hqueue, decide_eq_true_iff, space]
    have hle : (s.accept l x).iPendingBytes = s.iPendingBytes + x.size := rfl
    have hmax : (s.accept l x).iMaxPendingBytes = s.iMaxPendingBytes := rfl
    omega

theorem Places.accept (h : s.Places ∧ s.Awake) (l : LogLevel) (x : Log) :
    (s.accept l x).Places ∧ (s.accept l x).Awake :=
  ⟨h.1.congr rfl rfl rfl rfl rfl headFits_of_accept h.1.settled,
    h.2.congr rfl rfl rfl headFits_of_accept⟩

/-- A round of `OnDataIn` loses no wake-up. -/
theorem Places.round (h : s.Places ∧ s.Awake)
    (hrunner : s.runner = .parsing sid iUsed iFrames resuming)
    (hround : Round s sid iUsed iFrames resuming title s') : s'.Places ∧ s'.Awake := by
  have hbusy : s.runner ≠ .idle := fun hidle => (nomatch hrunner.symm.trans hidle)
  have hp := h.1.runs hbusy
  cases hround with
  | more hnext =>
    obtain ⟨sessions, runner, heq⟩ := endOnDataIn_fields s sid iUsed resuming
    rw [heq]
    exact Places.runnerStep h hp sessions runner
  | bad hnext =>
    obtain ⟨sessions, runner, heq⟩ := leave_fields (s.passiveClose sid) sid resuming
    rw [heq]
    exact Places.runnerStep h hp sessions runner
  | wait f rest hnext hwait =>
    have hqueued := h.1.queueWaiter hbusy sid (f.text.length + 9)
    obtain ⟨sessions, runner, heq⟩ :=
      endOnDataIn_fields (s.queueWaiter sid (f.text.length + 9)) sid iUsed resuming
    rw [heq]
    exact Places.runnerStep hqueued (by rw [queueWaiter_phase]; exact hp) sessions runner
  | skip f rest hnext hlevel => exact Places.runnerStep h hp s.sessions _
  | accept f rest l hnext hlevel hspace hbarred =>
    exact Places.runnerStep (Places.accept h l _) hp s.sessions _

/-- `ResumeWaiting` pops the head or finds that it does not fit. -/
theorem resumeWaiting_cases (s : Daemon) (bShutdown : Bool) :
    (s.resumeWaiting bShutdown = { s with resumePosted := false } ∧ s.headFits = false) ∨
    ∃ w ws, s.waitingSessions = w :: ws ∧ s.headFits = true ∧ s.resumeWaiting bShutdown =
      { s with
        sessions :=
          Function.update s.sessions w.pSession ((s.sessions w.pSession).startResume bShutdown)
        resumePosted := false
        waitingSessions := ws
        resumingSession := some w.pSession
        runner := .parsing w.pSession 0 0 true } := by
  rw [resumeWaiting]
  split
  · next hqueue => exact Or.inl ⟨rfl, headFits_of_empty hqueue⟩
  · next w ws hqueue =>
      split
      · next hno =>
          refine Or.inl ⟨rfl, ?_⟩
          rw [headFits_cons hqueue, decide_eq_false_iff_not]
          omega
      · next hyes =>
          refine Or.inr ⟨w, ws, hqueue, ?_, rfl⟩
          rw [headFits_cons hqueue, decide_eq_true_iff]
          omega

/-! ## Every step -/

/-- **The backlog is in order.** -/
structure Backlog (s : Daemon) : Prop where
  accounts : s.Accounts
  queue : s.Queue
  turns : s.Places ∧ s.Awake

theorem Accounts.runnerStep (h : s.Accounts) (sessions : Nat → LogServerSession) (runner : Runner) :
    ({ s with sessions := sessions, runner := runner } : Daemon).Accounts :=
  h.congr rfl rfl rfl

theorem Accounts.queueWaiter (h : s.Accounts) (sid iBytes : Nat) :
    (s.queueWaiter sid iBytes).Accounts :=
  h.congr (by simp) (by simp) (by simp)

theorem Accounts.round (h : s.Accounts) (hround : Round s sid iUsed iFrames resuming title s') :
    s'.Accounts := by
  cases hround with
  | more hnext =>
    obtain ⟨sessions, runner, heq⟩ := endOnDataIn_fields s sid iUsed resuming
    rw [heq]
    exact h.runnerStep sessions runner
  | bad hnext =>
    obtain ⟨sessions, runner, heq⟩ := leave_fields (s.passiveClose sid) sid resuming
    rw [heq]
    exact h.runnerStep sessions runner
  | wait f rest hnext hwait =>
    obtain ⟨sessions, runner, heq⟩ :=
      endOnDataIn_fields (s.queueWaiter sid (f.text.length + 9)) sid iUsed resuming
    rw [heq]
    exact (h.queueWaiter sid _).runnerStep sessions runner
  | skip f rest hnext hlevel => exact h.runnerStep s.sessions _
  | accept f rest l hnext hlevel hspace hbarred =>
    refine (h.accept ?_).runnerStep s.sessions _
    rw [Log.size_eq, title.2]
    exact hspace

theorem Backlog.round (h : s.Backlog) (title : Title)
    (hrunner : s.runner = .parsing sid iUsed iFrames resuming) :
    (s.onDataInRound sid iUsed iFrames resuming title).Backlog := by
  have hround := onDataInRound_cases h.accounts.limit sid iUsed iFrames resuming title
  exact ⟨h.accounts.round hround, h.queue.round hrunner hround, Places.round h.turns hrunner hround⟩

theorem Backlog.dataIn (h : s.Backlog) (hpoll : s.Polling) (sid : Nat) (chunk : List UInt8) :
    (s.dataIn sid chunk).Backlog :=
  ⟨h.accounts.congr rfl rfl rfl, h.queue.dataIn hpoll.2 sid chunk,
    Places.runnerStep h.turns (Or.inl hpoll.1) _ _⟩

/-- A change of a session that leaves its buffer and its flag alone. -/
theorem Backlog.setSession (h : s.Backlog) {v : LogServerSession}
    (hbuffer : v.stInputBuffer = (s.sessions sid).stInputBuffer)
    (hflag : v.waiting = (s.sessions sid).waiting) : (s.setSession sid v).Backlog :=
  ⟨h.accounts.congr rfl rfl rfl, h.queue.setSession hbuffer hflag,
    h.turns.1.congr rfl rfl rfl rfl rfl (fun hf => hf) h.turns.1.settled,
    h.turns.2.congr rfl rfl rfl (fun hf => hf)⟩

/-- A step of a writer, or of `Stop` on a level. -/
theorem Backlog.setFile (h : s.Backlog) {f : LogFileInstance} (hf : f.Ledger)
    (hheld : f.held = (s.logFiles l).held) : (s.setFile l f).Backlog :=
  ⟨h.accounts.setFile hf hheld,
    h.queue.congr rfl rfl rfl (fun _ => rfl) (fun _ => rfl) (Or.inl (Nat.le_refl _)),
    h.turns.1.congr rfl rfl rfl rfl rfl (fun hf => hf) h.turns.1.settled,
    h.turns.2.congr rfl rfl rfl (fun hf => hf)⟩

theorem Backlog.writeSelf (h : s.Backlog) (iLevel : Nat) (text : List UInt8) (title : Title) :
    (s.writeLog iLevel text none title).2.Backlog := by
  rcases s.writeSelf_cases iLevel text title with heq | ⟨l, heq, hspace, hresuming, -⟩
  · rw [heq]
    exact h
  · rw [heq]
    refine ⟨h.accounts.accept ?_,
      h.queue.congr rfl rfl rfl (fun _ => rfl) (fun _ => rfl) (Or.inr hresuming),
      Places.accept h.turns l _⟩
    rw [Log.size_eq, title.2]
    exact hspace

theorem Backlog.resumeOnLoop (h : s.Backlog) (hp : s.phase = .running) (hposted : 0 < s.posted) :
    (resumeWaiting { s with posted := s.posted - 1 } false).Backlog := by
  -- the callback that runs is the only one
  have hone := h.turns.1.posted hp
  have hzero : s.posted - 1 = 0 := by
    split at hone <;> omega
  have hqueue : ({ s with posted := s.posted - 1 } : Daemon).Queue :=
    h.queue.congr rfl rfl rfl (fun _ => rfl) (fun _ => rfl) (Or.inl (Nat.le_refl _))
  have hpopped := hqueue.resumeWaiting false
  rcases resumeWaiting_cases { s with posted := s.posted - 1 } false with
    ⟨heq, hno⟩ | ⟨w, ws, hws, hyes, heq⟩
  · rw [heq] at hpopped ⊢
    refine ⟨h.accounts.congr rfl rfl rfl, hpopped, ⟨h.turns.1.stopping, fun _ => hzero,
      fun hb => absurd (hp.symm.trans hb) (by decide), fun hn => absurd hp hn, h.turns.1.drained⟩,
      fun _ hf => ?_⟩
    exact absurd (hno.symm.trans hf) (by decide)
  · rw [heq] at hpopped ⊢
    refine ⟨h.accounts.congr rfl rfl rfl, hpopped, ⟨h.turns.1.stopping, fun _ => hzero,
      fun hb => absurd (hp.symm.trans hb) (by decide), fun hn => absurd hp hn,
      fun hd => absurd hd (not_joining (Or.inl hp))⟩, fun _ _ => Or.inr rfl⟩

theorem Backlog.drain (h : s.Backlog) (hp : s.phase = .draining) :
    (resumeWaiting { s with phase := .checking } true).Backlog := by
  have hstop : s.stopping = true := h.turns.1.stopping.2 (by rw [hp]; decide)
  have hqueue : ({ s with phase := .checking } : Daemon).Queue :=
    h.queue.congr rfl rfl rfl (fun _ => rfl) (fun _ => rfl) (Or.inl (Nat.le_refl _))
  have hpopped := hqueue.resumeWaiting true
  rcases resumeWaiting_cases { s with phase := .checking } true with
    ⟨heq, -⟩ | ⟨w, ws, -, -, heq⟩ <;>
  · rw [heq] at hpopped ⊢
    exact ⟨h.accounts.congr rfl rfl rfl, hpopped, ⟨⟨fun _ => nofun, fun _ => hstop⟩,
      fun hr => (nomatch hr), fun hb => (nomatch hb), fun _ hn => absurd rfl hn,
      fun hd => absurd hd (not_joining (by simp))⟩, fun hr => (nomatch hr)⟩

theorem Backlog.endResume (h : s.Backlog) : s.endResumeWaiting.Backlog := by
  refine ⟨?_, h.queue.endResumeWaiting, ?_⟩
  · rw [endResumeWaiting]
    exact Accounts.scheduleResume (h.accounts.congr rfl rfl rfl)
  · rw [endResumeWaiting]
    exact Places.scheduleResume
      (h.turns.1.congr rfl rfl rfl rfl rfl (fun hf => hf) (fun _ _ => rfl))

theorem Backlog.completeWrite (h : s.Backlog) {n : Nat} (hw : (s.logFiles l).writer = .completing n)
    : ((s.setFile l (s.logFiles l).finish).completeWrite n).Backlog := by
  refine ⟨h.accounts.completeWrite hw, ?_, ?_⟩
  · rw [Daemon.completeWrite]
    refine Queue.scheduleResume (h.queue.congr rfl rfl rfl (fun _ => rfl) (fun _ => rfl)
      (Or.inl ?_))
    show s.iMaxPendingBytes - s.iPendingBytes ≤ s.iMaxPendingBytes - (s.iPendingBytes - n)
    omega
  · rw [Daemon.completeWrite]
    apply Places.scheduleResume
    -- the signal moves `Stop` on
    by_cases hb : s.phase = .blocked
    · have hstop : s.stopping = true := h.turns.1.stopping.2 (by rw [hb]; decide)
      have hidle := h.turns.1.settled (by rw [hb]; decide) (by rw [hb]; decide)
      have hphase : (s.setFile l (s.logFiles l).finish).phase = .blocked := hb
      rw [if_pos hphase]
      exact And.left (Places.ofStop hstop (fun h => by cases h) (fun h => by cases h) hidle
        fun hd => absurd hd (not_joining (by simp)))
    · have hphase : ¬ (s.setFile l (s.logFiles l).finish).phase = .blocked := hb
      rw [if_neg hphase]
      exact ⟨h.turns.1.stopping, h.turns.1.posted, fun hr => absurd hr hb, h.turns.1.settled,
        h.turns.1.drained⟩

theorem Backlog.stop (h : s.Backlog) (hpoll : s.Polling) :
    ({ s with stopping := true, phase := .draining } : Daemon).Backlog := by
  refine ⟨h.accounts.congr rfl rfl rfl,
    h.queue.congr rfl rfl rfl (fun _ => rfl) (fun _ => rfl) (Or.inl (Nat.le_refl _)), ?_⟩
  exact Places.ofStop rfl nofun nofun hpoll.2 fun hd => absurd hd (not_joining (by simp))

theorem Backlog.check (h : s.Backlog) (hp : s.phase = .checking) (hidle : s.runner = .idle) :
    s.checkWaiting.Backlog := by
  have hstop : s.stopping = true := h.turns.1.stopping.2 (by rw [hp]; decide)
  rw [checkWaiting]
  split
  · next hqueue =>
      exact ⟨h.accounts.congr rfl rfl rfl,
        h.queue.congr rfl rfl rfl (fun _ => rfl) (fun _ => rfl) (Or.inl (Nat.le_refl _)),
        Places.ofStop hstop nofun nofun hidle fun _ => hqueue⟩
  · next w ws hqueue =>
      refine ⟨h.accounts.congr rfl rfl rfl,
        h.queue.congr rfl rfl rfl (fun _ => rfl) (fun _ => rfl) (Or.inl (Nat.le_refl _)), ?_⟩
      by_cases hfull : s.space < w.iBytes
      · rw [if_pos hfull]
        refine ⟨⟨⟨fun _ => nofun, fun _ => hstop⟩, fun hr => (nomatch hr), fun _ => ⟨?_, ?_⟩,
          fun _ _ => hidle, fun hd => absurd hd (not_joining (by simp))⟩, fun hr => (nomatch hr)⟩
        · show s.waitingSessions ≠ []
          rw [hqueue]
          exact List.cons_ne_nil w ws
        · show s.headFits = false
          rw [headFits_cons hqueue, decide_eq_false_iff_not]
          omega
      · rw [if_neg hfull]
        exact Places.ofStop hstop nofun nofun hidle fun hd => absurd hd (not_joining (by simp))

/-- A level is joined, or the last one was. -/
theorem Backlog.join (h : s.Backlog) {levels : List LogLevel} (hp : s.phase = .joining levels)
    {phase : Phase} (hphase : (∃ levels', phase = .joining levels') ∨ phase = .stopped) :
    ({ s with phase := phase } : Daemon).Backlog := by
  have hstop : s.stopping = true := h.turns.1.stopping.2 (by rw [hp]; nofun)
  have hidle := h.turns.1.settled (by rw [hp]; nofun) (by rw [hp]; nofun)
  have hdrained := h.turns.1.drained (Or.inl ⟨levels, hp⟩)
  have hlate : phase ≠ .running ∧ phase ≠ .blocked := by
    rcases hphase with ⟨levels', rfl⟩ | rfl
    · exact ⟨nofun, nofun⟩
    · exact ⟨nofun, nofun⟩
  exact ⟨h.accounts.congr rfl rfl rfl,
    h.queue.congr rfl rfl rfl (fun _ => rfl) (fun _ => rfl) (Or.inl (Nat.le_refl _)),
    Places.ofStop hstop hlate.1 hlate.2 hidle fun _ => hdrained⟩

theorem Backlog.step {e : Event} (h : s.Backlog) (hstep : s.step e = some s') : s'.Backlog := by
  have hledger := h.accounts.ledger
  cases e with
  | dataIn sid chunk =>
    obtain ⟨hpoll, hs⟩ := Option.ite_none_right_eq_some.1 hstep
    exact Option.some.inj hs ▸ h.dataIn hpoll.1 sid chunk
  | close sid => exact Option.some.inj hstep ▸ h.setSession rfl rfl
  | detach sid =>
    obtain ⟨-, hs⟩ := Option.ite_none_right_eq_some.1 hstep
    exact Option.some.inj hs ▸ h.setSession rfl rfl
  | round title =>
    simp only [Daemon.step] at hstep
    split at hstep
    · next hr => exact Option.some.inj hstep ▸ h.round title hr
    · exact absurd hstep nofun
  | resumeOnLoop =>
    obtain ⟨hpoll, hs⟩ := Option.ite_none_right_eq_some.1 hstep
    exact Option.some.inj hs ▸ h.resumeOnLoop hpoll.1.1 hpoll.2
  | endResume =>
    simp only [Daemon.step] at hstep
    split at hstep
    · exact Option.some.inj hstep ▸ h.endResume
    · exact absurd hstep nofun
  | writeSelf iLevel text title => exact Option.some.inj hstep ▸ h.writeSelf iLevel text title
  | swapLogs l =>
    obtain ⟨f, hf, rfl⟩ := Option.map_eq_some_iff.1 hstep
    obtain ⟨hl, hheld⟩ := (hledger l).swapLogs hf
    exact h.setFile hl hheld
  | writeNext l =>
    obtain ⟨f, hf, rfl⟩ := Option.map_eq_some_iff.1 hstep
    obtain ⟨hl, hheld⟩ := (hledger l).writeNext hf
    exact h.setFile hl hheld
  | flush l =>
    obtain ⟨f, hf, rfl⟩ := Option.map_eq_some_iff.1 hstep
    obtain ⟨hl, hheld⟩ := (hledger l).flush hf
    exact h.setFile hl hheld
  | completeWrite l =>
    simp only [Daemon.step] at hstep
    split at hstep
    · next hw => exact Option.some.inj hstep ▸ h.completeWrite hw
    · exact absurd hstep nofun
  | rotate l => exact Option.some.inj hstep ▸ h.setFile (hledger l).rotate rfl
  | stop =>
    obtain ⟨hpoll, hs⟩ := Option.ite_none_right_eq_some.1 hstep
    exact Option.some.inj hs ▸ h.stop hpoll
  | drain =>
    obtain ⟨hp, hs⟩ := Option.ite_none_right_eq_some.1 hstep
    exact Option.some.inj hs ▸ h.drain hp.1
  | check =>
    obtain ⟨hp, hs⟩ := Option.ite_none_right_eq_some.1 hstep
    exact Option.some.inj hs ▸ h.check hp.1 hp.2
  | stopWriting =>
    simp only [Daemon.step] at hstep
    split at hstep
    · next l levels hp =>
        exact Option.some.inj hstep ▸ h.setFile (hledger l).stopWriting rfl
    · exact absurd hstep nofun
  | join =>
    simp only [Daemon.step] at hstep
    split at hstep
    · next hp => exact Option.some.inj hstep ▸ h.join hp (Or.inr rfl)
    · next l levels hp =>
        split at hstep
        · obtain ⟨-, hs⟩ := Option.ite_none_right_eq_some.1 hstep
          exact Option.some.inj hs ▸ h.join hp (Or.inl ⟨levels, rfl⟩)
        · exact absurd hstep nofun
    · exact absurd hstep nofun

theorem Backlog.init {iLimit : Nat} (h : Daemon.init iLimit = some s) : s.Backlog := by
  have haccounts := Accounts.init h
  rw [Daemon.init] at h
  split at h
  · cases h
  · obtain rfl := Option.some.inj h
    exact ⟨haccounts,
      ⟨List.nodup_nil, fun _ => by simp [waiters], fun _ h => (by cases h), fun _ => rfl,
        fun h => (by cases h), fun h => (by cases h), fun h => (by cases h)⟩,
      ⟨by simp, fun _ => rfl, fun h => (by cases h), fun hn => absurd rfl hn, fun _ => rfl⟩,
      fun _ h => (by cases h)⟩

/-- **The backlog is in order in every state of every run.** -/
theorem Reachable.backlog (h : s.Reachable) : s.Backlog := by
  obtain ⟨iLimit, s₀, events, hinit, hrun⟩ := h
  exact runFrom_invariant (fun _ _ _ hb hs => hb.step hs) (Backlog.init hinit) hrun

end Daemon

end OpenIdea.Logd

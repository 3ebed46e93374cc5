import OpenIdea.Logd.Manager

/-!
# What the operations of the daemon do

`ScheduleResume` and `QueueWaiter` say once what they leave alone.  `Round` lists what one round of
`OnDataIn` can do when the limit of `Init` holds: the two ways in which a session comes to wait, a
full or barred backlog and a used up budget, end the round in the same way (`onDataInRound_cases`;
`writeLog_cases` for one frame).
-/

set_option autoImplicit false

namespace OpenIdea.Logd

open OpenIdea.Lib OpenIdea.Lib.Runs

namespace Daemon

/-! ## Sessions and levels -/

section Updates

variable (s : Daemon) (sid : Nat) (v : LogServerSession) (l : LogLevel) (f : LogFileInstance)

@[simp] theorem setSession_self : (s.setSession sid v).sessions sid = v := by
  simp only [setSession, Function.update_self]

theorem setSession_ne {other : Nat} (h : other ≠ sid) :
    (s.setSession sid v).sessions other = s.sessions other := by
  simp only [setSession, Function.update_of_ne h]

@[simp] theorem setFile_self : (s.setFile l f).logFiles l = f := by
  simp only [setFile, Function.update_self]

theorem setFile_ne {k : LogLevel} (h : k ≠ l) : (s.setFile l f).logFiles k = s.logFiles k := by
  simp only [setFile, Function.update_of_ne h]

end Updates

/-! ## The backlog -/

/-- What decides whether `ScheduleResume` posts. -/
def Schedules (s : Daemon) : Prop :=
  s.stopping = false ∧ s.resumePosted = false ∧ s.resumingSession = none ∧ s.headFits = true

theorem scheduleResume_cases (s : Daemon) :
    (s.Schedules ∧ s.scheduleResume = { s with resumePosted := true, posted := s.posted + 1 }) ∨
    (¬ s.Schedules ∧ s.scheduleResume = s) := by
  rw [scheduleResume, Schedules]
  split
  · next h =>
      simp only [Bool.and_eq_true, Bool.not_eq_true', Option.isNone_iff_eq_none] at h
      exact Or.inl ⟨⟨h.1.1.1, h.1.1.2, h.1.2, h.2⟩, rfl⟩
  · next h =>
      simp only [Bool.and_eq_true, Bool.not_eq_true', Option.isNone_iff_eq_none] at h
      exact Or.inr ⟨fun hs => h ⟨⟨⟨hs.1, hs.2.1⟩, hs.2.2.1⟩, hs.2.2.2⟩, rfl⟩

/-- `ScheduleResume` touches nothing but the posted callback. -/
theorem scheduleResume_eq (s : Daemon) :
    ∃ b n, s.scheduleResume = { s with resumePosted := b, posted := n } := by
  rcases s.scheduleResume_cases with ⟨_, h⟩ | ⟨_, h⟩
  · exact ⟨true, s.posted + 1, h⟩
  · exact ⟨s.resumePosted, s.posted, h⟩

section ScheduleResume

variable (s : Daemon)

@[simp] theorem scheduleResume_iMaxPendingBytes :
    s.scheduleResume.iMaxPendingBytes = s.iMaxPendingBytes := by
  obtain ⟨b, n, h⟩ := s.scheduleResume_eq
  rw [h]

@[simp] theorem scheduleResume_iPendingBytes :
    s.scheduleResume.iPendingBytes = s.iPendingBytes := by
  obtain ⟨b, n, h⟩ := s.scheduleResume_eq
  rw [h]

@[simp] theorem scheduleResume_waitingSessions :
    s.scheduleResume.waitingSessions = s.waitingSessions := by
  obtain ⟨b, n, h⟩ := s.scheduleResume_eq
  rw [h]

@[simp] theorem scheduleResume_resumingSession :
    s.scheduleResume.resumingSession = s.resumingSession := by
  obtain ⟨b, n, h⟩ := s.scheduleResume_eq
  rw [h]

@[simp] theorem scheduleResume_stopping : s.scheduleResume.stopping = s.stopping := by
  obtain ⟨b, n, h⟩ := s.scheduleResume_eq
  rw [h]

@[simp] theorem scheduleResume_logFiles : s.scheduleResume.logFiles = s.logFiles := by
  obtain ⟨b, n, h⟩ := s.scheduleResume_eq
  rw [h]

@[simp] theorem scheduleResume_sessions : s.scheduleResume.sessions = s.sessions := by
  obtain ⟨b, n, h⟩ := s.scheduleResume_eq
  rw [h]

@[simp] theorem scheduleResume_runner : s.scheduleResume.runner = s.runner := by
  obtain ⟨b, n, h⟩ := s.scheduleResume_eq
  rw [h]

@[simp] theorem scheduleResume_phase : s.scheduleResume.phase = s.phase := by
  obtain ⟨b, n, h⟩ := s.scheduleResume_eq
  rw [h]

@[simp] theorem scheduleResume_space : s.scheduleResume.space = s.space := by
  simp only [space, scheduleResume_iMaxPendingBytes, scheduleResume_iPendingBytes]

@[simp] theorem scheduleResume_headFits : s.scheduleResume.headFits = s.headFits := by
  simp only [headFits, scheduleResume_waitingSessions, scheduleResume_space]

end ScheduleResume

variable {s : Daemon}

theorem headFits_of_empty (h : s.waitingSessions = []) : s.headFits = false := by
  rw [headFits, h]

theorem headFits_cons {w : WaitingLog} {ws : List WaitingLog} (h : s.waitingSessions = w :: ws) :
    s.headFits = decide (w.iBytes ≤ s.space) := by
  rw [headFits, h]

/-! ## One round of `OnDataIn` -/

/-- The session has to wait with a frame of text length `n`. -/
def MustWait (s : Daemon) (sid iUsed n : Nat) : Prop :=
  0 < iUsed ∨ s.space < n + 9 ∨ s.Barred (some sid)

/-- What a round of `OnDataIn` can do. -/
inductive Round (s : Daemon) (sid iUsed iFrames : Nat) (resuming : Bool) (title : Title) :
    Daemon → Prop
  | more (h : nextFrame ((s.sessions sid).stInputBuffer.drop iUsed) = .more) :
      Round s sid iUsed iFrames resuming title (s.endOnDataIn sid iUsed resuming)
  | bad (h : nextFrame ((s.sessions sid).stInputBuffer.drop iUsed) = .error) :
      Round s sid iUsed iFrames resuming title ((s.passiveClose sid).leave sid resuming)
  | wait (f : LogFrame) (rest : List UInt8)
      (h : nextFrame ((s.sessions sid).stInputBuffer.drop iUsed) = .message f rest)
      (hwait : s.MustWait sid iUsed f.text.length) :
      Round s sid iUsed iFrames resuming title
        ((s.queueWaiter sid (f.text.length + 9)).endOnDataIn sid iUsed resuming)
  | skip (f : LogFrame) (rest : List UInt8)
      (h : nextFrame ((s.sessions sid).stInputBuffer.drop iUsed) = .message f rest)
      (hlevel : f.logLevel = none) :
      Round s sid iUsed iFrames resuming title
        { s with runner := .parsing sid (iUsed + f.size) (iFrames + 1) resuming }
  | accept (f : LogFrame) (rest : List UInt8) (l : LogLevel)
      (h : nextFrame ((s.sessions sid).stInputBuffer.drop iUsed) = .message f rest)
      (hlevel : f.logLevel = some l) (hspace : f.text.length + 9 ≤ s.space)
      (hbarred : ¬ s.Barred (some sid)) :
      Round s sid iUsed iFrames resuming title
        { s.accept l ⟨some sid, title, f.text⟩ with
          runner := .parsing sid (iUsed + f.size) (iFrames + 1) resuming }

/-- **What `WriteLog` can do for a session within the limit of `Init`.** -/
theorem writeLog_cases (hlimit : logFrameMax + 8 ≤ s.iMaxPendingBytes) (f : LogFrame) {l : LogLevel}
    (hlevel : f.logLevel = some l) (sid : Nat) (title : Title) :
    (s.writeLog f.level.toNat f.text (some sid) title =
        (true, s.accept l ⟨some sid, title, f.text⟩) ∧
      f.text.length + 9 ≤ s.space ∧ ¬ s.Barred (some sid)) ∨
    (s.writeLog f.level.toNat f.text (some sid) title =
        (false, s.queueWaiter sid (f.text.length + 9)) ∧
      (s.space < f.text.length + 9 ∨ s.Barred (some sid))) := by
  have htitle := title.2
  have hfits := f.fits
  rw [LogFrame.logLevel] at hlevel
  rw [writeLog, hlevel]
  dsimp only
  rw [if_neg (by omega), htitle]
  by_cases h : s.space < f.text.length + 9 ∨ s.Barred (some sid)
  · rw [if_pos h]
    exact Or.inr ⟨rfl, h⟩
  · rw [if_neg h]
    rw [not_or, Nat.not_lt] at h
    exact Or.inl ⟨rfl, h⟩

theorem onDataInRound_cases (hlimit : logFrameMax + 8 ≤ s.iMaxPendingBytes)
    (sid iUsed iFrames : Nat) (resuming : Bool) (title : Title) :
    Round s sid iUsed iFrames resuming title (s.onDataInRound sid iUsed iFrames resuming title) := by
  rw [onDataInRound]
  split
  · next h => exact Round.more h
  · next h => exact Round.bad h
  · next f rest h =>
      split
      · next hbudget =>
          rw [deferWrite, title.2]
          exact Round.wait f rest h (Or.inl hbudget.1)
      · split
        · next hlevel => exact Round.skip f rest h hlevel
        · next hlevel =>
            obtain ⟨l, hl⟩ := Option.ne_none_iff_exists'.1 hlevel
            rcases writeLog_cases hlimit f hl sid title with ⟨hr, hspace, hbarred⟩ | ⟨hr, hwait⟩
            · rw [hr]
              exact Round.accept f rest l h hl hspace hbarred
            · rw [hr]
              exact Round.wait f rest h (Or.inr hwait)

/-- **A local log is accepted only when nobody waits or is resumed.** -/
theorem writeSelf_cases (s : Daemon) (iLevel : Nat) (text : List UInt8) (title : Title) :
    (s.writeLog iLevel text none title).2 = s ∨
    ∃ l, (s.writeLog iLevel text none title).2 = s.accept l ⟨none, title, text⟩ ∧
      text.length + 9 ≤ s.space ∧ s.resumingSession = none ∧ s.waitingSessions = [] := by
  have htitle := title.2
  rw [writeLog]
  split
  · exact Or.inl rfl
  · next l hlevel =>
      split
      · exact Or.inl rfl
      · dsimp only
        rw [htitle]
        split
        · exact Or.inl rfl
        · next h =>
            rw [not_or, Nat.not_lt, Barred] at h
            have hfree : ¬ (s.resumingSession.isSome ∨ s.waitingSessions ≠ []) := fun hb =>
              h.2 ⟨hb, Or.inl rfl⟩
            rw [not_or, Option.not_isSome_iff_eq_none, not_not] at hfree
            exact Or.inr ⟨l, rfl, h.1, hfree.1, hfree.2⟩

end Daemon

end OpenIdea.Logd

import OpenIdea.Logd.Backlog

/-!
# What back-pressure gives

From the invariants of the backlog: who may be accepted while others wait, and that a resume serves
the frame it was made for. The main result is `back_pressure`; `another_accepted_while_waiting`
shows what is not promised.
-/

set_option autoImplicit false

namespace OpenIdea.Logd

open OpenIdea.Lib OpenIdea.Lib.Runs

namespace Daemon

/-! ## Who is accepted -/

variable {s s' : Daemon} {sid : Nat}

variable {l : LogLevel} {iFrames : Nat}

/-- A level that is only moved on by its writer has accepted nothing new. -/
theorem accepted_setFile {f : LogFileInstance} (h : f.accepted = (s.logFiles l).accepted)
    (k : LogLevel) : ((s.setFile l f).logFiles k).accepted = (s.logFiles k).accepted := by
  by_cases hk : k = l
  · rw [hk, setFile_self, h]
  · rw [setFile_ne _ _ _ hk]

theorem accepted_accept_self (s : Daemon) (l : LogLevel) (x : Log) :
    ((s.accept l x).logFiles l).accepted = (s.logFiles l).accepted ++ [x] := by
  show ((s.setFile l ((s.logFiles l).addLog x)).logFiles l).accepted = _
  rw [setFile_self]
  rfl

theorem accepted_accept_ne (s : Daemon) {k : LogLevel} (x : Log) (h : k ≠ l) :
    ((s.accept l x).logFiles k).accepted = (s.logFiles k).accepted := by
  show ((s.setFile l ((s.logFiles l).addLog x)).logFiles k).accepted = _
  rw [setFile_ne _ _ _ h]

theorem logFiles_endOnDataIn (s : Daemon) (sid iUsed : Nat) (resuming : Bool) :
    (s.endOnDataIn sid iUsed resuming).logFiles = s.logFiles := by
  obtain ⟨sessions, runner, h⟩ := endOnDataIn_fields s sid iUsed resuming
  rw [h]

theorem logFiles_leave (s : Daemon) (sid : Nat) (resuming : Bool) :
    (s.leave sid resuming).logFiles = s.logFiles := by
  obtain ⟨sessions, runner, h⟩ := leave_fields s sid resuming
  rw [h]

/-- What a step adds to what the levels have accepted: nothing, or one log that is not barred. -/
def AcceptsFairly (s s' : Daemon) : Prop :=
  (∀ l, (s'.logFiles l).accepted = (s.logFiles l).accepted) ∨
  ∃ l x, (s'.logFiles l).accepted = (s.logFiles l).accepted ++ [x] ∧
    (∀ k, k ≠ l → (s'.logFiles k).accepted = (s.logFiles k).accepted) ∧ ¬ s.Barred x.session

theorem acceptsFairly_of_eq (h : s'.logFiles = s.logFiles) : s.AcceptsFairly s' :=
  Or.inl fun _ => by rw [h]

theorem acceptsFairly_round {iUsed : Nat} {resuming : Bool} {title : Title}
    (h : Round s sid iUsed iFrames resuming title s') : s.AcceptsFairly s' := by
  cases h with
  | more hnext => exact acceptsFairly_of_eq (logFiles_endOnDataIn s sid iUsed resuming)
  | bad hnext => exact acceptsFairly_of_eq (logFiles_leave (s.passiveClose sid) sid resuming)
  | wait f rest hnext hwait =>
    exact acceptsFairly_of_eq ((logFiles_endOnDataIn _ sid iUsed resuming).trans (by simp))
  | skip f rest hnext hlevel => exact acceptsFairly_of_eq rfl
  | accept f rest l hnext hlevel hspace hbarred =>
    exact Or.inr ⟨l, ⟨some sid, title, f.text⟩, accepted_accept_self s l _,
      fun k hk => accepted_accept_ne s _ hk, hbarred⟩

theorem logFiles_resumeWaiting (s : Daemon) (bShutdown : Bool) :
    (s.resumeWaiting bShutdown).logFiles = s.logFiles := by
  rcases s.resumeWaiting_cases bShutdown with ⟨h, -⟩ | ⟨w, ws, -, -, h⟩
  · rw [h]
  · rw [h]

/-- **No step accepts a log that is barred.** -/
theorem acceptsFairly_step {e : Event} (hlimit : logFrameMax + 8 ≤ s.iMaxPendingBytes)
    (hstep : s.step e = some s') : s.AcceptsFairly s' := by
  cases e with
  | dataIn sid chunk =>
    obtain ⟨-, hs⟩ := Option.ite_none_right_eq_some.1 hstep
    exact Option.some.inj hs ▸ acceptsFairly_of_eq rfl
  | close sid => exact Option.some.inj hstep ▸ acceptsFairly_of_eq rfl
  | detach sid =>
    obtain ⟨-, hs⟩ := Option.ite_none_right_eq_some.1 hstep
    exact Option.some.inj hs ▸ acceptsFairly_of_eq rfl
  | round title =>
    simp only [Daemon.step] at hstep
    split at hstep
    · exact Option.some.inj hstep ▸ acceptsFairly_round (onDataInRound_cases hlimit _ _ _ _ title)
    · cases hstep
  | resumeOnLoop =>
    obtain ⟨-, hs⟩ := Option.ite_none_right_eq_some.1 hstep
    exact Option.some.inj hs ▸ acceptsFairly_of_eq (logFiles_resumeWaiting _ false)
  | endResume =>
    simp only [Daemon.step] at hstep
    split at hstep
    · exact Option.some.inj hstep ▸ acceptsFairly_of_eq (scheduleResume_logFiles _)
    · cases hstep
  | writeSelf iLevel text title =>
    rw [← Option.some.inj hstep]
    rcases s.writeSelf_cases iLevel text title with heq | ⟨l, heq, -, hresuming, hqueue⟩
    · rw [heq]
      exact acceptsFairly_of_eq rfl
    · rw [heq]
      refine Or.inr ⟨l, ⟨none, title, text⟩, accepted_accept_self s l _,
        fun k hk => accepted_accept_ne s _ hk, fun hbarred => ?_⟩
      -- `WriteSelf` gives up where a session is resumed or waits
      rcases hbarred.1 with hsome | hne
      · rw [hresuming] at hsome
        exact absurd hsome (by decide)
      · exact hne hqueue
  | swapLogs l =>
    obtain ⟨f, hf, rfl⟩ := Option.map_eq_some_iff.1 hstep
    obtain ⟨-, ⟨-, -, rfl⟩ | ⟨-, -, rfl⟩ | ⟨-, rfl⟩⟩ := LogFileInstance.swapLogs_cases hf <;>
      exact Or.inl (accepted_setFile rfl)
  | writeNext l =>
    obtain ⟨f, hf, rfl⟩ := Option.map_eq_some_iff.1 hstep
    obtain ⟨x, todo, n, -, rfl⟩ := LogFileInstance.writeNext_cases hf
    exact Or.inl (accepted_setFile rfl)
  | flush l =>
    obtain ⟨f, hf, rfl⟩ := Option.map_eq_some_iff.1 hstep
    obtain ⟨n, -, rfl⟩ := LogFileInstance.flush_cases hf
    exact Or.inl (accepted_setFile rfl)
  | completeWrite l =>
    simp only [Daemon.step] at hstep
    split at hstep
    · rw [← Option.some.inj hstep]
      refine Or.inl fun k => ?_
      rw [Daemon.completeWrite, scheduleResume_logFiles]
      have hl : (s.logFiles l).finish.accepted = (s.logFiles l).accepted := rfl
      exact accepted_setFile hl k
    · cases hstep
  | rotate l => exact Option.some.inj hstep ▸ Or.inl (accepted_setFile rfl)
  | stop =>
    obtain ⟨-, hs⟩ := Option.ite_none_right_eq_some.1 hstep
    exact Option.some.inj hs ▸ acceptsFairly_of_eq rfl
  | drain =>
    obtain ⟨-, hs⟩ := Option.ite_none_right_eq_some.1 hstep
    exact Option.some.inj hs ▸ acceptsFairly_of_eq (logFiles_resumeWaiting _ true)
  | check =>
    obtain ⟨-, hs⟩ := Option.ite_none_right_eq_some.1 hstep
    rw [← Option.some.inj hs, checkWaiting]
    split <;> exact acceptsFairly_of_eq rfl
  | stopWriting =>
    simp only [Daemon.step] at hstep
    split at hstep
    · exact Option.some.inj hstep ▸ Or.inl (accepted_setFile rfl)
    · cases hstep
  | join =>
    simp only [Daemon.step] at hstep
    split at hstep
    · exact Option.some.inj hstep ▸ acceptsFairly_of_eq rfl
    · split at hstep
      · obtain ⟨-, hs⟩ := Option.ite_none_right_eq_some.1 hstep
        exact Option.some.inj hs ▸ acceptsFairly_of_eq rfl
      · cases hstep
    · cases hstep

/-! ## What a resume does -/

/-- While the runner is in the loop of `OnDataIn`, nothing but its own rounds moves it or touches a
buffer. -/
theorem step_parsing {e : Event} {iUsed : Nat} {resuming : Bool}
    (hr : s.runner = .parsing sid iUsed iFrames resuming) (he : ∀ title, e ≠ .round title)
    (hstep : s.step e = some s') :
    s'.runner = s.runner ∧
      ∀ other, (s'.sessions other).stInputBuffer = (s.sessions other).stInputBuffer := by
  have hbusy : s.runner ≠ .idle := fun hidle => (by cases hr.symm.trans hidle)
  have hsession : ∀ other (v : LogServerSession),
      v.stInputBuffer = (s.sessions other).stInputBuffer →
      ∀ k, ((s.setSession other v).sessions k).stInputBuffer = (s.sessions k).stInputBuffer := by
    intro other v hv k
    by_cases hk : k = other
    · rw [hk, setSession_self, hv]
    · rw [setSession_ne _ _ _ hk]
  cases e with
  | dataIn sid chunk =>
    obtain ⟨hpoll, -⟩ := Option.ite_none_right_eq_some.1 hstep
    exact absurd hpoll.1.2 hbusy
  | close other =>
    rw [← Option.some.inj hstep]
    exact ⟨rfl, hsession other _ rfl⟩
  | detach other =>
    obtain ⟨hpoll, -⟩ := Option.ite_none_right_eq_some.1 hstep
    exact absurd hpoll.1.2 hbusy
  | round title => exact absurd rfl (he title)
  | resumeOnLoop =>
    obtain ⟨hpoll, -⟩ := Option.ite_none_right_eq_some.1 hstep
    exact absurd hpoll.1.2 hbusy
  | endResume =>
    simp only [Daemon.step, hr] at hstep
    cases hstep
  | writeSelf iLevel text title =>
    rw [← Option.some.inj hstep]
    rcases s.writeSelf_cases iLevel text title with heq | ⟨l, heq, -⟩
    · rw [heq]
      exact ⟨rfl, fun _ => rfl⟩
    · rw [heq]
      exact ⟨rfl, fun _ => rfl⟩
  | swapLogs l | writeNext l | flush l =>
    obtain ⟨f, hf, rfl⟩ := Option.map_eq_some_iff.1 hstep
    exact ⟨rfl, fun _ => rfl⟩
  | completeWrite l =>
    simp only [Daemon.step] at hstep
    split at hstep
    · rw [← Option.some.inj hstep, Daemon.completeWrite, scheduleResume_runner,
        scheduleResume_sessions]
      exact ⟨rfl, fun _ => rfl⟩
    · cases hstep
  | rotate l => exact Option.some.inj hstep ▸ ⟨rfl, fun _ => rfl⟩
  | stop | drain | check =>
    obtain ⟨hpoll, -⟩ := Option.ite_none_right_eq_some.1 hstep
    exact absurd hpoll.2 hbusy
  | stopWriting =>
    simp only [Daemon.step] at hstep
    split at hstep
    · exact Option.some.inj hstep ▸ ⟨rfl, fun _ => rfl⟩
    · cases hstep
  | join =>
    simp only [Daemon.step] at hstep
    split at hstep
    · exact Option.some.inj hstep ▸ ⟨rfl, fun _ => rfl⟩
    · split at hstep
      · obtain ⟨-, hs⟩ := Option.ite_none_right_eq_some.1 hstep
        exact Option.some.inj hs ▸ ⟨rfl, fun _ => rfl⟩
      · cases hstep
    · cases hstep

/-- The same over a run in which the runner does not move. -/
theorem run_parsing {events : List Event} (hevents : ∀ title, .round title ∉ events) :
    ∀ {s s' : Daemon} {sid iUsed iFrames : Nat} {resuming : Bool},
      s.runner = .parsing sid iUsed iFrames resuming → runFrom step s events = some s' →
      s'.runner = s.runner ∧
        ∀ other, (s'.sessions other).stInputBuffer = (s.sessions other).stInputBuffer := by
  induction events with
  | nil =>
    intro s s' sid iUsed iFrames resuming _ hrun
    obtain rfl := Option.some.inj hrun
    exact ⟨rfl, fun _ => rfl⟩
  | cons e events ih =>
    intro s s' sid iUsed iFrames resuming hr hrun
    obtain ⟨s₁, hstep, hrest⟩ := runFrom_cons.1 hrun
    have hhead : ∀ title, e ≠ .round title := fun title he =>
      hevents title (he ▸ List.mem_cons_self)
    obtain ⟨hr₁, hbuf₁⟩ := step_parsing hr hhead hstep
    obtain ⟨hr', hbuf'⟩ := ih (fun title hm => hevents title (List.mem_cons_of_mem e hm))
      (hr₁.trans hr) hrest
    exact ⟨hr'.trans hr₁, fun other => (hbuf' other).trans (hbuf₁ other)⟩

/-- **The first round of a resume uses the frame that was waited for.** -/
theorem Backlog.first_round (h : s.Backlog) (hr : s.runner = .parsing sid 0 iFrames true)
    (title : Title) :
    ∃ f rest s', nextFrame (s.sessions sid).stInputBuffer = .message f rest ∧
      s.step (.round title) = some s' ∧ s'.runner = .parsing sid f.size (iFrames + 1) true ∧
      ∀ l, f.logLevel = some l →
        (s'.logFiles l).accepted = (s.logFiles l).accepted ++ [⟨some sid, title, f.text⟩] := by
  obtain ⟨f, rest, hnext, hfits⟩ := h.queue.first hr
  refine ⟨f, rest, s.onDataInRound sid 0 iFrames true title, hnext, ?_, ?_⟩
  · simp only [Daemon.step, hr]
  · have hresuming := (h.queue.parsing hr).2
    rw [if_pos rfl] at hresuming
    have hround := onDataInRound_cases h.accounts.limit sid 0 iFrames true title
    generalize s.onDataInRound sid 0 iFrames true title = s' at hround
    cases hround with
    | more hmore =>
      rw [List.drop_zero, hnext] at hmore
      cases hmore
    | bad hbad =>
      rw [List.drop_zero, hnext] at hbad
      cases hbad
    | wait f' rest' hnext' hwait =>
      rw [List.drop_zero, hnext] at hnext'
      obtain ⟨rfl, -⟩ := Parsed.message.inj hnext'
      -- nothing has been used, the frame fits, and the session is the one that is resumed
      rcases hwait with hused | hspace | hbarred
      · exact absurd hused (Nat.lt_irrefl 0)
      · omega
      · rcases hbarred.2 with hnone | hne
        · cases hnone
        · exact absurd hresuming.symm hne
    | skip f' rest' hnext' hlevel =>
      rw [List.drop_zero, hnext] at hnext'
      obtain ⟨rfl, -⟩ := Parsed.message.inj hnext'
      rw [Nat.zero_add]
      refine ⟨rfl, fun l hl => ?_⟩
      rw [hlevel] at hl
      cases hl
    | accept f' rest' l hnext' hlevel hspace hbarred =>
      rw [List.drop_zero, hnext] at hnext'
      obtain ⟨rfl, -⟩ := Parsed.message.inj hnext'
      rw [Nat.zero_add]
      refine ⟨rfl, fun k hk => ?_⟩
      rw [hlevel] at hk
      obtain rfl := Option.some.inj hk
      exact accepted_accept_self s l _

/-! ## A run in which two sessions wait -/

/-- A session whose frame does not fit is queued. -/
theorem queued_of_full (sid : Nat) (f : LogFrame) (l : LogLevel) (title : Title)
    (hlimit : logFrameMax + 8 ≤ s.iMaxPendingBytes) (hpoll : s.Polling)
    (hsession : s.sessions sid = {}) (hlevel : f.logLevel = some l)
    (hfull : s.space < f.text.length + 9) :
    ∃ s', runFrom step s [.dataIn sid f.encode, .round title] = some s' ∧
      s'.waitingSessions = s.waitingSessions ++ [⟨sid, f.text.length + 9⟩] ∧ s'.Polling ∧
      s'.iPendingBytes = s.iPendingBytes ∧ s'.iMaxPendingBytes = s.iMaxPendingBytes ∧
      s'.logFiles = s.logFiles ∧ s'.resumingSession = s.resumingSession ∧
      (s'.sessions sid).stInputBuffer = f.encode ∧
      ∀ other, other ≠ sid → s'.sessions other = s.sessions other := by
  have hin : s.step (.dataIn sid f.encode) = some (s.dataIn sid f.encode) := by
    rw [step, if_pos ⟨hpoll, by rw [hsession]; decide⟩]
  have hrunner : (s.dataIn sid f.encode).runner = .parsing sid 0 0 false := by
    simp only [Daemon.dataIn, hsession, if_neg (show ¬ (false = true) by decide)]
  have hbuffer : ((s.dataIn sid f.encode).sessions sid).stInputBuffer = f.encode := by
    simp only [Daemon.dataIn, Daemon.setSession, Function.update_self, hsession, List.nil_append]
  have hother : ∀ other, other ≠ sid → (s.dataIn sid f.encode).sessions other = s.sessions other :=
    fun other ho => by simp only [Daemon.dataIn, Daemon.setSession, Function.update_of_ne ho]
  have hnext : nextFrame (((s.dataIn sid f.encode).sessions sid).stInputBuffer.drop 0) =
      .message f [] := by
    rw [hbuffer, List.drop_zero]
    simpa using nextFrame_encode f []
  have hround := onDataInRound_cases (s := s.dataIn sid f.encode) hlimit sid 0 0 false title
  refine ⟨(s.dataIn sid f.encode).onDataInRound sid 0 0 false title, ?_, ?_⟩
  · rw [runFrom, hin, Option.bind_some, runFrom, step, hrunner]
    rfl
  -- of the rounds there may be, only the one that waits fits what is in the buffer
  generalize (s.dataIn sid f.encode).onDataInRound sid 0 0 false title = s' at hround
  cases hround with
  | more h => cases hnext.symm.trans h
  | bad h => cases hnext.symm.trans h
  | skip f' rest h hnone =>
    obtain ⟨rfl, -⟩ := Parsed.message.inj (hnext.symm.trans h)
    cases hlevel.symm.trans hnone
  | accept f' rest k h hk hspace hbarred =>
    obtain ⟨rfl, -⟩ := Parsed.message.inj (hnext.symm.trans h)
    exact absurd hspace (Nat.not_le.2 hfull)
  | wait f' rest h hwait =>
    obtain ⟨rfl, -⟩ := Parsed.message.inj (hnext.symm.trans h)
    simp only [endOnDataIn, leave, Bool.false_eq_true, if_false]
    refine ⟨by simp [Daemon.setSession, Daemon.dataIn], ⟨?_, rfl⟩, ?_, ?_, ?_, ?_, ?_, ?_⟩
    · simpa [Daemon.setSession, Daemon.dataIn] using hpoll.1
    · simp [Daemon.setSession, Daemon.dataIn]
    · simp [Daemon.setSession, Daemon.dataIn]
    · simp [Daemon.setSession, Daemon.dataIn]
    · simp [Daemon.setSession, Daemon.dataIn]
    · simp only [setSession_self, List.drop_zero]
      rw [queueWaiter_self]
      exact hbuffer
    · intro other ho
      show ((Daemon.setSession _ sid _).sessions other) = _
      rw [setSession_ne _ _ _ ho, queueWaiter_ne _ _ _ ho, hother other ho]

/-- The writer of a level with one log in its queue writes it and flushes. -/
theorem run_writer {x : Log} (h : s.logFiles l = { logs := [x], accepted := [x] }) :
    ∃ f, runFrom step s [.swapLogs l, .writeNext l, .flush l] = some (s.setFile l f) ∧
      f.writer = .completing x.size := by
  refine ⟨{ accepted := [x], written := [x], writer := .completing x.size, file := x.body }, ?_, rfl⟩
  simp [runFrom, step, h, LogFileInstance.swapLogs, LogFileInstance.writeNext,
    LogFileInstance.flush, setFile]

/-- A local log that fits an idle daemon is accepted. -/
theorem writeSelf_accept (iLevel : Nat) (l : LogLevel) {text : List UInt8} (title : Title)
    (hlevel : LogLevel.ofNat? iLevel = some l) (hmax : text.length + 9 ≤ s.iMaxPendingBytes)
    (hspace : text.length + 9 ≤ s.space) (hresuming : s.resumingSession = none)
    (hqueue : s.waitingSessions = []) :
    s.step (.writeSelf iLevel text title) = some (s.accept l ⟨none, title, text⟩) := by
  have htitle := title.2
  have hfree : ¬ s.Barred none := fun hb => by
    rcases hb.1 with hsome | hne
    · rw [hresuming] at hsome
      exact absurd hsome (by decide)
    · exact hne hqueue
  rw [step, writeLog, hlevel]
  dsimp only
  rw [if_neg (by omega), htitle, if_neg (not_or.2 ⟨by omega, hfree⟩)]

/-! ## Back-pressure -/

/-- The frame a popped session waited for is the one its resume uses first: accepted if its level is
valid, skipped otherwise, whatever the other threads do before. -/
def ServesHead (s s₁ : Daemon) (sid : Nat) : Prop :=
  ∃ w ws f rest, s.waitingSessions = w :: ws ∧ w.pSession = sid ∧ s₁.waitingSessions = ws ∧
    nextFrame (s.sessions sid).stInputBuffer = .message f rest ∧ w.iBytes = f.text.length + 9 ∧
    ∀ events s₂ title, (∀ t, .round t ∉ events) → runFrom step s₁ events = some s₂ →
      ∃ s₃, s₂.step (.round title) = some s₃ ∧ s₃.runner = .parsing sid f.size 1 true ∧
        ∀ l, f.logLevel = some l →
          (s₃.logFiles l).accepted = (s₂.logFiles l).accepted ++ [⟨some sid, title, f.text⟩]

/-- What back-pressure is for. -/
structure BackPressure (s : Daemon) : Prop where
  /-- the sizes accepted are those completed and `m_iPendingBytes` -/
  exact : s.iPendingBytes + (LogLevel.total fun l => logsSize (s.logFiles l).completed) =
    LogLevel.total fun l => logsSize (s.logFiles l).accepted
  /-- what `CompleteWrite` takes away is there -/
  covered : ∀ l iBytes, (s.logFiles l).writer = .completing iBytes → iBytes ≤ s.iPendingBytes
  bounded : s.iPendingBytes ≤ s.iMaxPendingBytes
  distinct : (s.waitingSessions.map WaitingLog.pSession).Nodup
  /-- while a session waits or is resumed, only the resumed one has a frame accepted -/
  fair : ∀ e s', s.step e = some s' → ∀ l,
    (s'.logFiles l).accepted = (s.logFiles l).accepted ∨
    ∃ x, (s'.logFiles l).accepted = (s.logFiles l).accepted ++ [x] ∧
      (s.waitingSessions ≠ [] ∨ s.resumingSession ≠ none →
        ∃ sid, s.resumingSession = some sid ∧ x.session = some sid)
  serves : ∀ e s₁ sid, e = .resumeOnLoop ∨ e = .drain → s.step e = some s₁ →
    s₁.resumingSession = some sid → s.ServesHead s₁ sid
  awake : s.phase = .running → ∀ w ws, s.waitingSessions = w :: ws →
    w.iBytes ≤ s.iMaxPendingBytes - s.iPendingBytes → 0 < s.posted ∨ s.resumingSession ≠ none
  /-- `Stop` sleeps only while the head of the queue does not fit -/
  sleeps : s.phase = .blocked → ∃ w ws, s.waitingSessions = w :: ws ∧
    s.iMaxPendingBytes - s.iPendingBytes < w.iBytes

theorem Accounts.total_held (h : s.Accounts) :
    s.iPendingBytes + (LogLevel.total fun l => logsSize (s.logFiles l).completed) =
      LogLevel.total fun l => logsSize (s.logFiles l).accepted := by
  have hheld : ∀ l, (s.logFiles l).held + logsSize (s.logFiles l).completed =
      logsSize (s.logFiles l).accepted := fun l => (h.ledger l).held_eq
  have htrace := hheld .trace
  have hdebug := hheld .debug
  have hinfo := hheld .info
  have hwarning := hheld .warning
  have herror := hheld .error
  rw [h.exact, LogLevel.total_eq, LogLevel.total_eq, LogLevel.total_eq]
  omega

theorem fair_of_not_barred {x : Log} (h : ¬ s.Barred x.session)
    (hbusy : s.waitingSessions ≠ [] ∨ s.resumingSession ≠ none) :
    ∃ sid, s.resumingSession = some sid ∧ x.session = some sid := by
  have hfree : ¬ (x.session = none ∨ x.session ≠ s.resumingSession) := fun hb =>
    h ⟨hbusy.symm.imp_left Option.isSome_iff_ne_none.2, hb⟩
  rw [not_or, not_not] at hfree
  obtain ⟨sid, hsid⟩ := Option.ne_none_iff_exists'.1 hfree.1
  exact ⟨sid, hfree.2 ▸ hsid, hsid⟩

/-- A pop of `ResumeWaiting` serves the head of the queue. -/
theorem serves_of_popped {t s₁ : Daemon} {bShutdown : Bool} (hb₁ : s₁.Backlog) (hs : s.Backlog)
    (hidle : s.runner = .idle) (hqueue : t.waitingSessions = s.waitingSessions)
    (hresuming : t.resumingSession = s.resumingSession) (hsessions : t.sessions = s.sessions)
    (hpop : t.resumeWaiting bShutdown = s₁) (hsid : s₁.resumingSession = some sid) :
    s.ServesHead s₁ sid := by
  rcases t.resumeWaiting_cases bShutdown with ⟨heq, -⟩ | ⟨w, ws, hws, -, heq⟩
  · -- nobody is popped, and nobody was resumed before
    rw [heq] at hpop
    rw [← hpop] at hsid
    have hnone := hs.queue.idle hidle
    rw [← hresuming] at hnone
    exact absurd (hnone.symm.trans hsid) nofun
  · rw [heq] at hpop
    rw [hqueue] at hws
    have hw : w.pSession = sid := by
      rw [← hpop] at hsid
      exact Option.some.inj hsid
    have hrunner : s₁.runner = .parsing sid 0 0 true := by
      rw [← hpop, ← hw]
    have hbuffer : (s₁.sessions sid).stInputBuffer = (s.sessions sid).stInputBuffer := by
      rw [← hpop, ← hsessions]
      simp only [hw, Function.update_self, LogServerSession.startResume]
    obtain ⟨f, rest, hnext, hbytes⟩ := hs.queue.awaits w (hws ▸ List.mem_cons_self)
    rw [hw] at hnext
    refine ⟨w, ws, f, rest, hws, hw, by rw [← hpop], hnext, hbytes, ?_⟩
    intro events s₂ title hevents hrun
    obtain ⟨hrunner₂, hbuffer₂⟩ := run_parsing hevents hrunner hrun
    have hb₂ : s₂.Backlog := runFrom_invariant (fun _ _ _ hb hstep => hb.step hstep) hb₁ hrun
    obtain ⟨f', rest', s₃, hnext', hstep, hrunner₃, hacc⟩ :=
      hb₂.first_round (hrunner₂.trans hrunner) title
    rw [hbuffer₂, hbuffer, hnext] at hnext'
    obtain ⟨rfl, -⟩ := Parsed.message.inj hnext'
    exact ⟨s₃, hstep, hrunner₃, hacc⟩

/-- **Back-pressure is exact and fair, and loses no wake-up, in every state of every run.** -/
theorem back_pressure {s : Daemon} (hs : s.Reachable) : s.BackPressure := by
  have h := hs.backlog
  refine ⟨h.accounts.total_held, ?_, h.accounts.bounded, h.queue.distinct, ?_, ?_, ?_, ?_⟩
  · intro l iBytes hw
    have hle := h.accounts.bytes_le l
    rw [hw] at hle
    exact hle
  · intro e s' hstep l
    rcases acceptsFairly_step h.accounts.limit hstep with hsame | ⟨k, x, hk, hother, hbarred⟩
    · exact Or.inl (hsame l)
    · -- the one level that has grown, or another one
      by_cases hl : l = k
      · rw [hl]
        exact Or.inr ⟨x, hk, fair_of_not_barred hbarred⟩
      · exact Or.inl (hother l hl)
  · intro e s₁ sid he hstep hsid
    have hb₁ := h.step hstep
    rcases he with rfl | rfl
    · obtain ⟨hpoll, hs₁⟩ := Option.ite_none_right_eq_some.1 hstep
      exact serves_of_popped (t := { s with posted := s.posted - 1 }) hb₁ h hpoll.1.2 rfl rfl rfl
        (Option.some.inj hs₁) hsid
    · obtain ⟨hpoll, hs₁⟩ := Option.ite_none_right_eq_some.1 hstep
      exact serves_of_popped (t := { s with phase := .checking }) hb₁ h hpoll.2 rfl rfl rfl
        (Option.some.inj hs₁) hsid
  · intro hp w ws hqueue hfits
    have hhead : s.headFits = true := by
      rw [headFits_cons hqueue, decide_eq_true_iff]
      exact hfits
    exact (h.turns.2 hp hhead).imp_right Option.isSome_iff_ne_none.1
  · intro hp
    obtain ⟨hne, hno⟩ := h.turns.1.blocked hp
    obtain ⟨w, ws, hqueue⟩ := List.exists_cons_of_ne_nil hne
    rw [headFits_cons hqueue, decide_eq_false_iff_not] at hno
    exact ⟨w, ws, hqueue, Nat.not_le.1 hno⟩

/-- Back-pressure in the state in which a session's frame has just been accepted. -/
theorem back_pressure_after_frame :
    ∃ s : Daemon, s.BackPressure ∧ s.iPendingBytes = 10 ∧ s.runner = .parsing 1 6 1 false := by
  have hrun : (runFrom step { iMaxPendingBytes := logFrameMax + 8 }
      [.dataIn 1 (appendLogFrame 0 [65]),
        .round ⟨[49, 50, 58, 48, 48, 58, 48, 48, 32], rfl⟩]).map (fun s =>
          decide (s.iPendingBytes = 10 ∧ s.runner = .parsing 1 6 1 false)) = some true := by
    decide +kernel
  obtain ⟨s, hs, hfacts⟩ := Option.map_eq_some_iff.1 hrun
  exact ⟨s, back_pressure ⟨logFrameMax + 8, _, _, rfl, hs⟩, of_decide_eq_true hfacts⟩

/-- Two sessions wait, and the first of them has a frame accepted: the queue is served, so that a
waiting session does see the frames of another one accepted. -/
theorem another_accepted_while_waiting :
    ¬ ∀ s s' : Daemon, s.Reachable → ∀ e, s.step e = some s' → ∀ sid,
      sid ∈ s.waitingSessions.map WaitingLog.pSession ∨ s.resumingSession = some sid →
      ∀ l x, (s'.logFiles l).accepted = (s.logFiles l).accepted ++ [x] → x.session = some sid := by
  intro hclaim
  obtain ⟨text, htext⟩ : ∃ text : List UInt8, text.length = logFrameMax - 1 :=
    ⟨List.replicate (logFrameMax - 1) 0, List.length_replicate⟩
  let title : Title := ⟨[49, 50, 58, 48, 48, 58, 48, 48, 32], rfl⟩
  let x : Log := ⟨none, title, text⟩
  let f : LogFrame := ⟨0, [65], by decide⟩
  let s₀ : Daemon := { iMaxPendingBytes := logFrameMax + 8 }
  have hsize : x.size = logFrameMax + 8 := by
    rw [Log.size_eq, title.2]
    show text.length + 9 = _
    rw [htext]
    rfl
  -- the local log takes all the space
  have hspace₀ : text.length + 9 ≤ s₀.space := by
    rw [htext]
    decide
  have hstep₁ := writeSelf_accept (s := s₀) 0 .trace title rfl hspace₀ hspace₀ rfl rfl
  have hfull₁ : (s₀.accept .trace x).space < 10 := by
    show s₀.iMaxPendingBytes - (0 + x.size) < 10
    rw [hsize]
    decide
  -- two sessions come to wait
  obtain ⟨s₂, hrun₂, hqueue₂, hpoll₂, hpending₂, hmax₂, hfiles₂, hresuming₂, hbuffer₂, hother₂⟩ :=
    queued_of_full (s := s₀.accept .trace x) 1 f .trace title (Nat.le_refl _) ⟨rfl, rfl⟩ rfl rfl
      hfull₁
  have hfull₂ : s₂.space < 10 := by
    rw [space, hpending₂, hmax₂]
    exact hfull₁
  obtain ⟨s₃, hrun₃, hqueue₃, hpoll₃, hpending₃, hmax₃, hfiles₃, hresuming₃, -, hother₃⟩ :=
    queued_of_full (s := s₂) 2 f .trace title (Nat.le_of_eq hmax₂.symm) hpoll₂
      (hother₂ 2 (by decide)) rfl hfull₂
  -- the log is written
  have hfile₃ : s₃.logFiles .trace = { logs := [x], accepted := [x] } := by
    rw [hfiles₃, hfiles₂]
    rfl
  obtain ⟨file, hrun₄, hwriter⟩ := run_writer hfile₃
  have hstep₅ : (s₃.setFile .trace file).step (.completeWrite .trace) =
      some (((s₃.setFile .trace file).setFile .trace file.finish).completeWrite x.size) := by
    rw [step, setFile_self, hwriter]
  have hreach₅ : Reachable
      (((s₃.setFile .trace file).setFile .trace file.finish).completeWrite x.size) :=
    ⟨logFrameMax + 8, s₀, _, rfl, runFrom_cons.2 ⟨_, hstep₁, runFrom_append.2 ⟨_, hrun₂,
      runFrom_append.2 ⟨_, hrun₃, runFrom_append.2 ⟨_, hrun₄, runFrom_cons.2 ⟨_, hstep₅,
        runFrom_nil _⟩⟩⟩⟩⟩⟩
  have hrunning : s₃.phase = .running := hpoll₃.1
  generalize hs₅ : ((s₃.setFile .trace file).setFile .trace file.finish).completeWrite x.size = s₅
    at hreach₅ hstep₅
  have hphase₅ : s₅.phase = .running := by
    simp [← hs₅, Daemon.completeWrite, setFile, hrunning]
  have hrunner₅ : s₅.runner = .idle := by
    simpa [← hs₅, Daemon.completeWrite, setFile] using hpoll₃.2
  have hqueue₅ : s₅.waitingSessions = [⟨1, 10⟩, ⟨2, 10⟩] := by
    simp only [← hs₅, Daemon.completeWrite, scheduleResume_waitingSessions, setFile]
    rw [hqueue₃, hqueue₂]
    rfl
  have hsessions₅ : s₅.sessions = s₃.sessions := by
    simp [← hs₅, Daemon.completeWrite, setFile]
  have hspace₅ : 10 ≤ s₅.space := by
    simp only [← hs₅, Daemon.completeWrite, scheduleResume_space, setFile]
    show 10 ≤ s₃.iMaxPendingBytes - (s₃.iPendingBytes - x.size)
    rw [hmax₃, hmax₂, hpending₃, hpending₂]
    show 10 ≤ logFrameMax + 8 - (0 + x.size - x.size)
    rw [hsize]
    decide
  have hhead₅ : s₅.headFits = true := by
    rw [headFits_cons hqueue₅, decide_eq_true_iff]
    exact hspace₅
  have hnone₅ : s₅.resumingSession = none := hreach₅.backlog.queue.idle hrunner₅
  -- the first of the two is popped, and its first frame accepted
  have hposted₅ : 0 < s₅.posted := by
    have hawake := hreach₅.backlog.turns.2 hphase₅ hhead₅
    rw [hnone₅] at hawake
    exact hawake.resolve_right (by decide)
  have hstep₆ : s₅.step .resumeOnLoop =
      some (resumeWaiting { s₅ with posted := s₅.posted - 1 } false) := by
    rw [step, if_pos ⟨⟨hphase₅, hrunner₅⟩, hposted₅⟩]
  have hb₆ := hreach₅.backlog.step hstep₆
  rcases resumeWaiting_cases { s₅ with posted := s₅.posted - 1 } false with
    ⟨-, hno⟩ | ⟨w, ws, hws, -, heq⟩
  · exact absurd (hno.symm.trans hhead₅) (by decide)
  · obtain ⟨rfl, rfl⟩ := List.cons.inj (hws.symm.trans hqueue₅)
    rw [heq] at hstep₆ hb₆
    obtain ⟨f', rest, s₇, hnext, hstep₇, -, hacc⟩ := hb₆.first_round rfl title
    have hbuffer : nextFrame (s₅.sessions 1).stInputBuffer = .message f [] := by
      rw [hsessions₅, hother₃ 1 (by decide), hbuffer₂]
      simpa using nextFrame_encode f []
    simp only [Function.update_self, LogServerSession.startResume] at hnext
    obtain ⟨rfl, -⟩ := Parsed.message.inj (hbuffer.symm.trans hnext)
    obtain ⟨iLimit, t, events, hinit, hrun⟩ := hreach₅
    have hrun₆ := runFrom_append.2 ⟨s₅, hrun, runFrom_cons.2 ⟨_, hstep₆, runFrom_nil _⟩⟩
    have hreach₆ : Reachable _ := ⟨iLimit, t, _, hinit, hrun₆⟩
    have hsame := hclaim _ s₇ hreach₆ (.round title) hstep₇ 2 (Or.inl (by simp)) .trace _
      (hacc .trace rfl)
    exact absurd hsame (by simp)

end Daemon

end OpenIdea.Logd

import OpenIdea.Logd.Fairness

/-!
# Every frame is written once

What becomes of the stream of one connection, when it is one of log frames.  At every moment it is
what has been accepted of it, then what is left in the buffer behind the frames the runner has used:
`Progress`.  A step does one of four things to a session, `Touch`, and one of eight to a level,
`LevelStep`; when `Stop` returns, nothing is left.  The main result is `frames_written_once`.
-/

set_option autoImplicit false

namespace OpenIdea.Logd

open OpenIdea.Lib OpenIdea.Lib.Runs

/-! ## Frames and their logs -/

/-- The texts of the frames of a level. -/
def frameTexts (l : LogLevel) (frames : List LogFrame) : List (List UInt8) :=
  (frames.filter fun f => decide (f.logLevel = some l)).map LogFrame.text

/-- The texts of the logs a session has given. -/
def sessionTexts (sid : Nat) (xs : List Log) : List (List UInt8) :=
  (xs.filter fun x => decide (x.session = some sid)).map Log.text

theorem frameTexts_concat (l : LogLevel) (frames : List LogFrame) (f : LogFrame) :
    frameTexts l (frames ++ [f]) =
      frameTexts l frames ++ if f.logLevel = some l then [f.text] else [] := by
  rw [frameTexts, frameTexts, List.filter_append, List.map_append]
  by_cases h : f.logLevel = some l
  · simp [h]
  · simp [h]

theorem sessionTexts_append (sid : Nat) (xs ys : List Log) :
    sessionTexts sid (xs ++ ys) = sessionTexts sid xs ++ sessionTexts sid ys := by
  simp [sessionTexts]

theorem sessionTexts_of_none {sid : Nat} (xs : List Log) (h : ∀ x ∈ xs, x.session ≠ some sid) :
    sessionTexts sid xs = [] := by
  rw [sessionTexts, List.filter_eq_nil_iff.2 (fun x hx => by simpa using h x hx), List.map_nil]

/-- What the channel of a session hands over in an event. -/
def handedIn (sid : Nat) : Daemon.Event → List UInt8
  | .dataIn other chunk => if other = sid then chunk else []
  | _ => []

/-- What the channel of a session has handed over in a run. -/
def handed (sid : Nat) (events : List Daemon.Event) : List UInt8 := events.flatMap (handedIn sid)

namespace Daemon

/-! ## What a step does to a session -/

/-- How much of its buffer the runner has used, if it is in the session. -/
def usedBy (s : Daemon) (sid : Nat) : Option Nat :=
  match s.runner with
  | .idle => none
  | .parsing other iUsed _ _ => if other = sid then some iUsed else none
  | .resumed _ => none

variable {s s' : Daemon} {iUsed iFrames sid : Nat} {resuming : Bool} {e : Event}
  {done : List LogFrame} {l : LogLevel}

theorem usedBy_of_idle (h : s.runner = .idle) (sid : Nat) : s.usedBy sid = none := by
  rw [usedBy, h]

variable {other : Nat} {title : Title} {f : LogFileInstance}

theorem usedBy_of_resumed (h : s.runner = .resumed other) (sid : Nat) : s.usedBy sid = none := by
  rw [usedBy, h]

theorem usedBy_self (h : s.runner = .parsing sid iUsed iFrames resuming) :
    s.usedBy sid = some iUsed := by
  rw [usedBy, h]
  exact if_pos rfl

theorem usedBy_ne (h : s.runner = .parsing other iUsed iFrames resuming) (hne : other ≠ sid) :
    s.usedBy sid = none := by
  rw [usedBy, h]
  exact if_neg hne

/-- The step leaves the session as it is. -/
structure Same (s s' : Daemon) (sid : Nat) : Prop where
  received : (s'.sessions sid).received = (s.sessions sid).received
  buffer : (s'.sessions sid).stInputBuffer = (s.sessions sid).stInputBuffer
  waiting : (s'.sessions sid).waiting = (s.sessions sid).waiting
  used : s'.usedBy sid = s.usedBy sid
  texts : ∀ l, sessionTexts sid (s'.logFiles l).accepted = sessionTexts sid (s.logFiles l).accepted

/-- What a step may do to a session. -/
inductive Touch (s : Daemon) (sid : Nat) (e : Event) (s' : Daemon) : Prop
  | same (h : s.Same s' sid) (he : handedIn sid e = [])
  | dataIn (chunk : List UInt8) (he : e = .dataIn sid chunk) (hidle : s.runner = .idle)
      (h : s' = s.dataIn sid chunk)
  | round (title : Title) (iUsed iFrames : Nat) (resuming : Bool) (he : e = .round title)
      (hr : s.runner = .parsing sid iUsed iFrames resuming)
      (h : Round s sid iUsed iFrames resuming title s')
  | popped (he : handedIn sid e = []) (hidle : s.runner = .idle) (bShutdown : Bool)
      (hsession : s'.sessions sid = (s.sessions sid).startResume bShutdown)
      (hr : s'.runner = .parsing sid 0 0 true) (hfiles : s'.logFiles = s.logFiles)

/-- A step that changes neither the sessions, nor the runner, nor what is accepted. -/
theorem same_of_eq (sid : Nat) (hsessions : s'.sessions = s.sessions)
    (hrunner : s'.runner = s.runner)
    (haccepted : ∀ l, (s'.logFiles l).accepted = (s.logFiles l).accepted) : s.Same s' sid where
  received := by rw [hsessions]
  buffer := by rw [hsessions]
  waiting := by rw [hsessions]
  used := by rw [usedBy, usedBy, hrunner]
  texts := fun l => by rw [haccepted l]

theorem same_setSession (sid other : Nat) {v : LogServerSession}
    (hreceived : v.received = (s.sessions other).received)
    (hbuffer : v.stInputBuffer = (s.sessions other).stInputBuffer)
    (hwaiting : v.waiting = (s.sessions other).waiting) : s.Same (s.setSession other v) sid := by
  by_cases ho : sid = other
  · refine ⟨?_, ?_, ?_, rfl, fun _ => rfl⟩
    · rw [ho, setSession_self, hreceived]
    · rw [ho, setSession_self, hbuffer]
    · rw [ho, setSession_self, hwaiting]
  · refine ⟨?_, ?_, ?_, rfl, fun _ => rfl⟩ <;> rw [setSession_ne _ _ _ ho]

/-- The runner is busy with another session. -/
theorem same_of_other (hr : s.runner = .parsing other iUsed iFrames resuming) (hne : other ≠ sid)
    (h : Round s other iUsed iFrames resuming title s') : s.Same s' sid := by
  have hused := usedBy_ne hr hne
  have hne' : sid ≠ other := fun he => hne he.symm
  -- after its end the runner is not in a session at all
  have hleave : ∀ t : Daemon, (t.leave other resuming).sessions sid = t.sessions sid ∧
      (t.leave other resuming).usedBy sid = none := by
    intro t
    cases resuming with
    | false => exact ⟨rfl, rfl⟩
    | true => exact ⟨setSession_ne _ _ _ hne', rfl⟩
  have hend : ∀ t : Daemon, (t.endOnDataIn other iUsed resuming).sessions sid = t.sessions sid ∧
      (t.endOnDataIn other iUsed resuming).usedBy sid = none := by
    intro t
    rw [endOnDataIn]
    refine ⟨(hleave _).1.trans ?_, (hleave _).2⟩
    exact setSession_ne _ _ _ hne'
  cases h with
  | more hnext =>
    have hview := hend s
    refine ⟨by rw [hview.1], by rw [hview.1], by rw [hview.1], hview.2.trans hused.symm,
      fun l => ?_⟩
    rw [logFiles_endOnDataIn]
  | bad hnext =>
    have hview := hleave (s.passiveClose other)
    have hclose : (s.passiveClose other).sessions sid = s.sessions sid :=
      setSession_ne _ _ _ hne'
    refine ⟨by rw [hview.1, hclose], by rw [hview.1, hclose], by rw [hview.1, hclose],
      hview.2.trans hused.symm, fun l => ?_⟩
    rw [logFiles_leave]
    rfl
  | wait f rest hnext hwait =>
    have hview := hend (s.queueWaiter other (f.text.length + 9))
    have hqueued := queueWaiter_ne s other (f.text.length + 9) hne'
    refine ⟨by rw [hview.1, hqueued], by rw [hview.1, hqueued], by rw [hview.1, hqueued],
      hview.2.trans hused.symm, fun l => ?_⟩
    rw [logFiles_endOnDataIn, queueWaiter_logFiles]
  | skip f rest hnext hlevel =>
    exact ⟨rfl, rfl, rfl, (usedBy_ne rfl hne).trans hused.symm, fun _ => rfl⟩
  | accept f rest l hnext hlevel hspace hbarred =>
    refine ⟨rfl, rfl, rfl, (usedBy_ne rfl hne).trans hused.symm, fun k => ?_⟩
    show sessionTexts sid ((s.accept l ⟨some other, title, f.text⟩).logFiles k).accepted = _
    by_cases hk : k = l
    · rw [hk, accepted_accept_self, sessionTexts_append,
        sessionTexts_of_none [_] (fun x hx => ?_), List.append_nil]
      rw [List.mem_singleton.1 hx]
      exact fun he => hne (Option.some.inj he)
    · rw [accepted_accept_ne s _ hk]

theorem touch_resumeWaiting {t : Daemon} (sid : Nat) (bShutdown : Bool) (hidle : s.runner = .idle)
    (hsessions : t.sessions = s.sessions) (hrunner : t.runner = s.runner)
    (hfiles : t.logFiles = s.logFiles) (he : handedIn sid e = []) :
    Touch s sid e (t.resumeWaiting bShutdown) := by
  rcases t.resumeWaiting_cases bShutdown with ⟨heq, -⟩ | ⟨w, ws, -, -, heq⟩
  · rw [heq]
    exact .same (same_of_eq sid hsessions hrunner (fun l => by rw [← hfiles])) he
  · rw [heq]
    by_cases hw : w.pSession = sid
    · refine .popped he hidle bShutdown ?_ (by rw [hw]) hfiles
      simp only [hw, Function.update_self, hsessions]
    · have hne : sid ≠ w.pSession := fun h => hw h.symm
      refine .same ⟨?_, ?_, ?_, ?_, fun l => by rw [← hfiles]⟩ he
      · simp only [Function.update_of_ne hne, hsessions]
      · simp only [Function.update_of_ne hne, hsessions]
      · simp only [Function.update_of_ne hne, hsessions]
      · exact (usedBy_ne rfl hw).trans (usedBy_of_idle hidle sid).symm

/-- **What a step does to a session.** -/
theorem touch_step (hb : s.Backlog) (sid : Nat) (hstep : s.step e = some s') :
    Touch s sid e s' := by
  cases e with
  | dataIn other chunk =>
    obtain ⟨hpoll, hs⟩ := Option.ite_none_right_eq_some.1 hstep
    rw [← Option.some.inj hs]
    by_cases ho : other = sid
    · subst ho
      exact .dataIn chunk rfl hpoll.1.2 rfl
    · have hne : sid ≠ other := fun h => ho h.symm
      have hview : (s.dataIn other chunk).sessions sid = s.sessions sid := by
        simp only [Daemon.dataIn, Daemon.setSession, Function.update_of_ne hne]
      refine .same ⟨by rw [hview], by rw [hview], by rw [hview], ?_, fun _ => rfl⟩ ?_
      · rw [usedBy_of_idle hpoll.1.2]
        -- a session that waits only buffers the chunk; else the loop begins, for it alone
        cases hw : (s.sessions other).waiting with
        | true => exact usedBy_of_idle (by simp [Daemon.dataIn, hw]) sid
        | false =>
          have hr : (s.dataIn other chunk).runner = .parsing other 0 0 false := by
            simp [Daemon.dataIn, hw]
          exact usedBy_ne hr ho
      · rw [handedIn, if_neg ho]
  | close other => exact Option.some.inj hstep ▸ .same (same_setSession sid other rfl rfl rfl) rfl
  | detach other =>
    obtain ⟨-, hs⟩ := Option.ite_none_right_eq_some.1 hstep
    exact Option.some.inj hs ▸ .same (same_setSession sid other rfl rfl rfl) rfl
  | round title =>
    simp only [Daemon.step] at hstep
    split at hstep
    · next other iUsed iFrames resuming hr =>
        rw [← Option.some.inj hstep]
        -- whose data is looked at decides whether the round is one of this session
        have hround := onDataInRound_cases hb.accounts.limit other iUsed iFrames resuming title
        by_cases ho : other = sid
        · subst ho
          exact .round title iUsed iFrames resuming rfl hr hround
        · exact .same (same_of_other hr ho hround) rfl
    · cases hstep
  | resumeOnLoop =>
    obtain ⟨hpoll, hs⟩ := Option.ite_none_right_eq_some.1 hstep
    exact Option.some.inj hs ▸ touch_resumeWaiting sid false hpoll.1.2 rfl rfl rfl rfl
  | endResume =>
    simp only [Daemon.step] at hstep
    split at hstep
    · next other hr =>
        rw [← Option.some.inj hstep, endResumeWaiting]
        refine .same ⟨by rw [scheduleResume_sessions], by rw [scheduleResume_sessions],
          by rw [scheduleResume_sessions], ?_, fun l => by rw [scheduleResume_logFiles]⟩ rfl
        rw [usedBy_of_resumed hr]
        exact usedBy_of_idle (scheduleResume_runner _) sid
    · cases hstep
  | writeSelf iLevel text title =>
    rw [← Option.some.inj hstep]
    rcases s.writeSelf_cases iLevel text title with heq | ⟨l, heq, -⟩
    · rw [heq]
      exact .same (same_of_eq sid rfl rfl (fun _ => rfl)) rfl
    · rw [heq]
      refine .same ⟨rfl, rfl, rfl, rfl, fun k => ?_⟩ rfl
      by_cases hk : k = l
      · rw [hk, accepted_accept_self, sessionTexts_append,
          sessionTexts_of_none [_] (fun x hx => ?_), List.append_nil]
        rw [List.mem_singleton.1 hx]
        intro h
        cases h
      · rw [accepted_accept_ne s _ hk]
  | swapLogs l =>
    obtain ⟨f, hf, rfl⟩ := Option.map_eq_some_iff.1 hstep
    obtain ⟨-, ⟨-, -, rfl⟩ | ⟨-, -, rfl⟩ | ⟨-, rfl⟩⟩ := LogFileInstance.swapLogs_cases hf <;>
      exact .same (same_of_eq sid rfl rfl (accepted_setFile rfl)) rfl
  | writeNext l =>
    obtain ⟨f, hf, rfl⟩ := Option.map_eq_some_iff.1 hstep
    obtain ⟨x, todo, n, -, rfl⟩ := LogFileInstance.writeNext_cases hf
    exact .same (same_of_eq sid rfl rfl (accepted_setFile rfl)) rfl
  | flush l =>
    obtain ⟨f, hf, rfl⟩ := Option.map_eq_some_iff.1 hstep
    obtain ⟨n, -, rfl⟩ := LogFileInstance.flush_cases hf
    exact .same (same_of_eq sid rfl rfl (accepted_setFile rfl)) rfl
  | completeWrite l =>
    simp only [Daemon.step] at hstep
    split at hstep
    · rw [← Option.some.inj hstep, Daemon.completeWrite]
      refine .same (same_of_eq sid (by rw [scheduleResume_sessions]; rfl)
        (by rw [scheduleResume_runner]; rfl) (fun k => ?_)) rfl
      have hl : (s.logFiles l).finish.accepted = (s.logFiles l).accepted := rfl
      rw [scheduleResume_logFiles]
      exact accepted_setFile hl k
    · cases hstep
  | rotate l =>
    exact Option.some.inj hstep ▸ .same (same_of_eq sid rfl rfl (accepted_setFile rfl)) rfl
  | stop =>
    obtain ⟨-, hs⟩ := Option.ite_none_right_eq_some.1 hstep
    exact Option.some.inj hs ▸ .same (same_of_eq sid rfl rfl (fun _ => rfl)) rfl
  | drain =>
    obtain ⟨hp, hs⟩ := Option.ite_none_right_eq_some.1 hstep
    exact Option.some.inj hs ▸ touch_resumeWaiting sid true hp.2 rfl rfl rfl rfl
  | check =>
    obtain ⟨-, hs⟩ := Option.ite_none_right_eq_some.1 hstep
    rw [← Option.some.inj hs, checkWaiting]
    split <;> exact .same (same_of_eq sid rfl rfl (fun _ => rfl)) rfl
  | stopWriting =>
    simp only [Daemon.step] at hstep
    split at hstep
    · exact Option.some.inj hstep ▸ .same (same_of_eq sid rfl rfl (accepted_setFile rfl)) rfl
    · cases hstep
  | join =>
    simp only [Daemon.step] at hstep
    split at hstep
    · exact Option.some.inj hstep ▸ .same (same_of_eq sid rfl rfl (fun _ => rfl)) rfl
    · split at hstep
      · obtain ⟨-, hs⟩ := Option.ite_none_right_eq_some.1 hstep
        exact Option.some.inj hs ▸ .same (same_of_eq sid rfl rfl (fun _ => rfl)) rfl
      · cases hstep
    · cases hstep

/-! ## What is left of a stream

A stream is the frames that have been used, and then what the runner has in front of it in the
buffer. -/

/-- The frames `done` of the session have been used; their logs are accepted.  What is left is in
the buffer, and when nobody is at it, it is not a whole frame. -/
structure Progress (s : Daemon) (sid : Nat) (done : List LogFrame) : Prop where
  cut : (s.sessions sid).received =
    logFrames.stream done ++ (s.sessions sid).stInputBuffer.drop ((s.usedBy sid).getD 0)
  texts : ∀ l, sessionTexts sid (s.logFiles l).accepted = frameTexts l done
  rest : s.usedBy sid = none → (s.sessions sid).waiting = false →
    nextFrame (s.sessions sid).stInputBuffer = .more

theorem leave_self (s : Daemon) (sid : Nat) (resuming : Bool) :
    ((s.leave sid resuming).sessions sid).stInputBuffer = (s.sessions sid).stInputBuffer ∧
    ((s.leave sid resuming).sessions sid).received = (s.sessions sid).received ∧
    ((s.leave sid resuming).sessions sid).waiting = (s.sessions sid).waiting ∧
    (s.leave sid resuming).usedBy sid = none := by
  cases resuming with
  | false => exact ⟨rfl, rfl, rfl, rfl⟩
  | true =>
    have hself : (s.leave sid true).sessions sid = (s.sessions sid).endResume :=
      setSession_self s sid _
    exact ⟨by rw [hself]; rfl, by rw [hself]; rfl, by rw [hself]; rfl, rfl⟩

theorem endOnDataIn_self (s : Daemon) (sid iUsed : Nat) (resuming : Bool) :
    ((s.endOnDataIn sid iUsed resuming).sessions sid).stInputBuffer =
        (s.sessions sid).stInputBuffer.drop iUsed ∧
    ((s.endOnDataIn sid iUsed resuming).sessions sid).received = (s.sessions sid).received ∧
    ((s.endOnDataIn sid iUsed resuming).sessions sid).waiting = (s.sessions sid).waiting ∧
    (s.endOnDataIn sid iUsed resuming).usedBy sid = none := by
  rw [endOnDataIn]
  obtain ⟨hbuffer, hreceived, hwaiting, hused⟩ := leave_self (s.setSession sid
    { s.sessions sid with stInputBuffer := (s.sessions sid).stInputBuffer.drop iUsed }) sid resuming
  rw [setSession_self] at hbuffer hreceived hwaiting
  exact ⟨hbuffer, hreceived, hwaiting, hused⟩

/-- A round hands nothing over. -/
theorem received_round (h : Round s sid iUsed iFrames resuming title s') :
    (s'.sessions sid).received = (s.sessions sid).received := by
  cases h with
  | more hnext => exact (endOnDataIn_self s sid iUsed resuming).2.1
  | bad hnext =>
    rw [(leave_self (s.passiveClose sid) sid resuming).2.1, passiveClose, setSession_self]
  | wait f rest hnext hwait =>
    rw [(endOnDataIn_self _ sid iUsed resuming).2.1, queueWaiter_self]
    rfl
  | skip f rest hnext hlevel => rfl
  | accept f rest l hnext hlevel hspace hbarred => rfl

theorem received_step (hb : s.Backlog) (sid : Nat) (hstep : s.step e = some s') :
    (s'.sessions sid).received = (s.sessions sid).received ++ handedIn sid e := by
  cases touch_step hb sid hstep with
  | same h he => rw [he, List.append_nil, h.received]
  | dataIn chunk he hidle h =>
    rw [h, he, handedIn, if_pos rfl]
    simp only [Daemon.dataIn, Daemon.setSession, Function.update_self]
  | round title iUsed iFrames resuming he hr h =>
    rw [he, handedIn, List.append_nil, received_round h]
    intro _ _ h
    cases h
  | popped he hidle bShutdown hsession hr hfiles =>
    rw [he, List.append_nil, hsession]
    rfl

/-- The buffer of a session gets what its channel has handed over. -/
theorem received_run {events : List Event} (sid : Nat) :
    ∀ {s s' : Daemon}, s.Backlog → runFrom step s events = some s' →
      (s'.sessions sid).received = (s.sessions sid).received ++ handed sid events := by
  induction events with
  | nil =>
    intro s s' _ hrun
    obtain rfl := Option.some.inj hrun
    rw [handed, List.flatMap_nil, List.append_nil]
  | cons e events ih =>
    intro s s' hb hrun
    obtain ⟨s₁, hstep, hrest⟩ := runFrom_cons.1 hrun
    rw [ih (hb.step hstep) hrest, received_step hb sid hstep, handed, handed, List.flatMap_cons,
      List.append_assoc]

/-- What is left of a stream of frames: more is needed, or its next frame is there. -/
theorem next_of_cut {todo : List LogFrame} {received held : List UInt8}
    (hcut : received = logFrames.stream done ++ held)
    (hsent : received <+: logFrames.stream (done ++ todo)) :
    nextFrame held = .more ∨
    ∃ f todo' rest, todo = f :: todo' ∧ nextFrame held = .message f rest ∧
      held = f.encode ++ held.drop f.size := by
  obtain ⟨wire, hwire⟩ := hsent
  have hstream : held ++ wire = logFrames.stream todo := by
    have hsplit : logFrames.stream (done ++ todo) =
        logFrames.stream done ++ logFrames.stream todo := List.flatMap_append
    rw [hcut, hsplit, List.append_assoc] at hwire
    exact List.append_cancel_left hwire
  rcases logFrames.next_of_stream hstream with hmore | ⟨f, todo', rest, rfl, hnext, -⟩
  · exact Or.inl hmore
  · refine Or.inr ⟨f, todo', rest, rfl, hnext, ?_⟩
    obtain ⟨-, hle⟩ := nextFrame_rest hnext
    have hencode : logFrames.encode f = f.encode := rfl
    rw [StreamParser.stream_cons, hencode] at hstream
    have htake := congrArg (List.take f.size) hstream
    rw [List.take_append_of_le_length hle, List.take_left' f.length_encode] at htake
    rw [← htake, List.take_append_drop]

/-- A frame more is used. -/
theorem Progress.advance (s' : Daemon) {todo : List LogFrame} (h : s.Progress sid done)
    (hr : s.runner = .parsing sid iUsed iFrames resuming) {f : LogFrame} {rest : List UInt8}
    (hnext : nextFrame ((s.sessions sid).stInputBuffer.drop iUsed) = .message f rest)
    (hsent : (s.sessions sid).received <+: logFrames.stream (done ++ todo))
    (hsessions : s'.sessions = s.sessions)
    (hr' : s'.runner = .parsing sid (iUsed + f.size) (iFrames + 1) resuming)
    (htexts : ∀ l, sessionTexts sid (s'.logFiles l).accepted =
      sessionTexts sid (s.logFiles l).accepted ++ if f.logLevel = some l then [f.text] else []) :
    ∃ todo', done ++ todo = done ++ [f] ++ todo' ∧ s'.Progress sid (done ++ [f]) := by
  have hcut := h.cut
  rw [usedBy_self hr, Option.getD_some] at hcut
  rcases next_of_cut hcut hsent with hmore | ⟨f', todo', rest', rfl, hnext', hheld⟩
  · exact absurd (hnext.symm.trans hmore) nofun
  · obtain ⟨rfl, -⟩ := Parsed.message.inj (hnext.symm.trans hnext')
    refine ⟨todo', by simp, ?_, fun l => ?_, fun hnone => ?_⟩
    · rw [usedBy_self hr', Option.getD_some, hsessions, hcut, StreamParser.stream_concat,
        List.append_assoc, ← List.drop_drop]
      exact congrArg _ hheld
    · rw [htexts l, h.texts l, frameTexts_concat]
    · rw [usedBy_self hr'] at hnone
      exact absurd hnone nofun

theorem Progress.round {todo : List LogFrame} (h : s.Progress sid done)
    (hr : s.runner = .parsing sid iUsed iFrames resuming)
    (hround : Round s sid iUsed iFrames resuming title s')
    (hsent : (s.sessions sid).received <+: logFrames.stream (done ++ todo)) :
    ∃ done' todo', done ++ todo = done' ++ todo' ∧ s'.Progress sid done' := by
  have hcut := h.cut
  rw [usedBy_self hr, Option.getD_some] at hcut
  cases hround with
  | more hnext =>
    obtain ⟨hbuffer, hreceived, hwaiting, hused⟩ := endOnDataIn_self s sid iUsed resuming
    refine ⟨done, todo, rfl, ?_, fun l => ?_, fun _ _ => ?_⟩
    · rw [hused, Option.getD_none, List.drop_zero, hbuffer, hreceived, hcut]
    · rw [logFiles_endOnDataIn]
      exact h.texts l
    · rw [hbuffer, hnext]
  | bad hnext =>
    -- a stream of frames has no bad length
    rcases next_of_cut hcut hsent with hmore | ⟨f, todo', rest, -, hmessage, -⟩
    · exact absurd (hnext.symm.trans hmore) nofun
    · exact absurd (hnext.symm.trans hmessage) nofun
  | wait f rest hnext hwait =>
    obtain ⟨hbuffer, hreceived, hwaiting, hused⟩ :=
      endOnDataIn_self (s.queueWaiter sid (f.text.length + 9)) sid iUsed resuming
    rw [queueWaiter_self] at hbuffer hreceived hwaiting
    refine ⟨done, todo, rfl, ?_, fun l => ?_, fun _ hno => ?_⟩
    · rw [hused, Option.getD_none, List.drop_zero, hbuffer, hreceived]
      exact hcut
    · rw [logFiles_endOnDataIn, queueWaiter_logFiles]
      exact h.texts l
    · rw [hwaiting] at hno
      exact absurd hno nofun
  | skip f rest hnext hlevel =>
    obtain ⟨todo', heq, hprogress⟩ := Progress.advance (f := f)
      { s with runner := .parsing sid (iUsed + f.size) (iFrames + 1) resuming } h hr hnext hsent
      rfl rfl (fun l => by rw [hlevel, if_neg nofun, List.append_nil])
    exact ⟨done ++ [f], todo', heq, hprogress⟩
  | accept f rest l hnext hlevel hspace hbarred =>
    obtain ⟨todo', heq, hprogress⟩ := Progress.advance (f := f)
      { s.accept l ⟨some sid, title, f.text⟩ with
        runner := .parsing sid (iUsed + f.size) (iFrames + 1) resuming } h hr hnext hsent rfl rfl
      (fun k => by
        show sessionTexts sid ((s.accept l ⟨some sid, title, f.text⟩).logFiles k).accepted = _
        by_cases hk : k = l
        · rw [hk, accepted_accept_self, sessionTexts_append, hlevel, if_pos rfl]
          simp [sessionTexts]
        · rw [accepted_accept_ne s _ hk, hlevel,
            if_neg (fun he => hk (Option.some.inj he).symm), List.append_nil])
    exact ⟨done ++ [f], todo', heq, hprogress⟩

/-- **A step uses frames in their order, and none twice.** -/
theorem Progress.step {todo : List LogFrame} (hb : s.Backlog) (h : s.Progress sid done)
    (hstep : s.step e = some s')
    (hsent : (s'.sessions sid).received <+: logFrames.stream (done ++ todo)) :
    ∃ done' todo', done ++ todo = done' ++ todo' ∧ s'.Progress sid done' := by
  cases touch_step hb sid hstep with
  | same hsame he =>
    refine ⟨done, todo, rfl, ?_, fun l => ?_, ?_⟩
    · rw [hsame.received, hsame.buffer, hsame.used]
      exact h.cut
    · rw [hsame.texts l]
      exact h.texts l
    · rw [hsame.used, hsame.waiting, hsame.buffer]
      exact h.rest
  | dataIn chunk he hidle hs =>
    have hused := usedBy_of_idle hidle sid
    have hcut := h.cut
    rw [hused, Option.getD_none, List.drop_zero] at hcut
    have hself : (s'.sessions sid).received = (s.sessions sid).received ++ chunk ∧
        (s'.sessions sid).stInputBuffer = (s.sessions sid).stInputBuffer ++ chunk ∧
        (s'.sessions sid).waiting = (s.sessions sid).waiting := by
      rw [hs]
      simp only [Daemon.dataIn, Daemon.setSession, Function.update_self, and_self]
    obtain ⟨hreceived, hbuffer, hwaiting⟩ := hself
    refine ⟨done, todo, rfl, ?_, fun l => ?_, fun hnone hno => ?_⟩
    · have hzero : (s'.usedBy sid).getD 0 = 0 := by
        rw [hs]
        cases hw : (s.sessions sid).waiting with
        | true => rw [usedBy_of_idle (by simp [Daemon.dataIn, hw]), Option.getD_none]
        | false =>
          have hr : (s.dataIn sid chunk).runner = .parsing sid 0 0 false := by
            simp [Daemon.dataIn, hw]
          rw [usedBy_self hr, Option.getD_some]
      rw [hzero, List.drop_zero, hreceived, hbuffer, hcut, List.append_assoc]
    · rw [hs]
      exact h.texts l
    · rw [hwaiting] at hno
      -- a session that does not wait is looked at, so there is nothing to show yet
      have hr : s'.runner = .parsing sid 0 0 false := by
        rw [hs]
        simp [Daemon.dataIn, hno]
      rw [usedBy_self hr] at hnone
      cases hnone
  | round title iUsed iFrames resuming he hr hround =>
    rw [received_round hround] at hsent
    exact h.round hr hround hsent
  | popped he hidle bShutdown hsession hr hfiles =>
    have hcut := h.cut
    rw [usedBy_of_idle hidle, Option.getD_none] at hcut
    refine ⟨done, todo, rfl, ?_, fun l => ?_, fun hnone => ?_⟩
    · rw [usedBy_self hr, Option.getD_some, hsession]
      exact hcut
    · rw [hfiles]
      exact h.texts l
    · rw [usedBy_self hr] at hnone
      cases hnone

/-- The same over a run. -/
theorem Progress.run {events : List Event} {frames : List LogFrame} :
    ∀ {s s' : Daemon} {done todo : List LogFrame}, s.Backlog → s.Progress sid done →
      frames = done ++ todo → runFrom Daemon.step s events = some s' →
      (s'.sessions sid).received <+: logFrames.stream frames →
      ∃ done' todo', frames = done' ++ todo' ∧ s'.Progress sid done' := by
  induction events with
  | nil =>
    intro s s' done todo _ h hframes hrun _
    obtain rfl := Option.some.inj hrun
    exact ⟨done, todo, hframes, h⟩
  | cons e events ih =>
    intro s s' done todo hb h hframes hrun hsent
    obtain ⟨s₁, hstep, hrest⟩ := runFrom_cons.1 hrun
    have hb₁ := hb.step hstep
    have hsent₁ : (s₁.sessions sid).received <+: logFrames.stream (done ++ todo) := by
      rw [← hframes]
      rw [received_run sid hb₁ hrest] at hsent
      exact (List.prefix_append _ _).trans hsent
    obtain ⟨done', todo', heq, h₁⟩ := h.step hb hstep hsent₁
    exact ih hb₁ h₁ (hframes.trans heq) hrest hsent

/-! ## What a step does to a level, and to the phase -/

/-- What a step may do to a level. -/
inductive LevelStep (s : Daemon) (l : LogLevel) : LogFileInstance → Prop
  | same : LevelStep s l (s.logFiles l)
  | swap {f : LogFileInstance} (h : (s.logFiles l).swapLogs = some f) : LevelStep s l f
  | write {f : LogFileInstance} (h : (s.logFiles l).writeNext = some f) : LevelStep s l f
  | flush {f : LogFileInstance} (h : (s.logFiles l).flush = some f) : LevelStep s l f
  | finish {n : Nat} (h : (s.logFiles l).writer = .completing n) :
      LevelStep s l (s.logFiles l).finish
  | rotate : LevelStep s l (s.logFiles l).rotate
  | stop {levels : List LogLevel} (h : s.phase = .joining (l :: levels)) :
      LevelStep s l (s.logFiles l).stopWriting
  | add (x : Log) (h : x.session = none ∨ s.runner ≠ .idle) : LevelStep s l ((s.logFiles l).addLog x)

/-- `Stop` is at the writer threads, or back. -/
def Late (p : Phase) : Prop := (∃ levels, p = .joining levels) ∨ p = .stopped

/-- What a step may do to the phase. -/
inductive PhaseStep (s : Daemon) (p : Phase) : Prop
  | same (h : p = s.phase)
  | early (h : ¬ Late s.phase) (hp : ¬ Late p)
  | drained (h : ¬ Late s.phase) (hp : p = .joining LogLevel.all)
  | joined (l : LogLevel) (levels : List LogLevel) (h : s.phase = .joining (l :: levels))
      (hl : (s.logFiles l).writer = .ended) (hp : p = .joining levels)
  | stopped (h : s.phase = .joining []) (hp : p = .stopped)

theorem levelStep_setFile (h : LevelStep s l f) (k : LogLevel) :
    LevelStep s k ((s.setFile l f).logFiles k) := by
  by_cases hk : k = l
  · subst hk
    rw [setFile_self]
    exact h
  · rw [setFile_ne _ _ _ hk]
    exact .same

theorem levelStep_of_eq (h : s'.logFiles = s.logFiles) (k : LogLevel) :
    LevelStep s k (s'.logFiles k) := by
  rw [h]
  exact .same

theorem levelStep_accept {x : Log} (h : x.session = none ∨ s.runner ≠ .idle) (k : LogLevel) :
    LevelStep s k ((s.accept l x).logFiles k) :=
  levelStep_setFile (.add x h) k

/-- **What a step does to the levels and to the phase.** -/
theorem levels_step (hb : s.Backlog) (hstep : s.step e = some s') :
    (∀ l, LevelStep s l (s'.logFiles l)) ∧ PhaseStep s s'.phase := by
  cases e with
  | dataIn sid chunk =>
    obtain ⟨-, hs⟩ := Option.ite_none_right_eq_some.1 hstep
    exact Option.some.inj hs ▸ ⟨fun _ => .same, .same rfl⟩
  | close sid => exact Option.some.inj hstep ▸ ⟨fun _ => .same, .same rfl⟩
  | detach sid =>
    obtain ⟨-, hs⟩ := Option.ite_none_right_eq_some.1 hstep
    exact Option.some.inj hs ▸ ⟨fun _ => .same, .same rfl⟩
  | round title =>
    simp only [Daemon.step] at hstep
    split at hstep
    · next sid iUsed iFrames resuming hr =>
        have hbusy : s.runner ≠ .idle := fun hidle => (by cases hr.symm.trans hidle)
        have hround := onDataInRound_cases hb.accounts.limit sid iUsed iFrames resuming title
        rw [Option.some.inj hstep] at hround
        cases hround with
        | more hnext =>
          obtain ⟨sessions, runner, heq⟩ := endOnDataIn_fields s sid iUsed resuming
          rw [heq]
          exact ⟨fun _ => .same, .same rfl⟩
        | bad hnext =>
          obtain ⟨sessions, runner, heq⟩ := leave_fields (s.passiveClose sid) sid resuming
          rw [heq]
          exact ⟨fun _ => .same, .same rfl⟩
        | wait f rest hnext hwait =>
          obtain ⟨sessions, runner, heq⟩ :=
            endOnDataIn_fields (s.queueWaiter sid (f.text.length + 9)) sid iUsed resuming
          rw [heq]
          exact ⟨levelStep_of_eq (queueWaiter_logFiles s sid _),
            .same (queueWaiter_phase s sid _)⟩
        | skip f rest hnext hlevel => exact ⟨fun _ => .same, .same rfl⟩
        | accept f rest l hnext hlevel hspace hbarred =>
          exact ⟨levelStep_accept (Or.inr hbusy), .same rfl⟩
    · cases hstep
  | resumeOnLoop =>
    obtain ⟨-, hs⟩ := Option.ite_none_right_eq_some.1 hstep
    rw [← Option.some.inj hs]
    refine ⟨levelStep_of_eq (logFiles_resumeWaiting _ false), .same ?_⟩
    rcases resumeWaiting_cases { s with posted := s.posted - 1 } false with
      ⟨heq, -⟩ | ⟨w, ws, -, -, heq⟩ <;> rw [heq]
  | endResume =>
    simp only [Daemon.step] at hstep
    split at hstep
    · rw [← Option.some.inj hstep, endResumeWaiting]
      exact ⟨levelStep_of_eq (scheduleResume_logFiles _), .same (scheduleResume_phase _)⟩
    · cases hstep
  | writeSelf iLevel text title =>
    rw [← Option.some.inj hstep]
    rcases s.writeSelf_cases iLevel text title with heq | ⟨l, heq, -⟩
    · rw [heq]
      exact ⟨fun _ => .same, .same rfl⟩
    · rw [heq]
      exact ⟨levelStep_accept (Or.inl rfl), .same rfl⟩
  | swapLogs l =>
    obtain ⟨f, hf, rfl⟩ := Option.map_eq_some_iff.1 hstep
    exact ⟨levelStep_setFile (.swap hf), .same rfl⟩
  | writeNext l =>
    obtain ⟨f, hf, rfl⟩ := Option.map_eq_some_iff.1 hstep
    exact ⟨levelStep_setFile (.write hf), .same rfl⟩
  | flush l =>
    obtain ⟨f, hf, rfl⟩ := Option.map_eq_some_iff.1 hstep
    exact ⟨levelStep_setFile (.flush hf), .same rfl⟩
  | completeWrite l =>
    simp only [Daemon.step] at hstep
    split at hstep
    · next n hw =>
        rw [← Option.some.inj hstep, Daemon.completeWrite, scheduleResume_logFiles,
          scheduleResume_phase]
        refine ⟨levelStep_setFile (.finish hw), ?_⟩
        -- the signal reaches `Stop` if it sleeps
        show PhaseStep s (if s.phase = .blocked then .draining else s.phase)
        split
        · next hblocked =>
            exact .early (not_joining (by simp [hblocked])) (not_joining (by simp))
        · exact .same rfl
    · cases hstep
  | rotate l => exact Option.some.inj hstep ▸ ⟨levelStep_setFile .rotate, .same rfl⟩
  | stop =>
    obtain ⟨hpoll, hs⟩ := Option.ite_none_right_eq_some.1 hstep
    rw [← Option.some.inj hs]
    exact ⟨fun _ => .same, .early (not_joining (Or.inl hpoll.1)) (not_joining (by simp))⟩
  | drain =>
    obtain ⟨hp, hs⟩ := Option.ite_none_right_eq_some.1 hstep
    rw [← Option.some.inj hs]
    refine ⟨levelStep_of_eq (logFiles_resumeWaiting _ true),
      .early (not_joining (by simp [hp.1])) ?_⟩
    rcases resumeWaiting_cases { s with phase := .checking } true with
      ⟨heq, -⟩ | ⟨w, ws, -, -, heq⟩ <;> rw [heq] <;> exact not_joining (by simp)
  | check =>
    obtain ⟨hp, hs⟩ := Option.ite_none_right_eq_some.1 hstep
    have hearly : ¬ Late s.phase := not_joining (by simp [hp.1])
    rw [← Option.some.inj hs, checkWaiting]
    split
    · exact ⟨fun _ => .same, .drained hearly rfl⟩
    · refine ⟨fun _ => .same, .early hearly ?_⟩
      dsimp only
      split <;> exact not_joining (by simp)
  | stopWriting =>
    simp only [Daemon.step] at hstep
    split at hstep
    · next l levels hp =>
        exact Option.some.inj hstep ▸ ⟨levelStep_setFile (.stop hp), .same rfl⟩
    · cases hstep
  | join =>
    simp only [Daemon.step] at hstep
    split at hstep
    · next hp => exact Option.some.inj hstep ▸ ⟨fun _ => .same, .stopped hp rfl⟩
    · next l levels hp =>
        split at hstep
        · next hended =>
            obtain ⟨-, hs⟩ := Option.ite_none_right_eq_some.1 hstep
            exact Option.some.inj hs ▸ ⟨fun _ => .same, .joined l levels hp hended rfl⟩
        · cases hstep
    · cases hstep

/-! ## The end of the writer threads -/

/-- What holds of the writer threads that `Stop` has told to quit. -/
structure Finished (s : Daemon) : Prop where
  quit : ∀ l, (s.logFiles l).quit = true → Late s.phase
  ended : ∀ l, (s.logFiles l).writer.isEnded = true → ∀ x ∈ (s.logFiles l).logs, x.session = none
  joined : ∀ levels, s.phase = .joining levels → ∀ l, l ∉ levels →
    (s.logFiles l).writer.isEnded = true
  stopped : s.phase = .stopped → ∀ l, (s.logFiles l).writer.isEnded = true

theorem PhaseStep.late {s : Daemon} {p : Phase} (h : PhaseStep s p) (hl : Late s.phase) :
    Late p := by
  cases h with
  | same h => exact h ▸ hl
  | early h hp => exact absurd hl h
  | drained h hp => exact absurd hl h
  | joined l levels h hended hp => exact Or.inl ⟨levels, hp⟩
  | stopped h hp => exact Or.inr hp

/-- A writer thread that has ended stays so. -/
theorem LevelStep.isEnded (h : LevelStep s l f) (hl : (s.logFiles l).writer.isEnded = true) :
    f.writer.isEnded = true := by
  cases h with
  | same => exact hl
  | swap h =>
    rw [(LogFileInstance.swapLogs_cases h).1] at hl
    exact absurd hl (by decide)
  | write h =>
    obtain ⟨x, todo, n, hw, -⟩ := LogFileInstance.writeNext_cases h
    rw [hw] at hl
    exact absurd hl nofun
  | flush h =>
    obtain ⟨n, hw, -⟩ := LogFileInstance.flush_cases h
    rw [hw] at hl
    exact absurd hl nofun
  | finish h =>
    rw [h] at hl
    exact absurd hl nofun
  | rotate => exact hl
  | stop h => exact hl
  | add x h => exact hl

/-- Only `Stop` makes a level quit. -/
theorem LevelStep.quit (h : LevelStep s l f) (hq : f.quit = true) :
    (s.logFiles l).quit = true ∨ Late s.phase := by
  cases h with
  | same => exact Or.inl hq
  | swap h =>
    obtain ⟨-, ⟨-, -, rfl⟩ | ⟨-, -, rfl⟩ | ⟨-, rfl⟩⟩ := LogFileInstance.swapLogs_cases h <;>
      exact Or.inl hq
  | write h =>
    obtain ⟨x, todo, n, -, rfl⟩ := LogFileInstance.writeNext_cases h
    exact Or.inl hq
  | flush h =>
    obtain ⟨n, -, rfl⟩ := LogFileInstance.flush_cases h
    exact Or.inl hq
  | finish h => exact Or.inl hq
  | rotate => exact Or.inl hq
  | stop h => exact Or.inr (Or.inl ⟨_, h⟩)
  | add x h => exact Or.inl hq

theorem Finished.step (hb : s.Backlog) (h : s.Finished) (hstep : s.step e = some s') :
    s'.Finished := by
  obtain ⟨hlevels, hphase⟩ := levels_step hb hstep
  have hmono : ∀ l, (s.logFiles l).writer.isEnded = true → (s'.logFiles l).writer.isEnded = true :=
    fun l hl => (hlevels l).isEnded hl
  refine ⟨fun l hq => ?_, fun l hended x hx => ?_, fun levels hp l hl => ?_, fun hp l => ?_⟩
  · rcases (hlevels l).quit hq with hold | hlate
    · exact hphase.late (h.quit l hold)
    · exact hphase.late hlate
  · -- the queue of an ended level only gets local logs
    have hlevel := hlevels l
    generalize s'.logFiles l = f at hlevel hended hx
    cases hlevel with
    | same => exact h.ended l hended x hx
    | swap hf =>
      obtain ⟨-, ⟨-, -, rfl⟩ | ⟨-, -, rfl⟩ | ⟨-, rfl⟩⟩ := LogFileInstance.swapLogs_cases hf <;>
        exact (nomatch hx)
    | write hf =>
      obtain ⟨y, todo, n, -, rfl⟩ := LogFileInstance.writeNext_cases hf
      exact absurd hended nofun
    | flush hf =>
      obtain ⟨n, -, rfl⟩ := LogFileInstance.flush_cases hf
      exact absurd hended nofun
    | finish hw => exact absurd hended nofun
    | rotate => exact h.ended l hended x hx
    | stop hp => exact h.ended l hended x hx
    | add y hy =>
      have hlate := h.quit l ((hb.accounts.ledger l).quit hended)
      have hidle : s.runner = .idle := by
        refine hb.turns.1.settled ?_ ?_ <;> rintro hp <;> rw [hp] at hlate <;>
          rcases hlate with ⟨levels, hlate⟩ | hlate <;> exact (nomatch hlate)
      rcases List.mem_append.1 hx with hold | hnew
      · exact h.ended l hended x hold
      · rw [List.mem_singleton.1 hnew]
        exact hy.resolve_right (fun hbusy => hbusy hidle)
  · cases hphase with
    | same heq => exact hmono l (h.joined levels (heq ▸ hp) l hl)
    | early hs hs' => exact absurd (Or.inl ⟨levels, hp⟩) hs'
    | drained hs hs' =>
      rw [hs'] at hp
      obtain rfl := Phase.joining.inj hp
      exact absurd (LogLevel.mem_all l) hl
    | joined k rest hs hk hs' =>
      rw [hs'] at hp
      obtain rfl := Phase.joining.inj hp
      by_cases hlk : l = k
      · rw [hlk]
        refine hmono k ?_
        rw [hk]
        rfl
      · refine hmono l (h.joined (k :: rest) hs l fun hm => ?_)
        exact (List.mem_cons.1 hm).elim hlk hl
    | stopped hs hs' => exact (nomatch hs'.symm.trans hp)
  · cases hphase with
    | same heq => exact hmono l (h.stopped (heq ▸ hp) l)
    | early hs hs' => exact absurd (Or.inr hp) hs'
    | drained hs hs' => exact (nomatch hs'.symm.trans hp)
    | joined k rest hs hk hs' => exact (nomatch hs'.symm.trans hp)
    | stopped hs hs' => exact hmono l (h.joined [] hs l List.not_mem_nil)

/-! ## Once, in order, and to the end -/

/-- When no whole frame is left in the buffer, all whole frames have been used. -/
theorem Progress.complete {todo : List LogFrame} (h : s.Progress sid done)
    (hused : s.usedBy sid = none) (hwaiting : (s.sessions sid).waiting = false) {k : Nat}
    (hk : k ≤ (done ++ todo).length)
    (hsent : logFrames.stream ((done ++ todo).take k) <+: (s.sessions sid).received) :
    k ≤ done.length := by
  by_contra hlt
  rw [Nat.not_le] at hlt
  have hcut := h.cut
  rw [hused, Option.getD_none, List.drop_zero] at hcut
  cases todo with
  | nil =>
    rw [List.append_nil] at hk
    omega
  | cons f todo =>
    -- the next frame would be whole
    obtain ⟨j, hj⟩ : ∃ j, k - done.length = j + 1 := ⟨k - done.length - 1, by omega⟩
    have htake : (done ++ f :: todo).take k = done ++ f :: todo.take j := by
      rw [List.take_append, List.take_of_length_le (by omega), hj, List.take_succ_cons]
    obtain ⟨more, hmore⟩ := hsent
    have hsplit : logFrames.stream (done ++ f :: todo.take j) =
        logFrames.stream done ++ (f.encode ++ logFrames.stream (todo.take j)) := by
      have happend : logFrames.stream (done ++ f :: todo.take j) =
        logFrames.stream done ++ logFrames.stream (f :: todo.take j) := List.flatMap_append
      rw [happend, StreamParser.stream_cons]
      rfl
    rw [htake, hsplit, hcut, List.append_assoc, List.append_assoc] at hmore
    have hbuffer := List.append_cancel_left hmore
    have hnext := h.rest hused hwaiting
    rw [← hbuffer, nextFrame_encode] at hnext
    exact absurd hnext nofun

/-- In a state of `Stop` at the writer threads nobody waits and nobody is read. -/
theorem Backlog.late {s : Daemon} (h : s.Backlog) (hlate : Late s.phase) (sid : Nat) :
    s.usedBy sid = none ∧ (s.sessions sid).waiting = false := by
  have hidle : s.runner = .idle := by
    refine h.turns.1.settled ?_ ?_ <;> rintro hp <;> rw [hp] at hlate <;>
      rcases hlate with ⟨levels, hlate⟩ | hlate <;> exact (nomatch hlate)
  refine ⟨usedBy_of_idle hidle sid, Bool.eq_false_iff.2 fun hw => ?_⟩
  have hmem := (h.queue.waiting sid).1 hw
  rw [waiters, h.turns.1.drained hlate] at hmem
  exact absurd hmem List.not_mem_nil

/-- **The files of a level whose writer has ended hold all that its sessions have given.** -/
theorem Finished.written (hb : s.Backlog) (h : s.Finished) (hended : (s.logFiles l).writer = .ended)
    (sid : Nat) :
    (s.logFiles l).file = bodies (s.logFiles l).written ∧
      sessionTexts sid (s.logFiles l).written = sessionTexts sid (s.logFiles l).accepted := by
  have hledger := hb.accounts.ledger l
  have hfile := hledger.file
  rw [hledger.buffered (by rw [hended, Writer.isWriting]), List.append_nil] at hfile
  refine ⟨hfile, ?_⟩
  rw [hledger.accepted, hended, Writer.todo, List.nil_append, sessionTexts_append,
    sessionTexts_of_none (s.logFiles l).logs (fun x hx => ?_), List.append_nil]
  rw [h.ended l (by rw [hended, Writer.isEnded]) x hx]
  intro h
  cases h

theorem init_eq {iLimit : Nat} (h : init iLimit = some s) : s = { iMaxPendingBytes := iLimit } := by
  rw [init] at h
  split at h
  · cases h
  · exact (Option.some.inj h).symm

/-- **Every whole frame of a connection is accepted once and in order, and when the writer thread of
a level ends, its files hold them.** -/
theorem frames_written_once {iLimit : Nat} {s₀ s : Daemon} {events : List Event}
    (hinit : init iLimit = some s₀) (hrun : runFrom step s₀ events = some s) (sid : Nat)
    (frames : List LogFrame) (hsent : handed sid events <+: frames.flatMap LogFrame.encode) :
    ∃ n ≤ frames.length,
      (frames.take n).flatMap LogFrame.encode <+: handed sid events ∧
      (∀ l, sessionTexts sid (s.logFiles l).accepted = frameTexts l (frames.take n)) ∧
      ((s.sessions sid).waiting = false → s.usedBy sid = none → ∀ k ≤ frames.length,
        (frames.take k).flatMap LogFrame.encode <+: handed sid events → k ≤ n) ∧
      (∀ l, (s.logFiles l).writer = .ended →
        (∀ k ≤ frames.length,
          (frames.take k).flatMap LogFrame.encode <+: handed sid events → k ≤ n) ∧
        ∃ written, (s.logFiles l).file = bodies written ∧
          sessionTexts sid written = frameTexts l (frames.take n)) ∧
      (s.phase = .stopped → ∀ l, (s.logFiles l).writer = .ended) := by
  have hb₀ := Backlog.init hinit
  have hs₀ := init_eq hinit
  have hb : s.Backlog := runFrom_invariant (fun _ _ _ hb hstep => hb.step hstep) hb₀ hrun
  have hf₀ : s₀.Finished := by
    subst hs₀
    exact ⟨fun l h => (nomatch h), fun l h => (nomatch h), fun levels h => (nomatch h),
      fun h => (nomatch h)⟩
  have hf : s.Finished := by
    -- the two invariants go together: what ends a level needs the queue to be empty
    have hboth : s.Backlog ∧ s.Finished := runFrom_invariant (I := fun t => t.Backlog ∧ t.Finished)
      (fun _ _ _ h hstep => ⟨h.1.step hstep, h.2.step h.1 hstep⟩) ⟨hb₀, hf₀⟩ hrun
    exact hboth.2
  have hp₀ : s₀.Progress sid [] := by
    subst hs₀
    exact ⟨rfl, fun _ => rfl, fun _ _ => rfl⟩
  have hreceived : (s.sessions sid).received = handed sid events := by
    rw [received_run sid hb₀ hrun, hs₀]
    rfl
  obtain ⟨done, todo, rfl, hp⟩ :=
    Progress.run hb₀ hp₀ (List.nil_append frames).symm hrun (by rw [hreceived]; exact hsent)
  have hcomplete : s.usedBy sid = none → (s.sessions sid).waiting = false →
      ∀ k ≤ (done ++ todo).length,
        ((done ++ todo).take k).flatMap LogFrame.encode <+: handed sid events → k ≤ done.length :=
    fun hused hwaiting k hk hk' => hp.complete hused hwaiting hk (by rw [hreceived]; exact hk')
  refine ⟨done.length, by simp, ?_, fun l => ?_, fun hwaiting hused => hcomplete hused hwaiting,
    fun l hended => ?_, fun hstopped l => ?_⟩
  · rw [List.take_left, ← hreceived, hp.cut]
    exact List.prefix_append _ _
  · rw [List.take_left]
    exact hp.texts l
  · have hisEnded : (s.logFiles l).writer.isEnded = true := by rw [hended, Writer.isEnded]
    have hlate := hf.quit l ((hb.accounts.ledger l).quit hisEnded)
    -- the thread ends after the sessions have been drained
    obtain ⟨hused, hwaiting⟩ := hb.late hlate sid
    obtain ⟨hfile, htexts⟩ := hf.written hb hended sid
    refine ⟨hcomplete hused hwaiting, _, hfile, ?_⟩
    rw [htexts, hp.texts l, List.take_left]
  · have hended := hf.stopped hstopped l
    cases hw : (s.logFiles l).writer with
    | ended => rfl
    | idle | writing todo n | completing n =>
        rw [hw] at hended
        exact absurd hended nofun

/-- A client sends a frame and closes, and the daemon is stopped. -/
def lastDay : List Event :=
  [.dataIn 1 (appendLogFrame 2 [65]), .round ⟨[49, 50, 58, 48, 48, 58, 48, 48, 32], rfl⟩,
    .round ⟨[49, 50, 58, 48, 48, 58, 48, 48, 32], rfl⟩, .close 1, .swapLogs .info, .stop, .drain,
    .check, .writeNext .info, .flush .info, .completeWrite .info] ++
    LogLevel.all.flatMap (fun l => [.stopWriting, .swapLogs l, .join]) ++ [.join]

/-- The frame is in the file. -/
theorem frame_written_at_stop : ∃ s₀ s : Daemon, init (logFrameMax + 8) = some s₀ ∧
    runFrom step s₀ lastDay = some s ∧ s.phase = .stopped ∧
      ∃ written, (s.logFiles .info).file = bodies written ∧ sessionTexts 1 written = [[65]] := by
  have hrun : (runFrom step { iMaxPendingBytes := logFrameMax + 8 } lastDay).map
      (fun s => decide (s.phase = .stopped)) = some true := by
    decide +kernel
  obtain ⟨s, hs, hphase⟩ := Option.map_eq_some_iff.1 hrun
  have hstopped := of_decide_eq_true hphase
  have hinit : init (logFrameMax + 8) = some { iMaxPendingBytes := logFrameMax + 8 } := rfl
  obtain ⟨n, hn, -, -, -, hended, hall⟩ :=
    frames_written_once hinit hs 1 [⟨2, [65], by decide⟩] ⟨[], by decide +kernel⟩
  obtain ⟨hmost, written, hfile, htexts⟩ := hended .info (hall hstopped .info)
  have hone : n = 1 := Nat.le_antisymm hn (hmost 1 (Nat.le_refl 1) ⟨[], by decide +kernel⟩)
  subst hone
  exact ⟨_, s, hinit, hs, hstopped, written, hfile, htexts⟩

end Daemon

end OpenIdea.Logd

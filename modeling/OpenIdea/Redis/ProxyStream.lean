import OpenIdea.Redis.CommandStream
import OpenIdea.Redis.ProxyTurns

/-!
# The Redis proxy reads a stream as a whole

A session's input comes in pieces, is read up to a budget, and is put off when there is no room.
`passedAlong` is what a run passes to an `Issue` that takes it, in order.  It is the start of what
`ScanCommand` cuts out of the whole stream: where `Parsed` says that the session stands, reading
goes on.

Main results: `Parsed.run`, `forwarded_as_whole`.
-/

set_option autoImplicit false

namespace OpenIdea.Redis.Proxy

open OpenIdea.Lib OpenIdea.Lib.Runs OpenIdea.Redis

variable {ρ : Type}

/-! ## What is passed on -/

/-- The commands that the loop of `ProcessInput` passes to an `Issue` that returns true. -/
def passedLoop (cfg : Config) (sid : Nat) (env : Nat → IssueEnv) :
    Nat → List UInt8 → State ρ → List (List UInt8)
  | 0, _, _ => []
  | budget + 1, rest, s =>
      match scanCommand cfg.maxPendingBytes rest with
      | .bad => []
      | .more => []
      | .command size _ =>
          if changesConnection (rest.take size) then []
          else
            let r := issue cfg sid (rest.take size) (env budget) s
            if !r.2 then []
            else if (r.1.sessions sid).closed then [rest.take size]
            else if budget = 0 ∧ rest.drop size ≠ [] then [rest.take size]
            else rest.take size :: passedLoop cfg sid env budget (rest.drop size) r.1

/-- What `ProcessInput` passes on. -/
def passedInput (cfg : Config) (sid budget : Nat) (env : Nat → IssueEnv) (s : State ρ) :
    List (List UInt8) :=
  let v := s.sessions sid
  if v.readPaused || v.closed then [] else passedLoop cfg sid env budget v.buffer s

/-- What a step passes on of the input of the session. -/
def passed (cfg : Config) (sid : Nat) (s : State ρ) : Event ρ → List (List UInt8)
  | .dataIn m chunk env =>
      let v := s.sessions sid
      if m = sid then
        passedInput cfg sid 32 env
          (s.setSession sid { v with buffer := v.buffer ++ chunk, received := v.received ++ chunk })
      else []
  | .resumeTaken env =>
      let v := s.sessions sid
      match s.loop with
      | .taken _ _ _ m =>
          if m = sid ∧ v.closed = false then
            passedInput cfg sid 1 env (s.setSession sid { v with readPaused := false })
          else []
      | _ => []
  | _ => []

/-- What a run passes on of the input of the session. -/
def passedAlong (cfg : Config) (sid : Nat) : State ρ → List (Event ρ) → List (List UInt8)
  | _, [] => []
  | s, e :: es =>
      passed cfg sid s e ++ (step cfg s e).elim [] fun s' => passedAlong cfg sid s' es

/-! ## Where a session stands -/

/-- `log` has been passed on, and `rest` of what was received is left.  A command whose session
`Issue` has closed stays in front of it. -/
def Stands (cfg : Config) (sid : Nat) (log : List (List UInt8)) (rest : List UInt8) (s : State ρ) :
    Prop :=
  ∃ taken, (commands cfg.maxPendingBytes).Splits (s.sessions sid).received taken rest ∧
    (log = taken ∨ ((s.sessions sid).closed = true ∧
      ∃ size count, scanCommand cfg.maxPendingBytes rest = .command size count ∧
        log = taken ++ [rest.take size]))

variable {cfg : Config} {log : List (List UInt8)} {s s' : State ρ} {sid : Nat}

/-- An open session is exactly past what was passed on. -/
theorem Stands.of_open {rest : List UInt8} (h : Stands cfg sid log rest s)
    (hopen : (s.sessions sid).closed = false) :
    (commands cfg.maxPendingBytes).Splits (s.sessions sid).received log rest := by
  obtain ⟨taken, hsplits, rfl | ⟨hclosed, -⟩⟩ := h
  · exact hsplits
  · rw [hopen] at hclosed
    cases hclosed

/-- A change of the session that leaves its input alone. -/
theorem Stands.frame {rest : List UInt8} (h : Stands cfg sid log rest s)
    (hreceived : (s'.sessions sid).received = (s.sessions sid).received)
    (hclosed : (s.sessions sid).closed = true → (s'.sessions sid).closed = true) :
    Stands cfg sid log rest s' := by
  obtain ⟨taken, hsplits, hlog⟩ := h
  rw [← hreceived] at hsplits
  refine ⟨taken, hsplits, ?_⟩
  rcases hlog with rfl | ⟨hc, hcommand⟩
  · exact Or.inl rfl
  · exact Or.inr ⟨hclosed hc, hcommand⟩

/-- What `Issue` leaves of the input. -/
theorem Issued.received {command : List UInt8} {ok : Bool} (h : Issued cfg sid command s s' ok) :
    (s'.sessions sid).received = (s.sessions sid).received := by
  cases h with
  | closed =>
    unfold closeSession
    rw [State.setSession_self]
  | down sendOk hup =>
    unfold answer closeSession accept
    split
    · rw [State.setSession_self, State.setSession_self]
    · rw [State.setSession_self, State.setSession_self]
  | refused hup hsize hroom => rfl
  | handed hup hturn hcommands hbytes =>
    unfold accept
    rw [State.setSession_self]
    rfl

/-- `Issue` has taken a command: the session has passed it, or was closed over it. -/
theorem Stands.issue {rest : List UInt8} {size count : Nat} (h : Stands cfg sid log rest s)
    (hopen : (s.sessions sid).closed = false)
    (hscan : scanCommand cfg.maxPendingBytes rest = .command size count)
    (hi : Issued cfg sid (rest.take size) s s' true) :
    Stands cfg sid (log ++ [rest.take size])
      (if (s'.sessions sid).closed then rest else rest.drop size) s' := by
  have hsplits := h.of_open hopen
  rw [← hi.received] at hsplits
  split
  · rename_i hclosed
    exact ⟨log, hsplits, Or.inr ⟨hclosed, size, count, hscan, rfl⟩⟩
  · have hcut : (commands cfg.maxPendingBytes).scan rest = .item size := by
      show (scanCommand cfg.maxPendingBytes rest).cut = _
      rw [hscan]
      rfl
    exact ⟨_, hsplits.snoc hcut, Or.inl rfl⟩

/-- The loop of `ProcessInput`. -/
theorem Stands.processLoop {cfg : Config} {sid : Nat} {env : Nat → IssueEnv} (budget : Nat) :
    ∀ {log : List (List UInt8)} {rest : List UInt8} {s : State ρ}, Stands cfg sid log rest s →
      (s.sessions sid).closed = false →
      Stands cfg sid (log ++ passedLoop cfg sid env budget rest s)
        (Proxy.processLoop cfg sid env budget rest s).1
        (Proxy.processLoop cfg sid env budget rest s).2 := by
  induction budget with
  | zero =>
    intro log rest s h _
    unfold passedLoop Proxy.processLoop
    rw [List.append_nil]
    exact h
  | succ budget ih =>
    intro log rest s h hopen
    have hclose : Stands cfg sid (log ++ []) rest (closeSession sid s) := by
      rw [List.append_nil]
      refine h.frame ?_ ?_
      · unfold closeSession
        rw [State.setSession_self]
      · intro _
        unfold closeSession
        rw [State.setSession_self]
    have hpause : ∀ {log rest} {t : State ρ}, Stands cfg sid log rest t →
        Stands cfg sid log rest (pauseRead cfg sid t) := by
      intro log rest t ht
      have hq := quiet_pauseRead cfg sid t
      exact ht.frame (hq.received sid) fun hc => (hq.closed sid).trans hc
    unfold passedLoop Proxy.processLoop
    cases hscan : scanCommand cfg.maxPendingBytes rest with
    | bad => exact hclose
    | more =>
      dsimp only
      rw [List.append_nil]
      exact h
    | command size count =>
      dsimp only
      split
      · exact hclose
      have hi := issued cfg sid (rest.take size) (env budget) s
      generalize Proxy.issue cfg sid (rest.take size) (env budget) s = r at hi ⊢
      obtain ⟨s', ok⟩ := r
      dsimp only at hi ⊢
      cases ok with
      | false =>
        cases hi
        simp only [Bool.not_false, if_true, List.append_nil]
        exact hpause h
      | true =>
        have hstep := h.issue hopen hscan hi
        simp only [Bool.not_true, Bool.false_eq_true, if_false]
        by_cases hclosed : (s'.sessions sid).closed = true
        · rw [if_pos hclosed] at hstep
          simp only [if_pos hclosed]
          exact hstep
        rw [if_neg hclosed] at hstep
        simp only [if_neg hclosed]
        have hstill : (s'.sessions sid).closed = false := by simpa using hclosed
        by_cases hlast : budget = 0 ∧ rest.drop size ≠ []
        · simp only [if_pos hlast]
          exact hpause hstep
        · simp only [if_neg hlast]
          have hrest := @ih _ _ _ hstep hstill
          rw [List.append_assoc, List.singleton_append] at hrest
          exact hrest

/-- `ProcessInput`. -/
theorem Stands.processInput (h : Stands cfg sid log (s.sessions sid).buffer s) (budget : Nat)
    (env : Nat → IssueEnv) :
    Stands cfg sid (log ++ passedInput cfg sid budget env s)
      ((Proxy.processInput cfg sid budget env s).1.sessions sid).buffer
      (Proxy.processInput cfg sid budget env s).1 := by
  unfold passedInput Proxy.processInput
  dsimp only
  split
  · rw [List.append_nil]
    exact h
  rename_i hready
  have hopen := open_of_ready hready
  have hr := @Stands.processLoop _ cfg sid env budget _ _ _ h hopen
  rw [State.setSession_self]
  refine hr.frame ?_ ?_
  · rw [State.setSession_self]
  · intro hc
    rw [State.setSession_self]
    exact hc

/-! ## Steps and runs -/

/-- Nothing happens to the input of the session, but that it may be closed. -/
structure InputFrame (sid : Nat) (s s' : State ρ) : Prop where
  received : (s'.sessions sid).received = (s.sessions sid).received
  buffer : (s'.sessions sid).buffer = (s.sessions sid).buffer
  closed : (s.sessions sid).closed = true → (s'.sessions sid).closed = true
  count : s.count ≤ s'.count

namespace InputFrame

variable {sid : Nat} {s t u : State ρ}

theorem refl (sid : Nat) (s : State ρ) : InputFrame sid s s := ⟨rfl, rfl, id, Nat.le_refl _⟩

theorem trans (h : InputFrame sid s t) (h' : InputFrame sid t u) : InputFrame sid s u :=
  ⟨h'.received.trans h.received, h'.buffer.trans h.buffer, fun hc => h'.closed (h.closed hc),
    Nat.le_trans h.count h'.count⟩

theorem of_quiet (h : Quiet s t) : InputFrame sid s t :=
  ⟨h.received sid, h.buffer sid, fun hc => (h.closed sid).trans hc, Nat.le_of_eq h.count.symm⟩

/-- The sessions stay as they are. -/
theorem of_sessions (hs : t.sessions = s.sessions) (hc : t.count = s.count) : InputFrame sid s t := by
  refine ⟨?_, ?_, ?_, Nat.le_of_eq hc.symm⟩
  · rw [hs]
  · rw [hs]
  · rw [hs]
    exact id

/-- Another session, or one that keeps its input. -/
theorem setSession {m : Nat} {v : Session ρ}
    (hreceived : m = sid → v.received = (s.sessions m).received)
    (hbuffer : m = sid → v.buffer = (s.sessions m).buffer)
    (hclosed : m = sid → (s.sessions m).closed = true → v.closed = true) :
    InputFrame sid s (s.setSession m v) := by
  by_cases hm : sid = m
  · subst hm
    refine ⟨?_, ?_, ?_, Nat.le_refl _⟩
    · rw [State.setSession_self, hreceived rfl]
    · rw [State.setSession_self, hbuffer rfl]
    · intro hc
      rw [State.setSession_self]
      exact hclosed rfl hc
  · refine ⟨?_, ?_, ?_, Nat.le_refl _⟩
    · rw [State.setSession_ne s hm]
    · rw [State.setSession_ne s hm]
    · rw [State.setSession_ne s hm]
      exact id

theorem closeSession (m : Nat) (s : State ρ) : InputFrame sid s (closeSession m s) :=
  setSession (fun _ => rfl) (fun _ => rfl) fun _ _ => rfl

theorem answer (m : Nat) (a : Answer ρ) (sendOk : Bool) (s : State ρ) :
    InputFrame sid s (answer m a sendOk s) := by
  unfold Proxy.answer
  split
  · exact setSession (fun _ => rfl) (fun _ => rfl) fun _ hc => hc
  · exact closeSession m s

theorem onReply (cfg : Config) (l : Nat) (x : Option ρ) (sendOk : Bool) (s : State ρ) :
    InputFrame sid s (onReply cfg l x sendOk s) := by
  unfold Proxy.onReply
  dsimp only
  split
  · exact refl sid s
  · split
    · exact of_sessions rfl rfl
    · refine InputFrame.trans ?_ (answer _ _ _ _)
      unfold releaseCredit
      dsimp only
      refine InputFrame.trans ?_ (of_quiet (quiet_armResume cfg l _))
      exact of_sessions rfl rfl

theorem flush (cfg : Config) (l : Nat) (send : Nat → Bool) (n : Nat) :
    ∀ s : State ρ, InputFrame sid s (Proxy.flush cfg l send n s) := by
  induction n with
  | zero =>
    intro s
    exact refl sid s
  | succ n ih =>
    intro s
    exact (onReply cfg l none (send n) s).trans (ih _)

/-- The input of another session. -/
theorem of_local {m l : Nat} (h : Local m l s t) (hne : sid ≠ m) : InputFrame sid s t := by
  have hs := h.sessions sid hne
  refine ⟨?_, ?_, ?_, Nat.le_of_eq h.count.symm⟩
  · rw [hs]
  · rw [hs]
  · rw [hs]
    exact id

end InputFrame

/-- What a step can do to the input of a session. -/
inductive InputStep (cfg : Config) (sid : Nat) (s : State ρ) : Event ρ → State ρ → Prop
  | frame {e : Event ρ} {s' : State ρ} (hpassed : passed cfg sid s e = [])
      (hf : InputFrame sid s s') : InputStep cfg sid s e s'
  | added (hsid : sid = s.count) :
      InputStep cfg sid s .addSession
        { s.setSession s.count
            { link := s.next % cfg.connections, closed := false, deleted := false } with
          count := s.count + 1
          next := s.next + 1 }
  | dataIn (chunk : List UInt8) (env : Nat → IssueEnv) (hloop : s.loop = .idle) :
      InputStep cfg sid s (.dataIn sid chunk env) (dataIn cfg sid chunk env s)
  | resumed (l remaining : Nat) (progress : Bool) (env : Nat → IssueEnv)
      (hloop : s.loop = .taken l remaining progress sid) (hopen : (s.sessions sid).closed = false) :
      InputStep cfg sid s (.resumeTaken env) (resumeTaken cfg l remaining progress sid env s)

theorem inputStep {e : Event ρ} (hserved : Served cfg s) (sid : Nat) (hs : step cfg s e = some s') :
    InputStep cfg sid s e s' := by
  cases e with
  | addSession =>
    obtain ⟨_, rfl⟩ := of_guard hs
    by_cases hsid : sid = s.count
    · exact .added hsid
    · have hne := State.setSession_ne s hsid
        { link := s.next % cfg.connections, closed := false, deleted := false }
      refine .frame rfl ⟨?_, ?_, ?_, Nat.le_succ _⟩
      · show ((s.setSession s.count _).sessions sid).received = _
        rw [hne]
      · show ((s.setSession s.count _).sessions sid).buffer = _
        rw [hne]
      · show _ → ((s.setSession s.count _).sessions sid).closed = true
        rw [hne]
        exact id
  | dataIn m chunk env =>
    obtain ⟨hn, rfl⟩ := of_guard hs
    by_cases hm : m = sid
    · subst hm
      exact .dataIn chunk env hn.1
    · have hlocal := ((hserved.idle hn.1).dataIn hserved.sound m chunk env).2
      refine .frame ?_ (InputFrame.of_local hlocal (Ne.symm hm))
      unfold passed
      exact if_neg hm
  | close m =>
    obtain ⟨_, rfl⟩ := of_guard hs
    exact .frame rfl (InputFrame.closeSession m s)
  | delSession m =>
    obtain ⟨_, rfl⟩ := of_guard hs
    exact .frame rfl (InputFrame.of_quiet (quiet_delSession m s))
  | reply l x sendOk =>
    obtain ⟨_, rfl⟩ := of_guard hs
    exact .frame rfl (InputFrame.onReply cfg l x sendOk s)
  | disconnect l =>
    unfold step at hs
    dsimp only at hs
    split at hs
    · obtain rfl := Option.some.inj hs
      exact .frame rfl (InputFrame.of_sessions rfl rfl)
    · cases hs
  | connectFailed l send =>
    obtain ⟨_, rfl⟩ := of_guard hs
    have hdown : InputFrame sid s (linkDown l s) := InputFrame.of_sessions rfl rfl
    exact .frame rfl (hdown.trans (InputFrame.flush cfg l send _ _))
  | dial l ok =>
    obtain ⟨_, rfl⟩ := of_guard hs
    refine .frame rfl ?_
    unfold dial
    dsimp only
    split
    · exact InputFrame.of_sessions rfl rfl
    · exact InputFrame.of_sessions rfl rfl
  | requestStop | startResume =>
    unfold step at hs
    dsimp only at hs
    split at hs
    · obtain rfl := Option.some.inj hs
      exact .frame rfl (InputFrame.of_sessions rfl rfl)
    · cases hs
  | takeReady =>
    unfold step at hs
    dsimp only at hs
    split at hs
    · obtain rfl := Option.some.inj hs
      exact .frame rfl (InputFrame.of_quiet (quiet_takeReady cfg _ _ _ s))
    · cases hs
  | resumeTaken env =>
    unfold step at hs
    dsimp only at hs
    split at hs
    · rename_i l remaining progress m hloop
      obtain rfl := Option.some.inj hs
      -- nothing is passed on of a session that has not its turn, or has been closed
      have hnone : ¬ (m = sid ∧ (s.sessions sid).closed = false) →
          passed cfg sid s (.resumeTaken env) = [] := by
        intro hn
        unfold passed
        rw [hloop]
        exact if_neg hn
      by_cases hclosed : (s.sessions m).closed = true
      · refine .frame (hnone ?_) ?_
        · rintro ⟨rfl, hopen⟩
          rw [hclosed] at hopen
          cases hopen
        · unfold resumeTaken
          rw [if_pos hclosed]
          exact InputFrame.of_sessions rfl rfl
      have hopen : (s.sessions m).closed = false := by simpa using hclosed
      by_cases hm : m = sid
      · subst hm
        exact .resumed l remaining progress env hloop hopen
      · have hphase := hserved.phase
        unfold Phase at hphase
        rw [hloop] at hphase
        have ht := hserved.turns
        rw [hloop] at ht
        have hlocal := (Turns.resumeRead ht hserved.sound hopen
          (by rw [hphase.2.2.1]; exact hphase.2.1) env).2
        have hf := @InputFrame.of_local _ sid _ _ _ _ hlocal (Ne.symm hm)
        refine .frame (hnone fun he => hm he.1) ?_
        unfold resumeTaken
        rw [if_neg hclosed]
        exact ⟨hf.received, hf.buffer, hf.closed, hf.count⟩
    · cases hs
  | settleTurn =>
    unfold step at hs
    dsimp only at hs
    split at hs
    · obtain rfl := Option.some.inj hs
      exact .frame rfl (InputFrame.of_quiet (quiet_settleTurn cfg _ _ _ _ _ s))
    · cases hs

/-- Where the session stands, after a run that has passed on `log`. -/
structure Parsed (cfg : Config) (sid : Nat) (log : List (List UInt8)) (s : State ρ) : Prop where
  stands : Stands cfg sid log (s.sessions sid).buffer s
  unknown : s.count ≤ sid → log = []

theorem parsed_init (cfg : Config) (sid : Nat) : Parsed cfg sid [] (State.init : State ρ) :=
  ⟨⟨[], .nil _, Or.inl rfl⟩, fun _ => rfl⟩

namespace Parsed

variable {cfg : Config} {sid : Nat} {log : List (List UInt8)} {s s' : State ρ}

theorem frame (h : Parsed cfg sid log s) (hf : InputFrame sid s s') :
    Parsed cfg sid (log ++ []) s' := by
  rw [List.append_nil]
  refine ⟨?_, ?_⟩
  · rw [hf.buffer]
    exact h.stands.frame hf.received hf.closed
  · intro hle
    exact h.unknown (Nat.le_trans hf.count hle)

/-- A new session has no input yet, and none of it was passed on. -/
theorem added (h : Parsed cfg sid log s) (hsid : sid = s.count) (l : Nat) :
    Parsed cfg sid (log ++ [])
      { s.setSession s.count { link := l, closed := false, deleted := false } with
        count := s.count + 1
        next := s.next + 1 } := by
  rw [List.append_nil, h.unknown (Nat.le_of_eq hsid.symm)]
  refine ⟨⟨[], ?_, Or.inl rfl⟩, fun _ => rfl⟩
  show Scanner.Splits _ ((s.setSession s.count _).sessions sid).received []
    ((s.setSession s.count _).sessions sid).buffer
  rw [hsid, State.setSession_self]
  exact .nil _

/-- Nothing of a session that is not known is passed on. -/
theorem passedInput_eq_nil {budget : Nat} {env : Nat → IssueEnv}
    (hclosed : (s.sessions sid).closed = true) : passedInput cfg sid budget env s = [] := by
  unfold passedInput
  simp [hclosed]

theorem dataIn (h : Parsed cfg sid log s) (hserved : Served cfg s) (hloop : s.loop = .idle)
    (chunk : List UInt8) (env : Nat → IssueEnv) :
    Parsed cfg sid (log ++ passed cfg sid s (.dataIn sid chunk env))
      (Proxy.dataIn cfg sid chunk env s) := by
  have hlocal := ((hserved.idle hloop).dataIn hserved.sound sid chunk env).2
  have hself := State.setSession_self s sid { s.sessions sid with
    buffer := (s.sessions sid).buffer ++ chunk
    received := (s.sessions sid).received ++ chunk }
  have hin : Stands cfg sid log ((s.setSession sid { s.sessions sid with
      buffer := (s.sessions sid).buffer ++ chunk
      received := (s.sessions sid).received ++ chunk }).sessions sid).buffer
      (s.setSession sid { s.sessions sid with
        buffer := (s.sessions sid).buffer ++ chunk
        received := (s.sessions sid).received ++ chunk }) := by
    obtain ⟨taken, hsplits, hlog⟩ := h.stands
    refine ⟨taken, ?_, ?_⟩
    · rw [hself]
      exact hsplits.append chunk
    · rw [hself]
      rcases hlog with rfl | ⟨hc, size, count, hscan, rfl⟩
      · exact Or.inl rfl
      · refine Or.inr ⟨hc, size, count, scanCommand_append hscan chunk, ?_⟩
        rw [List.take_append_of_le_length (scanCommand_size hscan).2]
  unfold passed
  dsimp only
  rw [if_pos rfl]
  refine ⟨hin.processInput 32 env, ?_⟩
  intro hle
  rw [hlocal.count] at hle
  have hclosed : (s.sessions sid).closed = true := by
    cases hc : (s.sessions sid).closed with
    | true => rfl
    | false => exact absurd (hserved.sound.forwarding.known sid hc) (by omega)
  rw [h.unknown hle, passedInput_eq_nil (by rw [hself]; exact hclosed)]
  rfl

end Parsed

namespace Parsed

variable {cfg : Config} {sid : Nat} {log : List (List UInt8)} {s s' : State ρ}

theorem resumeTaken (h : Parsed cfg sid log s) (hserved : Served cfg s) {l remaining : Nat}
    {progress : Bool} (hloop : s.loop = .taken l remaining progress sid)
    (hopen : (s.sessions sid).closed = false) (env : Nat → IssueEnv) :
    Parsed cfg sid (log ++ passed cfg sid s (.resumeTaken env))
      (Proxy.resumeTaken cfg l remaining progress sid env s) := by
  have hnot : ¬ (s.sessions sid).closed = true := by simp [hopen]
  have hin : Stands cfg sid log
      ((s.setSession sid { s.sessions sid with readPaused := false }).sessions sid).buffer
      (s.setSession sid { s.sessions sid with readPaused := false }) := by
    have hf : InputFrame sid s (s.setSession sid { s.sessions sid with readPaused := false }) :=
      InputFrame.setSession (fun _ => rfl) (fun _ => rfl) fun _ hc => hc
    rw [hf.buffer]
    exact h.stands.frame hf.received hf.closed
  have hread := hin.processInput 1 env
  have hframe : InputFrame sid
      (Proxy.processInput cfg sid 1 env
        (s.setSession sid { s.sessions sid with readPaused := false })).1
      (Proxy.resumeRead cfg sid env s).1 := by
    unfold Proxy.resumeRead
    dsimp only
    rw [if_neg hnot]
    split
    · exact InputFrame.setSession (fun _ => rfl) (fun _ => rfl) fun _ hc => hc
    · exact InputFrame.refl sid _
  unfold passed Proxy.resumeTaken
  rw [hloop]
  dsimp only
  rw [if_neg hnot, if_pos ⟨rfl, hopen⟩]
  refine ⟨?_, ?_⟩
  · show Stands cfg sid _ ((Proxy.resumeRead cfg sid env s).1.sessions sid).buffer _
    rw [hframe.buffer]
    exact hread.frame hframe.received hframe.closed
  · intro hle
    have hle : (Proxy.resumeRead cfg sid env s).1.count ≤ sid := hle
    have hknown := hserved.sound.forwarding.known sid hopen
    have hphase := hserved.phase
    unfold Phase at hphase
    rw [hloop] at hphase
    have ht := hserved.turns
    rw [hloop] at ht
    have hlocal := (Turns.resumeRead ht hserved.sound hopen (by rw [hphase.2.2.1]; exact hphase.2.1)
      env).2
    rw [hlocal.count] at hle
    omega

/-- One step, with what it passes on. -/
theorem step (h : Parsed cfg sid log s) (hserved : Served cfg s) {e : Event ρ}
    (hs : Proxy.step cfg s e = some s') : Parsed cfg sid (log ++ passed cfg sid s e) s' := by
  cases inputStep hserved sid hs with
  | frame hpassed hf =>
    rw [hpassed]
    exact h.frame hf
  | added hsid => exact h.added hsid _
  | dataIn chunk env hloop => exact h.dataIn hserved hloop chunk env
  | resumed l remaining progress env hloop hopen => exact h.resumeTaken hserved hloop hopen env

/-- A whole run. -/
theorem run {es : List (Event ρ)} :
    ∀ {s s' : State ρ} {log : List (List UInt8)}, Parsed cfg sid log s → Served cfg s →
      runFrom (Proxy.step cfg) s es = some s' →
      Parsed cfg sid (log ++ passedAlong cfg sid s es) s' := by
  induction es with
  | nil =>
    intro s s' log h _ hrun
    obtain rfl := Option.some.inj hrun
    unfold passedAlong
    rw [List.append_nil]
    exact h
  | cons e es ih =>
    intro s s' log h hserved hrun
    obtain ⟨t, hs, hrest⟩ := runFrom_cons.1 hrun
    have hend := ih (h.step hserved hs) (hserved.step hs) hrest
    unfold passedAlong
    rw [hs]
    show Parsed cfg sid (log ++ (passed cfg sid s e ++ passedAlong cfg sid t es)) s'
    rw [← List.append_assoc]
    exact hend

end Parsed

/-- What is promised of the input of a session; `log` has been passed to an `Issue` that took it. -/
structure ForwardedAsWhole (cfg : Config) (sid : Nat) (log : List (List UInt8)) (s : State ρ) :
    Prop where
  /-- It is the start of the commands of the stream: of what was received, and any continuation. -/
  forwarded : ∀ more,
    log <+: ((commands cfg.maxPendingBytes).cut ((s.sessions sid).received ++ more)).1
  /-- Nothing else of it is gone, as long as the session is open. -/
  kept : (s.sessions sid).closed = false →
    (s.sessions sid).received = log.flatten ++ (s.sessions sid).buffer
  /-- A session that is closed over a malformed command has sent a malformed stream. -/
  rejected : (s.sessions sid).closed = true →
    scanCommand cfg.maxPendingBytes (s.sessions sid).buffer = .bad →
    ∀ more, (commands cfg.maxPendingBytes).Rejects ((s.sessions sid).received ++ more)
  /-- A part of a command does not close the session: what is left of a stream of commands is never
  malformed. -/
  part : (s.sessions sid).closed = false → ∀ more,
    ¬ (commands cfg.maxPendingBytes).Rejects ((s.sessions sid).received ++ more) →
    scanCommand cfg.maxPendingBytes (s.sessions sid).buffer ≠ .bad

/-- **The forwarded commands are those of the stream as a whole.**  However the stream is cut into
reads, and whatever pauses and refusals come in between. -/
theorem forwarded_as_whole (cfg : Config) (sid : Nat) {es : List (Event ρ)} {s : State ρ}
    (hrun : runFrom (step cfg) State.init es = some s) :
    ForwardedAsWhole cfg sid (passedAlong cfg sid State.init es) s := by
  have h := Parsed.run (parsed_init cfg sid) (served_init cfg) hrun
  rw [List.nil_append] at h
  obtain ⟨taken, hsplits, hlog⟩ := h.stands
  have hbad : scanCommand cfg.maxPendingBytes (s.sessions sid).buffer = .bad → ∀ more,
      (commands cfg.maxPendingBytes).Rejects ((s.sessions sid).received ++ more) := by
    intro hscan more
    refine hsplits.rejects ?_ more
    show (scanCommand cfg.maxPendingBytes (s.sessions sid).buffer).cut = .bad
    rw [hscan]
    rfl
  refine ⟨?_, ?_, fun _ => hbad, ?_⟩
  · intro more
    rw [(hsplits.append more).cut]
    rcases hlog with heq | ⟨-, size, count, hscan, heq⟩
    · rw [heq]
      exact List.prefix_append _ _
    · -- the command that the session was closed over is the next one
      have hcut : (commands cfg.maxPendingBytes).scan ((s.sessions sid).buffer ++ more) =
          .item size := by
        show (scanCommand cfg.maxPendingBytes _).cut = _
        rw [scanCommand_append hscan more]
        rfl
      rw [heq, (commands cfg.maxPendingBytes).cut_item hcut,
        List.take_append_of_le_length (scanCommand_size hscan).2, List.prefix_append_right_inj]
      exact List.prefix_append [_] _
  · intro hopen
    exact (h.stands.of_open hopen).flatten
  · intro _ more hnot hscan
    exact hnot (hbad hscan more)

/-- Two commands in two reads, cut in the middle of the second one; there is room for one at a time,
so the second one has to wait for the first reply. -/
def cutInTwo : List (Event Nat) :=
  [.dial 0 true, .addSession, .dataIn 0 (ping ++ ping.take 5) fun _ => {},
    .dataIn 0 (ping.drop 5) fun _ => {}, .reply 0 (some 7) true, .startResume, .takeReady,
    .resumeTaken fun _ => {}, .settleTurn, .takeReady]

/-- Both are passed on as they are. -/
theorem forwarded_as_whole_cutInTwo :
    ∃ s, runFrom (step oneCommand) State.init cutInTwo = some s ∧
      ForwardedAsWhole oneCommand 0 [ping, ping] s ∧ (s.sessions 0).buffer = [] := by
  have hend : (runFrom (step oneCommand) State.init cutInTwo).map (fun s => (s.sessions 0).buffer) =
      some [] := by
    decide +kernel
  have hlog : passedAlong oneCommand 0 State.init cutInTwo = [ping, ping] := by
    decide +kernel
  obtain ⟨s, hs, hbuffer⟩ := Option.map_eq_some_iff.1 hend
  have h := forwarded_as_whole oneCommand 0 hs
  rw [hlog] at h
  exact ⟨s, hs, h, hbuffer⟩

end OpenIdea.Redis.Proxy

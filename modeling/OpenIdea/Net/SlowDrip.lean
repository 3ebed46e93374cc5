import OpenIdea.Lib.Runs
import OpenIdea.Net.FrameRounds

/-!
# The timer of an incomplete frame (oi_rpc_session.cpp)

A session that keeps the beginning of a frame has a libuv timer, and is closed when that timer fires
(`ArmIncompleteTimer`, `CancelIncompleteTimer`). `OnDataIn` calls the two from several places. The
state here has, beside the session, the time at which each of the bytes that it keeps came in;
nothing in the code reads these times, they say what the timer is to be.

Time is that of the loop (`uv_now`). libuv runs the timers that are due in an event of its own,
which may come later than their time, after other events. Every step keeps the timer at the oldest
byte (`guarded_step`); the main result is `slow_drip_closed`.
-/

set_option autoImplicit false

namespace OpenIdea.Net.SlowDrip

open OpenIdea.Lib.Runs

/-- The code of a session that the timer has closed. -/
def ETIMEDOUT : Int := 110

/-- A TCP session, and when each byte of its buffer came. -/
structure State where
  session : ProtoSession
  stamps : List Nat

def init : State := ⟨{}, []⟩

inductive Event where
  /-- `SwapInBuff` with what `recv` has returned. The handlers may close the session, and the timer
  may be refused. -/
  | data (now : Nat) (chunk : List UInt8) (h : Handler) (bTimer : Bool)
  /-- libuv runs the timers that are due. -/
  | timers (now : Nat)
  /-- Somebody closes the session. -/
  | close (reason : CloseReason)
  /-- `OnClose`, of a session that has been closed. -/
  | onClose

/-- The times of the last `left` of the bytes, after `n` of them have come in `now`. -/
def kept (stamps : List Nat) (now n left : Nat) : List Nat :=
  (stamps ++ List.replicate n now).drop (stamps.length + n - left)

/-- The callback of the timer, where it is due. -/
def onTimer (s : ProtoSession) (iFrameTimeout now : Nat) : ProtoSession :=
  match s.timer with
  | none => s
  | some start =>
      if start + iFrameTimeout ≤ now then s.cancelIncompleteTimer.passiveClose (.recv ETIMEDOUT)
      else s

def step (c : Limits) (iFrameTimeout : Nat) (s : State) : Event → Option State
  | .data now chunk h bTimer =>
      if s.session.receiveAllowance c < chunk.length then
        some { s with session := s.session.passiveClose .enobufs }
      else
        match { s.session with input := s.session.input ++ chunk }.onDataInWith h c now bTimer with
        | .error _ => none
        | .ok session =>
            some ⟨session, kept s.stamps now chunk.length session.input.length⟩
  | .timers now => some { s with session := onTimer s.session iFrameTimeout now }
  | .close reason => some { s with session := s.session.passiveClose reason }
  | .onClose =>
      if s.session.closed.isSome then some { s with session := s.session.cancelIncompleteTimer }
      else none

/-- **The invariant.** The timer of an open session began with the first byte that it keeps. -/
structure Guarded (c : Limits) (s : State) : Prop where
  timer : s.session.closed = none → s.session.timer = s.stamps.head?
  stamps : s.stamps.length = s.session.input.length
  waits : s.session.closed = none → Waits c s.session.input
  room : s.session.input.length ≤ c.receive

theorem guarded_init (c : Limits) : Guarded c init where
  timer _ := rfl
  stamps := rfl
  waits _ := Or.inl rfl
  room := Nat.zero_le _

/-! ## The times of the bytes -/

variable {now : Nat} {c : Limits} {s : State}

theorem length_kept {stamps : List Nat} {n left : Nat} (hleft : left ≤ stamps.length + n) :
    (kept stamps now n left).length = left := by
  rw [kept, List.length_drop, List.length_append, List.length_replicate]
  omega

/-- Where only new bytes are kept, the first of them came now. -/
theorem head_kept_new {stamps : List Nat} {n left : Nat} (hnew : left ≤ n) (hsome : left ≠ 0) :
    (kept stamps now n left).head? = some now := by
  have hdrop : kept stamps now n left = List.replicate left now := by
    rw [kept, List.drop_append, List.drop_of_length_le (by omega), List.nil_append,
      List.drop_replicate]
    congr 1
    omega
  rw [hdrop]
  cases left with
  | zero => exact absurd rfl hsome
  | succ left => rfl

/-! ## `OnDataIn` -/

section DataIn

variable {c : Limits} {s : State} {chunk : List UInt8}

/-- What the timer is after an `OnDataIn`. -/
structure AfterData (s : ProtoSession) (now : Nat) (s' : State) : Prop where
  armed : s'.session.timer.isSome = true ↔ s'.session.closed = none ∧ s'.session.input ≠ []
  first : s'.session.closed = none → s'.session.timer = s'.stamps.head?
  /-- More bytes of the same frame leave it alone. -/
  same : s'.session.closed = none → s'.session.delivered = s.delivered → s.timer.isSome = true →
    s'.session.timer = s.timer
  /-- The end of a frame stops it; if it runs then, it is a new one. -/
  complete : s'.session.delivered ≠ s.delivered →
    s'.session.timer = none ∨ s'.session.timer = some now

/-- The session keeps the bytes `b'` and is open: the timer goes on or begins. -/
theorem afterData_arm (now : Nat) (bTimer : Bool) {s₁ : ProtoSession} {b' : List UInt8}
    (h : Guarded c s)
    (hloop : Looped c (s.session.input ++ chunk) { s.session with input := [] } b' s₁)
    (hopen : s₁.closed = none) (hsome : b' ≠ []) :
    AfterData s.session now ⟨{ s₁ with input := b' }.armOrClose now bTimer,
      kept s.stamps now chunk.length b'.length⟩ := by
  have hopen₀ : s.session.closed = none := hloop.wasOpen hopen
  have hpos : b'.length ≠ 0 := fun hzero => hsome (List.length_eq_zero_iff.1 hzero)
  have hlens := h.stamps
  have htimer := h.timer hopen₀
  -- the timer goes on if it belongs to the frame that is kept, and begins now otherwise
  have hcases : (s₁.timer.isSome = true ∧
      s₁.timer = (kept s.stamps now chunk.length b'.length).head? ∧ s₁.timer = s.session.timer ∧
        s₁.delivered = s.session.delivered) ∨
      (s₁.timer = none ∧ (kept s.stamps now chunk.length b'.length).head? = some now ∧
        (s₁.delivered = s.session.delivered → s.session.timer = none)) := by
    rcases hloop.first with ⟨hall, hsame, hkeep⟩ | ⟨r, rest, hcut, hshort, hstop, recs, hmore⟩
    · have hlength : b'.length = s.stamps.length + chunk.length := by
        rw [hall, List.length_append, hlens]
      have hdrop : kept s.stamps now chunk.length b'.length =
          s.stamps ++ List.replicate chunk.length now := by
        rw [kept, hlength, Nat.sub_self, List.drop_zero]
      have hkeep' : s₁.timer = s.session.timer := hkeep
      cases hstamps : s.stamps with
      | nil =>
        rw [hstamps] at htimer hlength
        refine Or.inr ⟨hkeep'.trans htimer, ?_, fun _ => htimer⟩
        rw [← hstamps]
        refine head_kept_new ?_ hpos
        rw [hlength, List.length_nil, Nat.zero_add]
      | cons first stamps =>
        rw [← hstamps, hdrop, hkeep', htimer, hstamps]
        exact Or.inl ⟨rfl, rfl, rfl, hsame⟩
    · have hlong := (h.waits hopen₀).lt_of_cut hcut
      obtain ⟨-, -, -, hlength, -⟩ := roundOf_cut hcut
      rw [List.length_append] at hlength
      refine Or.inr ⟨hstop, head_kept_new (by omega) hpos, fun heq => ?_⟩
      have hnone := List.append_right_eq_self.1 (hmore.symm.trans heq)
      cases hnone
  rw [ProtoSession.armOrClose]
  rcases hcases with ⟨hruns, hhead, hsame, hdelivered⟩ | ⟨hstopped, hhead, hnot⟩
  · rw [if_pos (Or.inl hruns)]
    exact ⟨iff_of_true hruns ⟨hopen, hsome⟩, fun _ => hhead, fun _ _ _ => hsame,
      fun hne => absurd hdelivered hne⟩
  · have hno : ¬ (s₁.timer.isSome = true ∨ s₁.closed.isSome = true) := by
      rw [hstopped, hopen]
      exact fun hor => hor.elim Bool.noConfusion Bool.noConfusion
    rw [if_neg hno]
    split
    · refine ⟨iff_of_true rfl ⟨hopen, hsome⟩, fun _ => hhead.symm, fun _ hsame hruns => ?_,
        fun _ => Or.inr rfl⟩
      rw [hnot hsame] at hruns
      cases hruns
    · refine ⟨iff_of_false ?_ (fun hand => by cases hand.1), fun hand => (by cases hand),
        fun hand => (by cases hand), fun _ => Or.inl hstopped⟩
      show ¬ s₁.timer.isSome = true
      rw [hstopped]
      exact Bool.noConfusion

/-- **`OnDataIn`**: it does not fail, it keeps the invariant, and the timer is what it is to be. -/
theorem onDataIn_guarded {iFrameTimeout now : Nat} {h : Handler} {bTimer : Bool} (hc : c.Accepted)
    (htcp : c.datagram = false) (hg : Guarded c s)
    (hroom : chunk.length ≤ s.session.receiveAllowance c) :
    ∃ s', step c iFrameTimeout s (.data now chunk h bTimer) = some s' ∧ Guarded c s' ∧
      AfterData s.session now s' := by
  have hlimit := hc.2.2.2
  have hroom₀ := hg.room
  have hall : (s.session.input ++ chunk).length ≤ c.receive := by
    rw [ProtoSession.receiveAllowance] at hroom
    rw [List.length_append]
    split at hroom <;> omega
  have hlength : (s.session.input ++ chunk).length = s.session.input.length + chunk.length :=
    List.length_append
  have hstamps := hg.stamps
  have hrun := onDataInWith_eq h c now bTimer
    (s := { s.session with input := s.session.input ++ chunk }) (by dsimp only; omega)
  have hloop := cutLoop_looped (h := h) htcp (b := s.session.input ++ chunk)
    (s := { s.session with input := [] }) (le_refl _)
  generalize cutLoop h c (s.session.input ++ chunk).length (s.session.input ++ chunk)
    { s.session with input := [] } = result at hrun hloop
  obtain ⟨b', s₁⟩ := result
  dsimp only at hloop
  rw [step, if_neg (by omega)]
  simp only [hrun, htcp, Bool.false_eq_true, if_false]
  obtain ⟨taken, htaken⟩ := hloop.left
  have hleft := congrArg List.length htaken
  rw [List.length_append, List.length_append] at hleft
  by_cases hclosed : s₁.closed.isSome
  · -- the session was closed in the loop or before it
    have hshut : s₁.closed ≠ none := fun hnone => by
      rw [hnone] at hclosed
      cases hclosed
    rw [if_pos hclosed]
    refine ⟨_, rfl, ⟨fun hopen => absurd hopen hshut, ?_, fun hopen => absurd hopen hshut,
      Nat.zero_le _⟩, ⟨?_, fun hopen => absurd hopen hshut, fun hopen => absurd hopen hshut,
        fun _ => Or.inl rfl⟩⟩
    · exact length_kept (Nat.zero_le _)
    · exact iff_of_false Bool.noConfusion fun hand => hshut hand.1
  have hopen : s₁.closed = none := by
    cases hs : s₁.closed with
    | none => rfl
    | some r =>
      rw [hs] at hclosed
      exact absurd rfl hclosed
  rw [if_neg hclosed]
  by_cases hsome : b' ≠ []
  · have hafter := afterData_arm now bTimer hg hloop hopen hsome
    have hinput : ({ s₁ with input := b' }.armOrClose now bTimer).input = b' := by
      rw [ProtoSession.armOrClose]
      split
      · rfl
      · split <;> rfl
    rw [if_pos hsome, hinput]
    refine ⟨_, rfl, ⟨hafter.first, ?_, fun _ => ?_, ?_⟩, hafter⟩
    · rw [hinput]
      exact length_kept (by omega)
    · rw [hinput]
      exact hloop.waits hopen
    · rw [hinput]
      omega
  · have hnil : b' = [] := not_not.1 hsome
    subst hnil
    rw [if_neg hsome]
    have hnone : kept s.stamps now chunk.length ([] : List UInt8).length = [] :=
      List.length_eq_zero_iff.1 (length_kept (Nat.zero_le _))
    refine ⟨_, rfl, ⟨fun _ => ?_, length_kept (Nat.zero_le _), fun _ => Or.inl rfl, Nat.zero_le _⟩,
      ⟨?_, fun _ => ?_, fun _ hsame hruns => ?_, fun _ => Or.inl rfl⟩⟩
    · show none = (kept s.stamps now chunk.length ([] : List UInt8).length).head?
      rw [hnone]
      rfl
    · exact iff_of_false Bool.noConfusion fun hand => hand.2 rfl
    · show none = (kept s.stamps now chunk.length ([] : List UInt8).length).head?
      rw [hnone]
      rfl
    · -- a session that keeps bytes takes a frame off before it keeps none
      exfalso
      rcases hloop.first with ⟨hempty, -, -⟩ | ⟨r, rest, -, -, -, recs, hmore⟩
      · have hzero := congrArg List.length hempty
        rw [List.length_nil] at hzero
        have hopen₀ : s.session.closed = none := hloop.wasOpen hopen
        have hstamps₀ : s.stamps = [] := List.length_eq_zero_iff.1 (by omega)
        rw [hg.timer hopen₀, hstamps₀] at hruns
        cases hruns
      · have hnone := List.append_right_eq_self.1 (hmore.symm.trans hsame)
        cases hnone

end DataIn

/-! ## Every run -/

/-- After libuv has run its timers at `now`. -/
theorem onTimer_guarded {iFrameTimeout : Nat} (h : Guarded c s) :
    Guarded c { s with session := onTimer s.session iFrameTimeout now } ∧
      ((onTimer s.session iFrameTimeout now).closed = none →
        ∀ first ∈ s.stamps.head?, now < first + iFrameTimeout) := by
  rw [onTimer]
  split
  · rename_i hnone
    refine ⟨h, fun hopen first hfirst => ?_⟩
    rw [← h.timer hopen, hnone] at hfirst
    cases hfirst
  · rename_i start hstart
    split
    · -- it fires
      refine ⟨⟨fun hopen => ?_, h.stamps, fun hopen => ?_, h.room⟩, fun hopen => ?_⟩
      · cases hopen
      · cases hopen
      · cases hopen
    · rename_i hearly
      refine ⟨h, fun hopen first hfirst => ?_⟩
      rw [← h.timer hopen, hstart] at hfirst
      obtain rfl := Option.some.inj hfirst
      omega

/-- A session that is closed by somebody, and one that has been told so, are in nobody's way. -/
theorem guarded_closed {session : ProtoSession} (h : Guarded c s)
    (hinput : session.input = s.session.input) (hclosed : session.closed ≠ none) :
    Guarded c { s with session := session } where
  timer hopen := absurd hopen hclosed
  stamps := h.stamps.trans (congrArg List.length hinput.symm)
  waits hopen := absurd hopen hclosed
  room := by
    show session.input.length ≤ c.receive
    rw [hinput]
    exact h.room

theorem guarded_step {iFrameTimeout : Nat} {s' : State} {e : Event} (hc : c.Accepted)
    (htcp : c.datagram = false) (h : Guarded c s) (hstep : step c iFrameTimeout s e = some s') :
    Guarded c s' := by
  cases e with
  | data now chunk hd bTimer =>
    -- the channel closes the session where a chunk is over the allowance
    by_cases hroom : chunk.length ≤ s.session.receiveAllowance c
    · obtain ⟨s₁, hstep₁, h₁, -⟩ := onDataIn_guarded hc htcp h hroom
      obtain rfl := Option.some.inj (hstep.symm.trans hstep₁)
      exact h₁
    · rw [step, if_pos (by omega)] at hstep
      obtain rfl := Option.some.inj hstep
      exact guarded_closed h rfl (Option.some_ne_none _)
  | timers now =>
    obtain rfl := Option.some.inj hstep
    exact (onTimer_guarded h).1
  | close reason =>
    obtain rfl := Option.some.inj hstep
    exact guarded_closed h rfl (Option.some_ne_none _)
  | onClose =>
    obtain ⟨hclosed, rfl⟩ := of_guard hstep
    refine guarded_closed h rfl ?_
    intro hnone
    have hnone' : s.session.closed = none := hnone
    rw [hnone'] at hclosed
    cases hclosed

/-- **A session that gets its bytes slowly is closed.** In every run, whatever comes in and
whenever: `OnDataIn` does not fail; after it the timer runs if and only if the session is open and
keeps bytes, it began with the `OnDataIn` that brought the first byte kept, bytes of the same frame
have left it alone, and the end of a frame has stopped it; and after libuv has run its timers at
`now` no open session keeps a byte that came `iFrameTimeout` before that. -/
theorem slow_drip_closed {c : Limits} {iFrameTimeout : Nat} {run : List Event} {s : State}
    (hc : c.Accepted) (htcp : c.datagram = false)
    (hrun : runFrom (step c iFrameTimeout) init run = some s) :
    (∀ now chunk h bTimer, chunk.length ≤ s.session.receiveAllowance c →
      ∃ s', step c iFrameTimeout s (.data now chunk h bTimer) = some s' ∧
        AfterData s.session now s') ∧
      ∀ now s', step c iFrameTimeout s (.timers now) = some s' → s'.session.closed = none →
        ∀ first ∈ s'.stamps.head?, now < first + iFrameTimeout := by
  have h : Guarded c s := runFrom_invariant (fun _ _ _ hs hstep => guarded_step hc htcp hs hstep)
    (guarded_init c) hrun
  constructor
  · intro now chunk hd bTimer hroom
    obtain ⟨s', hstep, -, hafter⟩ := onDataIn_guarded hc htcp h hroom
    exact ⟨s', hstep, hafter⟩
  · intro now s' hstep hopen
    obtain rfl := Option.some.inj hstep
    exact (onTimer_guarded h).2 hopen

/-- Limits of 16 and 8 bytes. -/
def small : Limits := ⟨16, 8, false⟩

/-- A frame of two bytes and the beginning of another: the timer runs from the second chunk on. -/
theorem slow_drip_closed_second :
    ∃ s, runFrom (step small 10) init [.data 3 [1, 0, 0, 0, 2] (fun _ _ => none) true,
        .data 5 [0, 0, 0, 9, 9, 7] (fun _ _ => none) true] = some s ∧
      s.session.timer = some 5 ∧
      ∀ now s', step small 10 s (.timers now) = some s' → s'.session.closed = none →
        ∀ first ∈ s'.stamps.head?, now < first + 10 := by
  have hrun : (runFrom (step small 10) init [.data 3 [1, 0, 0, 0, 2] (fun _ _ => none) true,
      .data 5 [0, 0, 0, 9, 9, 7] (fun _ _ => none) true]).map (fun s => s.session.timer) =
        some (some 5) := by
    decide +kernel
  obtain ⟨s, hs, htimer⟩ := Option.map_eq_some_iff.1 hrun
  exact ⟨s, hs, htimer, (slow_drip_closed (by decide) rfl hs).2⟩

end OpenIdea.Net.SlowDrip

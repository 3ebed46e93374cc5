import OpenIdea.Lib.Runs
import OpenIdea.Timer.Accuracy

/-!
# Timers against the monotonic clock

`Update`, `AddTimer`, `TicksFromNow` and `run_timer` of `BaseTimerManager`
(`timer/src/oi_timer_manager.cpp`) over the wheel, with the monotonic clock in whole microseconds.
`Update` runs on the poll thread and releases the wheel lock between ticks and around every
callback, so a state holds what its loop has left to do, and `AddTimer` and `RemoveTimer` may come
between any two of its steps: from other threads, or from the running callback.

The wheel lags behind the clock during a catch-up burst. `InStep` says by how much, and a timer
armed for tick `t` cannot leave the wheel before the clock has reached tick `t`. Every step keeps it
(`managerStep_notEarly`); the main result is `delay_never_fires_early`.
-/

set_option autoImplicit false

namespace OpenIdea.Timer

open OpenIdea.Lib.Runs

/-! ## The manager -/

/-- A tick length `Init` accepts for `Timer.offset_ms`. -/
structure TickLength where
  tickOffsetMilliseconds : Nat
  pos : 0 < tickOffsetMilliseconds
  divides : 1000 % tickOffsetMilliseconds = 0

/-- One tick in microseconds. -/
def TickLength.us (tick : TickLength) : Int := (tick.tickOffsetMilliseconds : Int) * 1000

theorem TickLength.us_pos (tick : TickLength) : 0 < tick.us := by
  have := tick.pos
  unfold TickLength.us
  omega

/-- The manager, the monotonic clock, and where the poll thread stands in `Update`. -/
structure Manager (τ : Type) where
  /-- the monotonic clock -/
  now : Int
  /-- `m_stLastTickMonotonic` -/
  lastTickMonotonic : Int
  wheel : TimerWheel τ
  /-- the iterations `Update` has left -/
  ticksLeft : Nat
  /-- the rest of `vDue` -/
  due : List τ
  /-- the timer whose `OnTimer` is running -/
  running : Option τ

/-- The manager right after `Init` at monotonic time `initTime`. -/
def Manager.init (τ : Type) (initTime : Int) : Manager τ where
  now := initTime
  lastTickMonotonic := initTime
  wheel := TimerWheel.init τ
  ticksLeft := 0
  due := []
  running := none

/-- What can happen next. -/
inductive ManagerEvent (τ : Type) where
  /-- time passes -/
  | elapse (us : Nat)
  /-- the poll thread enters `Update` and counts the ticks to catch up -/
  | update
  /-- `Update` runs the next tick under the wheel lock -/
  | tick
  /-- `Update` starts the next due callback -/
  | callback
  /-- the running callback returns: `RESET_TIMER` or `END_TIMER` -/
  | returned (reset : Bool)
  /-- the running callback throws -/
  | threw
  | addTimer (pTimer : τ) (iMillisecond : Int)
  | removeTimer (pTimer : τ)

/-! ## Steps -/

/-- The ticks `Update` has to run. -/
def updateTicks (tick : TickLength) (now lastTickMonotonic : Int) : Int :=
  let iDeltaUs := now - lastTickMonotonic
  if iDeltaUs ≤ 0 then 0 else (iDeltaUs.tdiv 1000).tdiv tick.tickOffsetMilliseconds

/-- `TicksFromNow` -/
def ticksFromNow (tick : TickLength) (now lastTickMonotonic iMillisecond : Int) : Int :=
  let iElapsedUs := if now - lastTickMonotonic < 0 then 0 else now - lastTickMonotonic
  let iTickUs := tick.us
  let iDueUs := iElapsedUs + iMillisecond * 1000
  let iTicks := (iDueUs + iTickUs - 1).tdiv iTickUs
  if iTicks < 1 then 1 else iTicks

/-- `milling2tick`, in unsigned 32-bit arithmetic. -/
def milling2tick (tick : TickLength) (iMillisecond : Int) : Nat :=
  let ms := (iMillisecond % 2 ^ 32).toNat
  ms / tick.tickOffsetMilliseconds + if ms % tick.tickOffsetMilliseconds > 0 then 1 else 0

section Steps

variable {τ : Type} [DecidableEq τ] (cfg : LevelConfig) (tick : TickLength)

/-- The poll thread is outside `Update`. -/
def Manager.idle (s : Manager τ) : Bool :=
  s.ticksLeft == 0 && s.due.isEmpty && s.running.isNone

/-- The renewal in `run_timer`: a periodic timer is armed by logical ticks. -/
def renew (w : TimerWheel τ) (pTimer : τ) : Option (TimerWheel τ) :=
  let iMillisecond := (w.data pTimer).offsetMilliseconds
  armTimer cfg w pTimer iMillisecond (milling2tick tick iMillisecond)

/-- One event. `none` where the event cannot happen or an assertion of the source fails. -/
def managerStep (s : Manager τ) : ManagerEvent τ → Option (Manager τ)
  | .elapse us => some { s with now := s.now + us }
  | .update =>
      if s.idle then
        some { s with ticksLeft := (updateTicks tick s.now s.lastTickMonotonic).toNat }
      else none
  | .tick =>
      if s.due = [] ∧ s.running = none ∧ 0 < s.ticksLeft then
        (runTick cfg s.wheel).map fun p =>
          { s with
            lastTickMonotonic := s.lastTickMonotonic + tick.us
            wheel := p.2, due := p.1, ticksLeft := s.ticksLeft - 1 }
      else none
  | .callback =>
      match s.running, s.due with
      | none, pTimer :: rest => some { s with due := rest, running := some pTimer }
      | _, _ => none
  | .returned reset =>
      match s.running with
      | none => none
      | some pTimer =>
          if reset then (renew cfg tick s.wheel pTimer).map fun w =>
            { s with wheel := w, running := none }
          else some { s with running := none }
  | .threw =>
      match s.running with
      | none => none
      | some _ => some { s with running := none }
  | .addTimer pTimer iMillisecond =>
      (armTimer cfg s.wheel pTimer iMillisecond
        (ticksFromNow tick s.now s.lastTickMonotonic iMillisecond).toNat).map fun w =>
          { s with wheel := w }
  | .removeTimer pTimer => (removeTimer cfg s.wheel pTimer).map fun p => { s with wheel := p.2 }

end Steps

/-! ## Rounding -/

/-- `Update` rounds down: the ticks it runs fit into the time that has passed. -/
theorem updateTicks_mul_le (tick : TickLength) {now last : Int} (h : last ≤ now) :
    (updateTicks tick now last).toNat * tick.us ≤ now - last := by
  unfold updateTicks
  have hpos : (0 : Int) < tick.tickOffsetMilliseconds := by exact_mod_cast tick.pos
  by_cases hd : now - last ≤ 0
  · simp only [if_pos hd, Int.toNat_zero, Nat.cast_zero, zero_mul]
    omega
  · simp only [if_neg hd]
    have h0 : 0 ≤ now - last := by omega
    have h1000 : 0 ≤ (now - last) / 1000 := Int.ediv_nonneg h0 (by omega)
    rw [Int.tdiv_eq_ediv_of_nonneg h0, Int.tdiv_eq_ediv_of_nonneg h1000,
      Int.toNat_of_nonneg (Int.ediv_nonneg h1000 hpos.le), TickLength.us]
    have h1 := Int.ediv_mul_le ((now - last) / 1000) hpos.ne'
    have h2 := Int.ediv_mul_le (now - last) (show (1000 : Int) ≠ 0 by omega)
    nlinarith

theorem one_le_ticksFromNow (tick : TickLength) (now last ms : Int) :
    1 ≤ ticksFromNow tick now last ms := by
  simp only [ticksFromNow]
  split <;> omega

/-- `TicksFromNow` rounds up: the ticks it returns, counted from the last tick, cover the delay. -/
theorem le_ticksFromNow_mul (tick : TickLength) {now last ms : Int} (h : last ≤ now)
    (hms : 0 < ms) : now + ms * 1000 ≤ last + ticksFromNow tick now last ms * tick.us := by
  have hT := tick.us_pos
  have hle : now - last + ms * 1000 ≤
      (now - last + ms * 1000 + tick.us - 1).tdiv tick.us * tick.us := by
    rw [Int.tdiv_eq_ediv_of_nonneg (by omega)]
    have hmod := Int.emod_lt_of_pos (now - last + ms * 1000 + tick.us - 1) hT
    have hdiv := Int.ediv_mul_add_emod (now - last + ms * 1000 + tick.us - 1) tick.us
    omega
  simp only [ticksFromNow, if_neg (by omega : ¬ now - last < 0)]
  split
  · rename_i hlt
    have := mul_le_mul_of_nonneg_right (show
      (now - last + ms * 1000 + tick.us - 1).tdiv tick.us ≤ 1 by omega) hT.le
    omega
  · omega

/-! ## Invariants -/

section Invariants

variable {τ : Type} {cfg : LevelConfig} {tick : TickLength}

/-- The wheel is in step with the clock: the last tick is `currentTick` tick lengths after `Init`,
and the clock is past every tick the current `Update` has still to run. -/
structure InStep (cfg : LevelConfig) (tick : TickLength) (initTime : Int) (s : Manager τ) :
    Prop where
  offsetsOk : OffsetsOk cfg s.wheel
  lastTick_eq : s.lastTickMonotonic = initTime + s.wheel.currentTick * tick.us
  burst_le : s.lastTickMonotonic + s.ticksLeft * tick.us ≤ s.now

variable {deadline initTime : Int}

theorem InStep.lastTick_le {s : Manager τ} (h : InStep cfg tick initTime s) :
    s.lastTickMonotonic ≤ s.now := by
  have := mul_nonneg (Int.natCast_nonneg s.ticksLeft) tick.us_pos.le
  have := h.burst_le
  omega

theorem init_inStep (initTime : Int) : InStep cfg tick initTime (Manager.init τ initTime) :=
  ⟨init_offsetsOk, by simp [Manager.init, TimerWheel.init], by simp [Manager.init]⟩

variable [DecidableEq τ]

/-- The renewal of a timer, as an operation on the wheel. -/
def renewal (tick : TickLength) (w : TimerWheel τ) (x : τ) : WheelOp τ :=
  .add x (w.data x).offsetMilliseconds (milling2tick tick (w.data x).offsetMilliseconds)

theorem renew_exec {w w' : TimerWheel τ} {x : τ} (h : renew cfg tick w x = some w') :
    exec cfg (renewal tick w x) w = some ([], w') := by
  unfold renew at h
  rw [renewal, exec, h]
  rfl

/-- An operation other than a tick keeps the current tick. -/
theorem exec_currentTick {w w' : TimerWheel τ} {op : WheelOp τ} {due : List τ}
    (hw : OffsetsOk cfg w) (hop : op ≠ .tick) (h : exec cfg op w = some (due, w')) :
    w'.currentTick = w.currentTick := by
  cases op with
  | tick => exact absurd rfl hop
  | add y ms k =>
    simp only [exec, Option.map_eq_some_iff, Prod.mk.injEq] at h
    obtain ⟨w₁, harm, -, rfl⟩ := h
    obtain ⟨hms, hk⟩ := armTimer_positive harm
    obtain ⟨w₂, harm₂, hcur, -⟩ := armTimer_frame hw y hms hk
    obtain rfl := Option.some.inj (harm.symm.trans harm₂)
    exact hcur
  | remove y =>
    simp only [exec, Option.map_eq_some_iff, Prod.mk.injEq] at h
    obtain ⟨⟨b, w₁⟩, hrem, -, rfl⟩ := h
    exact (removeTimer_frame hrem).1

/-- What an event can do to the manager. -/
inductive Move (cfg : LevelConfig) (tick : TickLength) (s : Manager τ) :
    ManagerEvent τ → Manager τ → Prop
  | elapse (us : Nat) : Move cfg tick s (.elapse us) { s with now := s.now + us }
  | update (hleft : s.ticksLeft = 0) : Move cfg tick s .update
      { s with ticksLeft := (updateTicks tick s.now s.lastTickMonotonic).toNat }
  | tick (due : List τ) (w : TimerWheel τ) (hdue : s.due = []) (hidle : s.running = none)
      (hleft : 0 < s.ticksLeft) (hrun : runTick cfg s.wheel = some (due, w)) : Move cfg tick s .tick
      { s with
        lastTickMonotonic := s.lastTickMonotonic + tick.us
        wheel := w, due := due, ticksLeft := s.ticksLeft - 1 }
  | callback (x : τ) (rest : List τ) (hidle : s.running = none) (hdue : s.due = x :: rest) :
      Move cfg tick s .callback { s with due := rest, running := some x }
  | ended (e : ManagerEvent τ) : Move cfg tick s e { s with running := none }
  | renewed (x : τ) (w : TimerWheel τ) (hx : s.running = some x)
      (hop : exec cfg (renewal tick s.wheel x) s.wheel = some ([], w)) :
      Move cfg tick s (.returned true) { s with wheel := w, running := none }
  | added (x : τ) (ms : Int) (w : TimerWheel τ)
      (hop : exec cfg (.add x ms (ticksFromNow tick s.now s.lastTickMonotonic ms).toNat) s.wheel =
        some ([], w)) : Move cfg tick s (.addTimer x ms) { s with wheel := w }
  | removed (x : τ) (w : TimerWheel τ) (hop : exec cfg (.remove x) s.wheel = some ([], w)) :
      Move cfg tick s (.removeTimer x) { s with wheel := w }

theorem managerStep_move {s s' : Manager τ} {e : ManagerEvent τ}
    (h : managerStep cfg tick s e = some s') : Move cfg tick s e s' := by
  cases e with
  | elapse us =>
    obtain rfl := Option.some.inj h
    exact .elapse us
  | update =>
    obtain ⟨hidle, rfl⟩ := of_guard h
    simp only [Manager.idle, Bool.and_eq_true, beq_iff_eq] at hidle
    exact .update hidle.1.1
  | tick =>
    obtain ⟨hready, h⟩ := Option.ite_none_right_eq_some.1 h
    obtain ⟨⟨due, w⟩, hrun, rfl⟩ := Option.map_eq_some_iff.1 h
    exact .tick due w hready.1 hready.2.1 hready.2.2 hrun
  | callback =>
    simp only [managerStep] at h
    split at h
    · rename_i hidle hdue
      obtain rfl := Option.some.inj h
      exact .callback _ _ hidle hdue
    · cases h
  | returned reset =>
    simp only [managerStep] at h
    split at h
    · cases h
    · rename_i x hx
      split at h
      · rename_i hreset
        subst hreset
        obtain ⟨w, hw, rfl⟩ := Option.map_eq_some_iff.1 h
        exact .renewed x w hx (renew_exec hw)
      · obtain rfl := Option.some.inj h
        exact .ended _
  | threw =>
    simp only [managerStep] at h
    split at h
    · cases h
    · obtain rfl := Option.some.inj h
      exact .ended _
  | addTimer x ms =>
    obtain ⟨w, hw, rfl⟩ := Option.map_eq_some_iff.1 h
    exact .added x ms w (by simp only [exec, hw, Option.map_some])
  | removeTimer x =>
    obtain ⟨⟨b, w⟩, hw, rfl⟩ := Option.map_eq_some_iff.1 h
    exact .removed x w (by simp only [exec, hw, Option.map_some])

/-- Every event keeps the wheel in step with the clock. -/
theorem managerStep_inStep {s s' : Manager τ} {e : ManagerEvent τ} (hs : InStep cfg tick initTime s)
    (h : managerStep cfg tick s e = some s') : InStep cfg tick initTime s' := by
  have hT := tick.us_pos
  obtain ⟨hoff, hlast, hburst⟩ := hs
  have hwheel : ∀ {op : WheelOp τ} {w : TimerWheel τ} {r : Option τ}, op ≠ .tick →
      exec cfg op s.wheel = some ([], w) →
      InStep cfg tick initTime { s with wheel := w, running := r } := by
    intro op w r hne hop
    exact ⟨exec_offsetsOk hoff hop, by rw [exec_currentTick hoff hne hop]; exact hlast, hburst⟩
  cases managerStep_move h with
  | elapse us => exact ⟨hoff, hlast, by dsimp only; omega⟩
  | update hleft =>
    rw [hleft, Nat.cast_zero, zero_mul] at hburst
    have := updateTicks_mul_le tick (show s.lastTickMonotonic ≤ s.now by omega)
    exact ⟨hoff, hlast, by dsimp only; omega⟩
  | tick due w hdue hidle hleft hrun =>
    obtain ⟨due', w', hrun', hoff', hcur', -⟩ := runTick_spec hoff
    obtain ⟨rfl, rfl⟩ := Prod.mk.inj (Option.some.inj (hrun.symm.trans hrun'))
    refine ⟨hoff', ?_, ?_⟩
    · dsimp only
      rw [hcur', hlast, Nat.cast_add, Nat.cast_one, add_mul, one_mul, add_assoc]
    · -- the tick moves one tick length from what is left to what is done
      have hsplit : (s.ticksLeft : Int) * tick.us =
          tick.us + ((s.ticksLeft - 1 : Nat) : Int) * tick.us := by
        rw [Nat.cast_sub hleft]
        ring
      dsimp only
      omega
  | callback x rest hidle hdue => exact ⟨hoff, hlast, hburst⟩
  | ended => exact ⟨hoff, hlast, hburst⟩
  | renewed x w hx hop => exact hwheel (by simp [renewal]) hop
  | added x ms w hop => exact hwheel (by simp) hop
  | removed x w hop => exact hwheel (by simp) hop

/-- The event arms `x`: `AddTimer`, or the renewal of its own running callback. -/
def Arms (x : τ) (s : Manager τ) : ManagerEvent τ → Prop
  | .addTimer y _ => y = x
  | .returned reset => reset = true ∧ s.running = some x
  | _ => False

/-- The timer waits, in the wheel, for a tick the clock reaches at `deadline` or later; or it is in
no slot; or the clock has reached `deadline`. Only in the last case may it be due. -/
def NotEarly (cfg : LevelConfig) (tick : TickLength) (initTime deadline : Int) (x : τ)
    (s : Manager τ) : Prop :=
  deadline ≤ s.now ∨ (x ∉ s.due ∧ (Absent s.wheel x ∨
    ∃ t : Nat, Armed cfg s.wheel x t ∧ deadline ≤ initTime + t * tick.us))

/-- An operation that leaves `x` alone and hands nothing out keeps `x` from being early. -/
theorem exec_notEarly {x : τ} {s : Manager τ} {op : WheelOp τ} {w : TimerWheel τ} {r : Option τ}
    (hoff : OffsetsOk cfg s.wheel) (h : exec cfg op s.wheel = some ([], w)) (hop : op.Leaves x)
    (hx : NotEarly cfg tick initTime deadline x s) :
    NotEarly cfg tick initTime deadline x { s with wheel := w, running := r } := by
  obtain ⟨habs, harm⟩ := exec_leaves hoff hop h
  rcases hx with hx | ⟨hdue, hx | ⟨t, ht, hle⟩⟩
  · exact Or.inl hx
  · exact Or.inr ⟨hdue, Or.inl (habs hx).2⟩
  · rcases harm t ht with ⟨-, ht'⟩ | ⟨hcount, -⟩
    · exact Or.inr ⟨hdue, Or.inr ⟨t, ht', hle⟩⟩
    · exact absurd hcount (by simp)

/-- Removing the timer itself takes it out of the wheel or changes nothing. -/
theorem removeTimer_notEarly {x : τ} {s : Manager τ} {w : TimerWheel τ}
    (h : exec cfg (.remove x) s.wheel = some ([], w)) (hx : NotEarly cfg tick initTime deadline x s)
    : NotEarly cfg tick initTime deadline x { s with wheel := w } := by
  simp only [exec, Option.map_eq_some_iff, Prod.mk.injEq, true_and] at h
  obtain ⟨⟨b, w₁⟩, hrem, rfl⟩ := h
  rcases removeTimer_self hrem with rfl | ⟨i, j, hmem, rfl⟩
  · exact hx
  · rcases hx with hx | ⟨hdue, hx | ⟨t, ⟨-, i₀, q, hat, -⟩, -⟩⟩
    · exact Or.inl hx
    · exact absurd (hx i j) (by rwa [List.count_eq_zero, not_not])
    · exact Or.inr ⟨hdue, Or.inl (hat.absent_erase hmem)⟩

/-- Every event that does not arm `x` again keeps it from being early. -/
theorem managerStep_notEarly {x : τ} {s s' : Manager τ} {e : ManagerEvent τ}
    (hs : InStep cfg tick initTime s) (hx : NotEarly cfg tick initTime deadline x s)
    (harms : ¬ Arms x s e) (h : managerStep cfg tick s e = some s') :
    NotEarly cfg tick initTime deadline x s' := by
  have hs' := managerStep_inStep hs h
  cases managerStep_move h with
  | elapse us =>
    rcases hx with hx | hx
    · exact Or.inl (by dsimp only; omega)
    · exact Or.inr hx
  | update hleft => exact hx
  | tick due w hdue hidle hleft hrun =>
    obtain ⟨due', w', hrun', -, -, -, hspec⟩ := runTick_spec hs.offsetsOk
    obtain ⟨rfl, rfl⟩ := Prod.mk.inj (Option.some.inj (hrun.symm.trans hrun'))
    rcases hx with hx | ⟨-, hx | ⟨t, ht, hle⟩⟩
    · exact Or.inl hx
    · exact Or.inr ⟨((hspec x).1 hx).1, Or.inl ((hspec x).1 hx).2⟩
    · rcases (hspec x).2 t ht with ⟨hnot, ht'⟩ | ⟨-, -, hcur⟩
      · exact Or.inr ⟨hnot, Or.inr ⟨t, ht', hle⟩⟩
      · -- handed out: the wheel has reached tick t, and the clock is not behind the wheel
        left
        have hlast := hs'.lastTick_le
        have htick : (t : Int) * tick.us ≤ (w.currentTick : Int) * tick.us :=
          mul_le_mul_of_nonneg_right (by omega) tick.us_pos.le
        have heq := hs'.lastTick_eq
        dsimp only at hlast heq ⊢
        omega
  | callback y rest hidle hdue =>
    rcases hx with hx | ⟨hnot, hx⟩
    · exact Or.inl hx
    · exact Or.inr ⟨fun hmem => hnot (hdue ▸ List.mem_cons_of_mem _ hmem), hx⟩
  | ended => exact hx
  | renewed y w hy hop =>
    have hyx : y ≠ x := fun hyx => harms ⟨rfl, hyx ▸ hy⟩
    exact exec_notEarly hs.offsetsOk hop hyx hx
  | added y ms w hop =>
    have hyx : y ≠ x := harms
    exact exec_notEarly hs.offsetsOk hop hyx hx
  | removed y w hop =>
    by_cases hyx : y = x
    · subst hyx
      exact removeTimer_notEarly hop hx
    · exact exec_notEarly hs.offsetsOk hop hyx hx

end Invariants

/-! ## No timer is early -/

/-- **A delay never fires early.** In every reachable state the last tick is `currentTick` tick
lengths after `Init` and not past the current time. When `AddTimer` puts a timer that is neither in
the wheel nor due into the wheel at time `a`, from another thread or from a callback in the middle
of a burst, its callback does not start before `a + ms`, whatever happens in between short of
arming the timer again. -/
theorem delay_never_fires_early {τ : Type} [DecidableEq τ] (cfg : LevelConfig) (tick : TickLength)
    (initTime : Int) (before : List (ManagerEvent τ)) (s₀ : Manager τ)
    (h₀ : runFrom (managerStep cfg tick) (Manager.init τ initTime) before = some s₀) :
    (s₀.lastTickMonotonic = initTime + s₀.wheel.currentTick * tick.us ∧
      s₀.lastTickMonotonic ≤ s₀.now) ∧
    ∀ (x : τ) (ms : Int), 0 < ms → Absent s₀.wheel x → x ∉ s₀.due →
      ∃ s₁, managerStep cfg tick s₀ (.addTimer x ms) = some s₁ ∧
        ∀ (events : List (ManagerEvent τ)) (s₂ s₃ : Manager τ),
          Along (managerStep cfg tick) (fun s e => ¬ Arms x s e) s₁ events →
          runFrom (managerStep cfg tick) s₁ events = some s₂ →
          managerStep cfg tick s₂ .callback = some s₃ → s₃.running = some x →
          s₀.now + ms * 1000 ≤ s₂.now := by
  have hs₀ : InStep cfg tick initTime s₀ :=
    runFrom_invariant (fun s e s' => managerStep_inStep) (init_inStep initTime) h₀
  refine ⟨⟨hs₀.lastTick_eq, hs₀.lastTick_le⟩, fun x ms hms habs hdue => ?_⟩
  have hk := one_le_ticksFromNow tick s₀.now s₀.lastTickMonotonic ms
  obtain ⟨w₁, harm, -, -, hx₁⟩ := armTimer_armed hs₀.offsetsOk habs hms
    (show 0 < (ticksFromNow tick s₀.now s₀.lastTickMonotonic ms).toNat by omega)
  have hadd : managerStep cfg tick s₀ (.addTimer x ms) = some { s₀ with wheel := w₁ } := by
    simp only [managerStep, harm, Option.map_some]
  refine ⟨_, hadd, fun events s₂ s₃ halong hrun hcb hstart => ?_⟩
  -- the trigger tick is past a + ms when counted from the last tick
  have hdeadline : s₀.now + ms * 1000 ≤ initTime +
      ((s₀.wheel.currentTick + (ticksFromNow tick s₀.now s₀.lastTickMonotonic ms).toNat : Nat) :
        Int) * tick.us := by
    have hround := le_ticksFromNow_mul tick hs₀.lastTick_le hms
    have hlast := hs₀.lastTick_eq
    rw [Nat.cast_add, Int.toNat_of_nonneg (by omega), add_mul]
    omega
  have hs₂ := runFrom_invariant_along
    (I := fun s => InStep cfg tick initTime s ∧
      NotEarly cfg tick initTime (s₀.now + ms * 1000) x s)
    (fun s e s' hI hP h => ⟨managerStep_inStep hI.1 h, managerStep_notEarly hI.1 hI.2 hP h⟩)
    ⟨managerStep_inStep hs₀ hadd, Or.inr ⟨hdue, Or.inr ⟨_, hx₁, hdeadline⟩⟩⟩ halong hrun
  cases managerStep_move hcb with
  | callback y rest hidle hy =>
      obtain rfl := Option.some.inj hstart
      rcases hs₂.2 with hle | ⟨hnot, -⟩
      · exact hle
      · exact absurd (by rw [hy]; exact List.mem_cons_self) hnot
  | ended => exact absurd hstart (by simp)

/-- With a tick of 50 ms, a timer of 60 ms is added 170 ms after `Init`, in a burst of three ticks.
It is due at tick 5: its callback starts in the next burst, at 250 ms. -/
theorem delay_never_fires_early_in_burst :
    let cfg : LevelConfig := ⟨3, [2, 2, 1], by decide, by decide⟩
    let tick : TickLength := ⟨50, by decide, by decide⟩
    let s₀ : Manager Nat := { Manager.init Nat 0 with now := 170000, ticksLeft := 3 }
    ∃ s₁ s₂ s₃, managerStep cfg tick s₀ (.addTimer 2 60) = some s₁ ∧
      runFrom (managerStep cfg tick) s₁
        [.tick, .tick, .tick, .elapse 80000, .update, .tick, .tick] = some s₂ ∧
      managerStep cfg tick s₂ .callback = some s₃ ∧ s₃.running = some 2 ∧
      s₀.now + 60 * 1000 ≤ s₂.now := by
  intro cfg tick s₀
  have hticks : updateTicks tick 170000 0 = 3 := by decide
  have h₀ : runFrom (managerStep cfg tick) (Manager.init Nat 0) [.elapse 170000, .update] =
      some s₀ := by
    simp [runFrom, managerStep, Manager.idle, Manager.init, hticks, s₀]
  obtain ⟨-, hdelay⟩ := delay_never_fires_early cfg tick 0 [.elapse 170000, .update] s₀ h₀
  obtain ⟨s₁, hadd, hstart⟩ := hdelay 2 60 (by decide) (fun _ _ => rfl) (by simp [s₀, Manager.init])
  have hrun : ((managerStep cfg tick s₀ (.addTimer 2 60)).bind fun s₁ =>
      (runFrom (managerStep cfg tick) s₁
        [.tick, .tick, .tick, .elapse 80000, .update, .tick, .tick]).bind fun s₂ =>
        (managerStep cfg tick s₂ .callback).map fun s₃ => s₃.running) = some (some 2) := by
    decide
  rw [hadd] at hrun
  simp only [Option.bind_some, Option.bind_eq_some_iff, Option.map_eq_some_iff] at hrun
  obtain ⟨s₂, hafter, s₃, hcb, hx⟩ := hrun
  exact ⟨s₁, s₂, s₃, hadd, hafter, hcb, hx,
    hstart _ s₂ s₃ (by simp [Along, Arms]) hafter hcb hx⟩

end OpenIdea.Timer

import OpenIdea.Timer.Periodic
import OpenIdea.Timer.Removal

/-!
# How late a periodic timer gets (oi_timer_manager.cpp)

A timer that leaves a coarse slot at its own trigger tick is put into the next slot of level 0, one
tick late, and `run_timer` counts the next period from there. The slot of a coarse level is given
out at a tick at which level 0 starts over, so this happens only where the trigger tick is a
multiple of the slots of level 0; and it never happens to a timer that level 0 takes at once.

The first half is about one tick of the wheel: `Punctual` for the slots of level 0, and the exact
tick at which a slot of level 1 is given out. The second half follows the firings through a run.
They are periodic, up to one tick at the multiples (`periodic_firings`); `late_firing` is one that
is a tick late.
-/

set_option autoImplicit false

namespace OpenIdea.Timer

open OpenIdea.Lib.Runs

variable {τ : Type} [DecidableEq τ] {cfg : LevelConfig} {tick : TickLength}

/-! ## The parts of a tick -/

/-- Level 0 has come to slot `cur % maxTick 0` after tick `cur`. -/
structure Clocked (cfg : LevelConfig) (w : TimerWheel τ) : Prop where
  offsetsOk : OffsetsOk cfg w
  lowest : w.offset 0 = w.currentTick % cfg.maxTick 0

/-- What `try_uniform` keeps, if one level does. -/
theorem tryUniformFrom_invariant {I : TimerWheel τ → Prop} {k : Nat}
    (hlevel : ∀ w i l w₁ w₂, k ≤ i → I w → levelRunTick cfg w i = some (l, w₁) →
      addAll cfg w₁ l = some w₂ → I w₂) {left : Nat} :
    ∀ {i : Nat} {w w' : TimerWheel τ}, k ≤ i → I w → tryUniformFrom cfg left i w = some w' →
      I w' := by
  induction left with
  | zero =>
    intro i w w' _ hI huniform
    obtain rfl := Option.some.inj huniform
    exact hI
  | succ left ih =>
    intro i w w' hi hI huniform
    simp only [tryUniformFrom] at huniform
    -- the level is ticked only where the one below it starts over; else nothing changes
    split at huniform
    · simp only [Option.bind_eq_some_iff, Prod.exists] at huniform
      obtain ⟨l, w₁, hrun, w₂, hall, hrest⟩ := huniform
      exact ih (by omega) (hlevel w i l w₁ w₂ hi hI hrun hall) hrest
    · exact ih (by omega) hI huniform

variable {due l : List τ} {w w' w₁ : TimerWheel τ} {T p q t : Nat}

/-- **A tick.** Level 0 gives out its slot; where it starts over, `try_uniform` follows. -/
theorem runTick_cases (hw : OffsetsOk cfg w) (hrun : runTick cfg w = some (due, w')) :
    ∃ w₁, Ticked cfg { w with currentTick := w.currentTick + 1 } 0 due w₁ ∧ OffsetsOk cfg w₁ ∧
      (w₁.offset 0 ≠ 0 ∧ w' = w₁ ∨
        w₁.offset 0 = 0 ∧ tryUniformFrom cfg (cfg.timerLevelCount - 1) 1 w₁ = some w') := by
  have hw₁ : OffsetsOk cfg { w with currentTick := w.currentTick + 1 } := hw
  obtain ⟨l, w₁, hlevel, htick⟩ := levelRunTick_ticked hw₁ 0
  simp only [runTick, hlevel, Option.bind_some, isLevelEnd, beq_iff_eq] at hrun
  split at hrun
  · rename_i hend
    obtain ⟨w₂, huniform, heq⟩ := Option.map_eq_some_iff.1 hrun
    obtain ⟨rfl, rfl⟩ := Prod.mk.inj heq
    exact ⟨w₁, htick, htick.offsetsOk hw₁, Or.inr ⟨hend, huniform⟩⟩
  · rename_i hend
    obtain ⟨rfl, rfl⟩ := Prod.mk.inj (Option.some.inj hrun)
    exact ⟨w₁, htick, htick.offsetsOk hw₁, Or.inl ⟨hend, rfl⟩⟩

/-- A level that is ticked and given out again, as the two lemmas about it say it. -/
theorem level_parts {w₂ : TimerWheel τ} {i : Nat} (hw : OffsetsOk cfg w)
    (hrun : levelRunTick cfg w i = some (l, w₁)) (hall : addAll cfg w₁ l = some w₂) :
    Ticked cfg w i l w₁ ∧ OffsetsOk cfg w₁ ∧ SameClock w₁ w₂ ∧ OffsetsOk cfg w₂ ∧
      ∀ x, x ∉ l → ∀ i' j', (w₂.tickDatas i' j').count x = (w₁.tickDatas i' j').count x := by
  obtain ⟨l', w₁', hrun', htick⟩ := levelRunTick_ticked hw i
  obtain ⟨rfl, rfl⟩ := Prod.mk.inj (Option.some.inj (hrun.symm.trans hrun'))
  have hw₁ := htick.offsetsOk hw
  obtain ⟨w₂', hall', hclock, hcount⟩ := addAll_clock l hw₁
  obtain rfl := Option.some.inj (hall.symm.trans hall')
  exact ⟨htick, hw₁, hclock, hw₁.congr hclock, hcount⟩

/-- `try_uniform` leaves the tick and level 0 where they are. -/
theorem tryUniformFrom_clocked {left : Nat} (h : Clocked cfg w)
    (huniform : tryUniformFrom cfg left 1 w = some w') :
    Clocked cfg w' ∧ w'.currentTick = w.currentTick ∧ w'.offset 0 = w.offset 0 := by
  have hall : OffsetsOk cfg w' ∧ w'.currentTick = w.currentTick ∧ w'.offset 0 = w.offset 0 := by
    -- a timer that is put in again may go to level 0, but no offset moves by that
    refine tryUniformFrom_invariant (k := 1)
      (I := fun u => OffsetsOk cfg u ∧ u.currentTick = w.currentTick ∧ u.offset 0 = w.offset 0)
      ?_ (le_refl 1) ⟨h.offsetsOk, rfl, rfl⟩ huniform
    rintro u i l u₁ u₂ hi ⟨hu, hcur, hoff⟩ hrun hall
    obtain ⟨htick, -, hclock, hu₂, -⟩ := level_parts hu hrun hall
    refine ⟨hu₂, ?_, ?_⟩
    · rw [hclock.currentTick_eq, htick.currentTick_eq, hcur]
    · rw [hclock.offset_eq, htick.offset_of_ne 0 (by omega), hoff]
  obtain ⟨hw', hcur, hoff⟩ := hall
  exact ⟨⟨hw', by rw [hoff, hcur, h.lowest]⟩, hcur, hoff⟩

theorem runTick_clocked (h : Clocked cfg w) (hrun : runTick cfg w = some (due, w')) :
    Clocked cfg w' ∧ w'.currentTick = w.currentTick + 1 := by
  obtain ⟨w₁, htick, hw₁, hcases⟩ := runTick_cases h.offsetsOk hrun
  have hcur : w₁.currentTick = w.currentTick + 1 := htick.currentTick_eq
  have hoff : w₁.offset 0 = (w.offset 0 + 1) % cfg.maxTick 0 := htick.offset_self
  have h₁ : Clocked cfg w₁ := ⟨hw₁, by rw [hoff, hcur, h.lowest, Nat.mod_add_mod]⟩
  rcases hcases with ⟨-, rfl⟩ | ⟨-, huniform⟩
  · exact ⟨h₁, hcur⟩
  · obtain ⟨h', hcur', -⟩ := tryUniformFrom_clocked h₁ huniform
    exact ⟨h', hcur'.trans hcur⟩

/-- The operations that are no tick leave the offsets alone. -/
theorem exec_clocked {op : WheelOp τ} (h : Clocked cfg w) (hop : op ≠ .tick)
    (hexec : exec cfg op w = some (due, w')) : Clocked cfg w' := by
  have hoff : w'.offset = w.offset := by
    cases op with
    | tick => exact absurd rfl hop
    | add y ms k =>
      simp only [exec, Option.map_eq_some_iff, Prod.mk.injEq] at hexec
      obtain ⟨w₁, harm, -, rfl⟩ := hexec
      obtain ⟨hms, hk⟩ := armTimer_positive harm
      obtain ⟨w₂, harm₂, -, hoff, -⟩ := armTimer_frame h.offsetsOk y hms hk
      obtain rfl := Option.some.inj (harm.symm.trans harm₂)
      exact hoff
    | remove y =>
      simp only [exec, Option.map_eq_some_iff, Prod.mk.injEq] at hexec
      obtain ⟨⟨b, w₁⟩, hrem, -, rfl⟩ := hexec
      exact (removeTimer_frame hrem).2.1
  refine ⟨exec_offsetsOk h.offsetsOk hexec, ?_⟩
  rw [hoff, exec_currentTick h.offsetsOk hop hexec, h.lowest]

/-! ## Level 0

A timer that level 0 takes at once is in the slot of its trigger tick. -/

/-- **The slots of level 0 are exact**: the timer is in the slot of its trigger tick, or in the next
one where that tick is reached. -/
def Punctual (cfg : LevelConfig) (w : TimerWheel τ) (x : τ) : Prop :=
  ∀ q, q < cfg.maxTick 0 → x ∈ w.tickDatas 0 ((w.offset 0 + q) % cfg.maxTick 0) →
    q + 1 = max 1 ((w.data x).triggerTick - w.currentTick)

theorem slot_inj {o m q' : Nat} (hq : q < m) (hq' : q' < m) (h : (o + q) % m = (o + q') % m) :
    q = q' := by
  have hmod : q % m = q' % m := Nat.ModEq.add_left_cancel' o h
  rwa [Nat.mod_eq_of_lt hq, Nat.mod_eq_of_lt hq'] at hmod

theorem addTimer_punctual {x y : τ} (hw : OffsetsOk cfg w) (h : Punctual cfg w x)
    (hadd : addTimer cfg w y = some w') : Punctual cfg w' x := by
  obtain ⟨w₁, i, q', hadd', -, hq', hplaced, hahead⟩ := addTimer_placed hw y
  obtain rfl := Option.some.inj (hadd.symm.trans hadd')
  intro q hq hmem
  rw [hplaced.clock.offset_eq, hplaced.slots] at hmem
  rw [hplaced.clock.currentTick_eq, hplaced.clock.triggerTick_eq]
  split at hmem
  · rename_i heq
    obtain ⟨rfl, hslot⟩ := heq
    rcases List.mem_append.1 hmem with hold | hnew
    · exact h q hq hold
    · obtain rfl := List.mem_singleton.1 hnew
      rw [slot_inj hq hq' hslot]
      exact hahead.exact rfl
  · exact h q hq hmem

theorem addAll_punctual {x : τ} : ∀ {w w' : TimerWheel τ}, OffsetsOk cfg w →
    Punctual cfg w x → addAll cfg w l = some w' → Punctual cfg w' x := by
  induction l with
  | nil =>
    intro w w' _ h hall
    obtain rfl := Option.some.inj hall
    exact h
  | cons y l ih =>
    intro w w' hw h hall
    simp only [addAll, Option.bind_eq_some_iff] at hall
    obtain ⟨w₁, hadd, hrest⟩ := hall
    have h₁ := addTimer_punctual hw h hadd
    obtain ⟨w₁', i, q, hadd', -, -, hplaced, -⟩ := addTimer_placed hw y
    obtain rfl := Option.some.inj (hadd.symm.trans hadd')
    exact ih (hw.congr hplaced.clock) h₁ hrest

/-- A level above 0 that is given out gives its timers to the right slots of level 0. -/
theorem level_punctual {w₂ : TimerWheel τ} {x : τ} {i : Nat} (hi : 1 ≤ i) (hw : OffsetsOk cfg w)
    (h : Punctual cfg w x) (hrun : levelRunTick cfg w i = some (l, w₁))
    (hall : addAll cfg w₁ l = some w₂) : Punctual cfg w₂ x := by
  obtain ⟨htick, hw₁, -, -, -⟩ := level_parts hw hrun hall
  -- what is left to show: taking the slot out has not changed level 0
  apply addAll_punctual hw₁ _ hall
  intro q hq hmem
  have hne : ¬ (0 = i ∧ (w₁.offset 0 + q) % cfg.maxTick 0 = w.offset i) := by
    intro heq
    omega
  rw [htick.slots, if_neg hne, htick.offset_of_ne 0 (by omega)] at hmem
  rw [htick.currentTick_eq, htick.data_eq]
  exact h q hq hmem

omit [DecidableEq τ] in
/-- Level 0 itself: the slot under the offset is given out, and the others come one nearer. -/
theorem lowest_slot {x : τ} (hw : OffsetsOk cfg w)
    (htick : Ticked cfg { w with currentTick := w.currentTick + 1 } 0 l w₁) (hq : q < cfg.maxTick 0)
    (hmem : x ∈ w₁.tickDatas 0 ((w₁.offset 0 + q) % cfg.maxTick 0)) :
    q + 1 < cfg.maxTick 0 ∧ x ∈ w.tickDatas 0 ((w.offset 0 + (q + 1)) % cfg.maxTick 0) := by
  have hoff : w₁.offset 0 = (w.offset 0 + 1) % cfg.maxTick 0 := htick.offset_self
  have hslot : (w₁.offset 0 + q) % cfg.maxTick 0 = (w.offset 0 + (q + 1)) % cfg.maxTick 0 := by
    rw [hoff, Nat.mod_add_mod, Nat.add_assoc, Nat.add_comm 1 q]
  rw [htick.slots, hslot] at hmem
  split at hmem
  · exact absurd hmem List.not_mem_nil
  · rename_i hne
    refine ⟨?_, hmem⟩
    by_contra hlast
    -- once around, that is the slot that was given out
    refine hne ⟨rfl, ?_⟩
    show (w.offset 0 + (q + 1)) % cfg.maxTick 0 = w.offset 0
    rw [show q + 1 = cfg.maxTick 0 by omega, Nat.add_mod_right, Nat.mod_eq_of_lt (hw 0)]

omit [DecidableEq τ] in
theorem lowest_punctual {x : τ} (h : Punctual cfg w x) (hw : OffsetsOk cfg w)
    (htick : Ticked cfg { w with currentTick := w.currentTick + 1 } 0 l w₁) :
    Punctual cfg w₁ x := by
  intro q hq hmem
  have hcur : w₁.currentTick = w.currentTick + 1 := htick.currentTick_eq
  have hdata : w₁.data = w.data := htick.data_eq
  obtain ⟨hlast, hmem'⟩ := lowest_slot hw htick hq hmem
  have hold := h (q + 1) hlast hmem'
  rw [hcur, hdata]
  omega

theorem runTick_punctual {x : τ} (hw : OffsetsOk cfg w) (h : Punctual cfg w x)
    (hrun : runTick cfg w = some (due, w')) : Punctual cfg w' x := by
  obtain ⟨w₁, htick, hw₁, hcases⟩ := runTick_cases hw hrun
  have h₁ := lowest_punctual h hw htick
  rcases hcases with ⟨-, rfl⟩ | ⟨-, huniform⟩
  · exact h₁
  · refine (tryUniformFrom_invariant (k := 1)
      (I := fun u => OffsetsOk cfg u ∧ Punctual cfg u x) ?_ (le_refl 1) ⟨hw₁, h₁⟩ huniform).2
    rintro u i l u₁ u₂ hi ⟨hu, hpunctual⟩ hrun₁ hall
    obtain ⟨-, -, -, hu₂, -⟩ := level_parts hu hrun₁ hall
    exact ⟨hu₂, level_punctual hi hu hpunctual hrun₁ hall⟩

/-- **A timer is late only where level 0 starts over.** It is still in the wheel after its trigger
tick only if it was above level 0 until then. -/
theorem late_only_at_end {x : τ} (hclock : Clocked cfg w) (h : Punctual cfg w x)
    (harmed : Armed cfg w x t) (hrun : runTick cfg w = some (due, w')) (hstill : Armed cfg w' x t)
    (hcur : w'.currentTick = t) : cfg.maxTick 0 ∣ t := by
  obtain ⟨hclock', hnext⟩ := runTick_clocked hclock hrun
  have hzero : w'.offset 0 = 0 := by
    by_contra hne
    obtain ⟨w₁, htick, hw₁, hcases⟩ := runTick_cases hclock.offsetsOk hrun
    have hw' : w' = w₁ := by
      rcases hcases with ⟨-, hw'⟩ | ⟨hend, huniform⟩
      · exact hw'
      · have h₁ : Clocked cfg w₁ := by
          refine ⟨hw₁, ?_⟩
          rw [htick.offset_self, htick.currentTick_eq]
          show (w.offset 0 + 1) % cfg.maxTick 0 = (w.currentTick + 1) % cfg.maxTick 0
          rw [hclock.lowest, Nat.mod_add_mod]
        obtain ⟨-, -, hoff⟩ := tryUniformFrom_clocked h₁ huniform
        exact absurd (hoff.trans hend) hne
    subst hw'
    -- it is on level 0 now, and nothing has come down
    obtain ⟨-, i, q, hat, htime⟩ := hstill
    have hi : i = 0 := by
      by_contra hi
      have hlow := hclock'.offsetsOk.lowValue_lt i
      have hone : cfg.levelOffsetTick i ≤ (q + 1) * cfg.levelOffsetTick i :=
        Nat.le_mul_of_pos_left _ (by omega)
      rw [OnTime, if_neg hi] at htime
      omega
    subst hi
    have hmem : x ∈ w'.tickDatas 0 ((w'.offset 0 + q) % cfg.maxTick 0) := by
      apply List.count_pos_iff.1
      rw [hat.count_eq, if_pos ⟨rfl, rfl⟩]
      exact Nat.one_pos
    obtain ⟨hlast, hmem'⟩ := lowest_slot hclock.offsetsOk htick hat.step_lt hmem
    have hold := h (q + 1) hlast hmem'
    have htrig := harmed.1
    omega
  rw [hclock'.lowest, hcur] at hzero
  exact Nat.dvd_of_mod_eq_zero hzero

/-! ## Level 1

The ticks at which the slots of level 1 are given out are the turns of level 0 (`handsDown`). -/

/-- The tick at which `try_uniform` gives out the slot `q` steps ahead on level 1. -/
def handsDown (cfg : LevelConfig) (w : TimerWheel τ) (q : Nat) : Nat :=
  (w.currentTick / cfg.maxTick 0 + 1 + q) * cfg.maxTick 0

/-- **When the timer leaves the wheel**, if it is on one of the two lowest levels: at tick `T`. From
a slot of level 1 that is given out before its trigger tick `t` it leaves at `t`. -/
structure Exits (cfg : LevelConfig) (w : TimerWheel τ) (x : τ) (t T : Nat) : Prop where
  trigger : (w.data x).triggerTick = t
  place : (∃ q, At cfg w x 0 q ∧ w.currentTick + q + 1 = T) ∨
    ∃ q, At cfg w x 1 q ∧
      (handsDown cfg w q < t ∧ t < handsDown cfg w q + 2 * cfg.maxTick 0 ∧ T = t ∨
        handsDown cfg w q = t ∧ T = t + 1)

theorem levelOffsetTick_one : cfg.levelOffsetTick 1 = cfg.maxTick 0 := by
  rw [cfg.levelOffsetTick_succ, cfg.levelOffsetTick_zero, Nat.one_mul]

/-- `add_timer` takes the lowest level where that reaches far enough. -/
theorem addTimer_lowest {x : τ} {d : Nat} (hd : max 1 ((w.data x).triggerTick - w.currentTick) = d)
    (hle : d ≤ cfg.maxTick 0) : addTimer cfg w x = levelAddTimer cfg w 0 x (d - 1) := by
  have hoffset : (if (w.data x).triggerTick - w.currentTick = 0 then 1
      else (w.data x).triggerTick - w.currentTick) = d := by
    split <;> omega
  obtain ⟨n, hn⟩ : ∃ n, cfg.timerLevelCount - 1 = n + 1 :=
    ⟨cfg.timerLevelCount - 2, by have := cfg.two_lt_timerLevelCount; omega⟩
  simp only [addTimer, hoffset, hn, addTimerFrom, cfg.levelOffsetTick_zero, Nat.div_one]
  rw [if_neg (by omega), if_neg (by omega)]

/-- Else it takes level 1, where that does. -/
theorem addTimer_next {x : τ} {d : Nat} (hd : max 1 ((w.data x).triggerTick - w.currentTick) = d)
    (hlt : cfg.maxTick 0 < d) (hle : d / cfg.maxTick 0 - 1 < cfg.maxTick 1) :
    addTimer cfg w x = levelAddTimer cfg w 1 x (d / cfg.maxTick 0 - 1) := by
  have hoffset : (if (w.data x).triggerTick - w.currentTick = 0 then 1
      else (w.data x).triggerTick - w.currentTick) = d := by
    split <;> omega
  obtain ⟨n, hn⟩ : ∃ n, cfg.timerLevelCount - 1 = n + 2 :=
    ⟨cfg.timerLevelCount - 3, by have := cfg.two_lt_timerLevelCount; omega⟩
  have hdiv : 1 ≤ d / cfg.maxTick 0 := (Nat.one_le_div_iff (cfg.maxTick_pos 0)).2 hlt.le
  simp only [addTimer, hoffset, hn, addTimerFrom, cfg.levelOffsetTick_zero, levelOffsetTick_one,
    Nat.div_one, Nat.zero_add]
  rw [if_neg (by omega), if_pos (by omega), if_neg (by omega), if_neg (by omega)]

/-- What `add_timer` makes of a timer `d` ticks ahead, if `d` is less than the two lowest levels
reach: the tick at which it leaves is `d` ahead, or one more where both are whole turns of level 0.
-/
theorem addTimer_exits {x : τ} (hw : OffsetsOk cfg w) (hout : Absent w x)
    (hlt : w.currentTick < (w.data x).triggerTick)
    (hnear : (w.data x).triggerTick - w.currentTick < cfg.maxTick 0 * (cfg.maxTick 1 + 1))
    (hadd : addTimer cfg w x = some w') :
    Exits cfg w' x (w.data x).triggerTick
      (if cfg.maxTick 0 < (w.data x).triggerTick - w.currentTick ∧ cfg.maxTick 0 ∣ w.currentTick ∧
        cfg.maxTick 0 ∣ (w.data x).triggerTick - w.currentTick then (w.data x).triggerTick + 1
      else (w.data x).triggerTick) := by
  have hcount := cfg.two_lt_timerLevelCount
  have hpos := cfg.maxTick_pos 0
  -- level 0 takes the timer if it is at most one turn ahead, and level 1 else
  obtain ⟨d, hd⟩ : ∃ d, (w.data x).triggerTick = w.currentTick + d :=
    ⟨_, (Nat.add_sub_cancel' hlt.le).symm⟩
  have hahead : (w.data x).triggerTick - w.currentTick = d := by omega
  have hmax : max 1 ((w.data x).triggerTick - w.currentTick) = d := by omega
  rw [hahead] at hnear ⊢
  by_cases hlow : d ≤ cfg.maxTick 0
  · rw [addTimer_lowest hmax hlow] at hadd
    obtain ⟨w₁, hadd', hplaced⟩ := levelAddTimer_placed hw x
      (show d - 1 < cfg.maxTick 0 by omega)
    obtain rfl := Option.some.inj (hadd.symm.trans hadd')
    refine ⟨hplaced.clock.triggerTick_eq x, Or.inl ⟨d - 1, hplaced.at_of_absent hout
      (by omega) (by omega), ?_⟩⟩
    rw [hplaced.clock.currentTick_eq, if_neg (by omega)]
    omega
  · have hslots : d / cfg.maxTick 0 - 1 < cfg.maxTick 1 := by
      have hdiv : d / cfg.maxTick 0 < cfg.maxTick 1 + 1 := Nat.div_lt_of_lt_mul hnear
      have hm := cfg.maxTick_pos 1
      omega
    rw [addTimer_next hmax (by omega) hslots] at hadd
    obtain ⟨w₁, hadd', hplaced⟩ := levelAddTimer_placed hw x hslots
    obtain rfl := Option.some.inj (hadd.symm.trans hadd')
    refine ⟨hplaced.clock.triggerTick_eq x, Or.inr ⟨d / cfg.maxTick 0 - 1,
      hplaced.at_of_absent hout (by omega) hslots, ?_⟩⟩
    -- with `c = a * m + b` and `d = a' * m + b'` the slot is given out at `(a + a') * m`
    have hdown : handsDown cfg w' (d / cfg.maxTick 0 - 1) =
        cfg.maxTick 0 * (w.currentTick / cfg.maxTick 0) + cfg.maxTick 0 * (d / cfg.maxTick 0) := by
      have hone : 1 ≤ d / cfg.maxTick 0 := (Nat.one_le_div_iff hpos).2 (by omega)
      rw [handsDown, hplaced.clock.currentTick_eq, ← Nat.mul_add, Nat.mul_comm]
      congr 1
      omega
    have hcur := Nat.div_add_mod w.currentTick (cfg.maxTick 0)
    have hdd := Nat.div_add_mod d (cfg.maxTick 0)
    have hcurlt := Nat.mod_lt w.currentTick hpos
    have hdlt := Nat.mod_lt d hpos
    rw [hdown]
    split
    · rename_i hwhole
      have hc := Nat.mod_eq_zero_of_dvd hwhole.2.1
      have hd' := Nat.mod_eq_zero_of_dvd hwhole.2.2
      exact Or.inr ⟨by omega, rfl⟩
    · rename_i hnot
      have hsome : 0 < w.currentTick % cfg.maxTick 0 + d % cfg.maxTick 0 := by
        by_contra hzero
        exact hnot ⟨by omega, Nat.dvd_of_mod_eq_zero (by omega), Nat.dvd_of_mod_eq_zero (by omega)⟩
      exact Or.inl ⟨by omega, by omega, rfl⟩

/-- At its trigger tick a timer can only be put into the next slot of level 0. -/
theorem addTimer_reached {x : τ} (hw : OffsetsOk cfg w) (hout : Absent w x)
    (hcur : w.currentTick = (w.data x).triggerTick) (hadd : addTimer cfg w x = some w') :
    Exits cfg w' x (w.data x).triggerTick ((w.data x).triggerTick + 1) := by
  have hcount := cfg.two_lt_timerLevelCount
  have hpos := cfg.maxTick_pos 0
  have hmax : max 1 ((w.data x).triggerTick - w.currentTick) = 1 := by omega
  rw [addTimer_lowest hmax hpos] at hadd
  obtain ⟨w₁, hadd', hplaced⟩ := levelAddTimer_placed hw x (show 1 - 1 < cfg.maxTick 0 by omega)
  obtain rfl := Option.some.inj (hadd.symm.trans hadd')
  refine ⟨hplaced.clock.triggerTick_eq x, Or.inl ⟨0, hplaced.at_of_absent hout
    (by omega) (by omega), ?_⟩⟩
  rw [hplaced.clock.currentTick_eq, hcur]

/-- Operations that keep the clock, the trigger tick and the slots of the timer keep its exit. -/
theorem Exits.congr {x : τ} (h : Exits cfg w x t T) (hcur : w'.currentTick = w.currentTick)
    (hoff : w'.offset = w.offset) (htrig : (w'.data x).triggerTick = (w.data x).triggerTick)
    (hcount : ∀ i j, (w'.tickDatas i j).count x = (w.tickDatas i j).count x) :
    Exits cfg w' x t T := by
  refine ⟨htrig.trans h.trigger, ?_⟩
  rcases h.place with ⟨q, hat, hT⟩ | ⟨q, hat, hT⟩
  · refine Or.inl ⟨q, hat.congr (by rw [hoff]) hcount, ?_⟩
    rw [hcur]
    exact hT
  · refine Or.inr ⟨q, hat.congr (by rw [hoff]) hcount, ?_⟩
    rw [handsDown, hcur]
    exact hT

/-- Of a list that is given out only the timer itself decides where it goes. -/
theorem addAll_exits {x : τ} : ∀ {w w' : TimerWheel τ}, OffsetsOk cfg w →
    l.count x = 1 → Absent w x →
    (∀ u u', OffsetsOk cfg u → SameClock w u → Absent u x → addTimer cfg u x = some u' →
      Exits cfg u' x t T) →
    addAll cfg w l = some w' → Exits cfg w' x t T := by
  induction l with
  | nil =>
    intro w w' _ hcount
    exact absurd hcount (by simp)
  | cons y l ih =>
    intro w w' hw hcount hout hplace hall
    simp only [addAll, Option.bind_eq_some_iff] at hall
    obtain ⟨w₁, hadd, hrest⟩ := hall
    obtain ⟨w₁', i, q, hadd', -, -, hplaced, -⟩ := addTimer_placed hw y
    obtain rfl := Option.some.inj (hadd.symm.trans hadd')
    have hw₁ := hw.congr hplaced.clock
    -- it is the timer's turn: the ones after it do not move it
    by_cases hxy : x = y
    · subst hxy
      rw [List.count_cons_self] at hcount
      have hnot : x ∉ l := List.count_eq_zero.1 (by omega)
      have hexits := hplace w w₁ hw (SameClock.refl w) hout hadd
      obtain ⟨w₂, hall₂, hclock, hsame⟩ := addAll_clock l hw₁
      obtain rfl := Option.some.inj (hrest.symm.trans hall₂)
      exact hexits.congr hclock.currentTick_eq hclock.offset_eq (hclock.triggerTick_eq x)
        (hsame x hnot)
    · rw [List.count_cons_of_ne (Ne.symm hxy)] at hcount
      refine ih hw₁ hcount ?_ (fun u u' hu hclock hout' hadd' =>
        hplace u u' hu (hplaced.clock.trans hclock) hout' hadd') hrest
      intro i' j'
      rw [hplaced.count_of_ne hxy]
      exact hout i' j'

/-- `try_uniform` leaves the levels below the first that it ticks as they are. -/
theorem tryUniformFrom_at {x : τ} {left j k : Nat} (hw : OffsetsOk cfg w) (hjk : j < k)
    (hat : At cfg w x j q) (huniform : tryUniformFrom cfg left k w = some w') :
    At cfg w' x j q ∧ w'.currentTick = w.currentTick ∧
      (w'.data x).triggerTick = (w.data x).triggerTick := by
  refine (tryUniformFrom_invariant (k := k)
    (I := fun u => OffsetsOk cfg u ∧ At cfg u x j q ∧ u.currentTick = w.currentTick ∧
      (u.data x).triggerTick = (w.data x).triggerTick)
    ?_ (le_refl k) ⟨hw, hat, rfl, rfl⟩ huniform).2
  rintro u i l u₁ u₂ hi ⟨hu, hatu, hcur, htrig⟩ hrun hall
  obtain ⟨htick, -, hclock, hu₂, hsame⟩ := level_parts hu hrun hall
  have hij : j ≠ i := by omega
  refine ⟨hu₂, (htick.at_of_ne hatu hij).congr (by rw [hclock.offset_eq])
    (hsame x (htick.not_mem_of_ne hatu hij)), ?_, ?_⟩
  · rw [hclock.currentTick_eq, htick.currentTick_eq, hcur]
  · rw [hclock.triggerTick_eq, htick.data_eq, htrig]

/-- Where the timer is on level 0 or 1 the levels above leave it alone. -/
theorem tryUniformFrom_exits {x : τ} {left : Nat} (hw : OffsetsOk cfg w) (h : Exits cfg w x t T)
    (huniform : tryUniformFrom cfg left 2 w = some w') : Exits cfg w' x t T := by
  rcases h.place with ⟨q, hat, hT⟩ | ⟨q, hat, hT⟩
  · obtain ⟨hat', hcur, htrig⟩ := tryUniformFrom_at hw (by omega) hat huniform
    refine ⟨htrig.trans h.trigger, Or.inl ⟨q, hat', ?_⟩⟩
    rw [hcur]
    exact hT
  · obtain ⟨hat', hcur, htrig⟩ := tryUniformFrom_at hw (by omega) hat huniform
    refine ⟨htrig.trans h.trigger, Or.inr ⟨q, hat', ?_⟩⟩
    rw [handsDown, hcur]
    exact hT

/-- A slot of level 1 is given out, less than two turns of level 0 ahead of the trigger tick, or at
that tick. -/
theorem handedDown_exits {x : τ} (hw : OffsetsOk cfg w) (hmem : l.count x = 1) (hout : Absent w x)
    (htrig : (w.data x).triggerTick = t)
    (hT : w.currentTick < t ∧ t < w.currentTick + 2 * cfg.maxTick 0 ∧ T = t ∨
      w.currentTick = t ∧ T = t + 1) (hall : addAll cfg w l = some w') : Exits cfg w' x t T := by
  refine addAll_exits hw hmem hout (fun u u' hu hclock houtu hadd => ?_) hall
  have hcuru : u.currentTick = w.currentTick := hclock.currentTick_eq
  have htrigu : (u.data x).triggerTick = t := (hclock.triggerTick_eq x).trans htrig
  rcases hT with ⟨hlt, hnear, rfl⟩ | ⟨heq, rfl⟩
  · have hreach : (u.data x).triggerTick - u.currentTick <
        cfg.maxTick 0 * (cfg.maxTick 1 + 1) := by
      have hone := cfg.maxTick_pos 1
      have hmul : cfg.maxTick 0 * 2 ≤ cfg.maxTick 0 * (cfg.maxTick 1 + 1) :=
        Nat.mul_le_mul_left _ (by omega)
      omega
    have hexits := addTimer_exits hu houtu (by omega) hreach hadd
    rw [if_neg, htrigu] at hexits
    · exact hexits
    · -- what is left is no whole number of turns: it is more than one and less than two
      rintro ⟨hfar, -, k, hk⟩
      have hk1 : 1 < k := by
        by_contra hle
        have hmul : cfg.maxTick 0 * k ≤ cfg.maxTick 0 * 1 := Nat.mul_le_mul_left _ (by omega)
        omega
      have hmul : cfg.maxTick 0 * 2 ≤ cfg.maxTick 0 * k := Nat.mul_le_mul_left _ hk1
      omega
  · have hexits := addTimer_reached hu houtu (by omega) hadd
    rw [htrigu] at hexits
    exact hexits

/-- `try_uniform`, for a timer on level 1. -/
theorem tryUniform_exits {x : τ} (hw : OffsetsOk cfg w) (hend : w.offset 0 = 0)
    (hdvd : cfg.maxTick 0 ∣ w.currentTick) (htrig : (w.data x).triggerTick = t)
    (hat : At cfg w x 1 q) (hT : w.currentTick + q * cfg.maxTick 0 < t ∧
        t < w.currentTick + q * cfg.maxTick 0 + 2 * cfg.maxTick 0 ∧ T = t ∨
      w.currentTick + q * cfg.maxTick 0 = t ∧ T = t + 1) (huniform : tryUniform cfg w = some w') :
    Exits cfg w' x t T := by
  obtain ⟨n, hn⟩ : ∃ n, cfg.timerLevelCount - 1 = n + 1 :=
    ⟨cfg.timerLevelCount - 2, by have := cfg.two_lt_timerLevelCount; omega⟩
  simp only [tryUniform, hn, tryUniformFrom, isLevelEnd, hend, beq_self_eq_true, if_true,
    Option.bind_eq_some_iff, Prod.exists, Nat.sub_self] at huniform
  obtain ⟨l, w₁, hrun, w₂, hall, hrest⟩ := huniform
  obtain ⟨htick, hw₁, hclock, hw₂, hcounts⟩ := level_parts hw hrun hall
  have htrig₁ : (w₁.data x).triggerTick = t := by rw [htick.data_eq, htrig]
  apply tryUniformFrom_exits hw₂ _ hrest
  -- either this is the timer's slot, or the slot has come one step nearer
  cases q with
  | zero =>
    obtain ⟨hmem, hout⟩ := htick.mem_of_zero hw hat
    rw [Nat.zero_mul, Nat.add_zero, ← htick.currentTick_eq] at hT
    exact handedDown_exits hw₁ hmem hout htrig₁ hT hall
  | succ q =>
    obtain ⟨hnot, hat₁⟩ := htick.at_pred hw hat
    refine ⟨(hclock.triggerTick_eq x).trans htrig₁, Or.inr ⟨q,
      hat₁.congr (by rw [hclock.offset_eq]) (hcounts x hnot), ?_⟩⟩
    have hdown : handsDown cfg w₂ q = w.currentTick + (q + 1) * cfg.maxTick 0 := by
      rw [handsDown, hclock.currentTick_eq, htick.currentTick_eq, Nat.add_assoc, Nat.add_mul,
        Nat.div_mul_cancel hdvd, Nat.add_comm 1 q]
    rw [hdown]
    exact hT

/-- **What a tick makes of an exit**: the timer is handed out at that tick, and not before. -/
theorem runTick_exits {x : τ} (hclock : Clocked cfg w) (h : Exits cfg w x t T)
    (hrun : runTick cfg w = some (due, w')) :
    (x ∈ due → w'.currentTick = T) ∧ (x ∉ due → Exits cfg w' x t T) := by
  obtain ⟨hclock', hnext⟩ := runTick_clocked hclock hrun
  obtain ⟨w₁, htick, hw₁, hcases⟩ := runTick_cases hclock.offsetsOk hrun
  have hcur₁ : w₁.currentTick = w.currentTick + 1 := htick.currentTick_eq
  have htrig₁ : (w₁.data x).triggerTick = t := by
    rw [htick.data_eq]
    exact h.trigger
  have hwc : OffsetsOk cfg { w with currentTick := w.currentTick + 1 } := hclock.offsetsOk
  have hpos := cfg.maxTick_pos 0
  have hlowest₁ : w₁.offset 0 = (w.currentTick + 1) % cfg.maxTick 0 := by
    rw [htick.offset_self]
    show (w.offset 0 + 1) % cfg.maxTick 0 = _
    rw [hclock.lowest, Nat.mod_add_mod]
  rcases h.place with ⟨q, hat, hT⟩ | ⟨q, hat, hT⟩
  · have hatc : At cfg { w with currentTick := w.currentTick + 1 } x 0 q :=
      ⟨hat.level_lt, hat.step_lt, hat.count_eq⟩
    cases q with
    | zero =>
      obtain ⟨hmem, -⟩ := htick.mem_of_zero hwc hatc
      refine ⟨fun _ => by omega, fun hnot => ?_⟩
      rw [List.count_eq_zero.2 hnot] at hmem
      cases hmem
    | succ q =>
      obtain ⟨hnot, hat₁⟩ := htick.at_pred hwc hatc
      refine ⟨fun hmem => absurd hmem hnot, fun _ => ?_⟩
      rcases hcases with ⟨-, rfl⟩ | ⟨-, huniform⟩
      · exact ⟨htrig₁, Or.inl ⟨q, hat₁, by omega⟩⟩
      · obtain ⟨hat', hcur', htrig'⟩ := tryUniformFrom_at hw₁ Nat.zero_lt_one hat₁ huniform
        exact ⟨htrig'.trans htrig₁, Or.inl ⟨q, hat', by omega⟩⟩
  · have hatc : At cfg { w with currentTick := w.currentTick + 1 } x 1 q :=
      ⟨hat.level_lt, hat.step_lt, hat.count_eq⟩
    have hnot := htick.not_mem_of_ne hatc Nat.one_ne_zero
    have hat₁ := htick.at_of_ne hatc Nat.one_ne_zero
    refine ⟨fun hmem => absurd hmem hnot, fun _ => ?_⟩
    have hdiv : (w.currentTick + 1) / cfg.maxTick 0 =
        w.currentTick / cfg.maxTick 0 + if cfg.maxTick 0 ∣ w.currentTick + 1 then 1 else 0 :=
      Nat.succ_div
    rcases hcases with ⟨hend, rfl⟩ | ⟨hend, huniform⟩
    · -- level 0 has not come to its end
      have hndvd : ¬ cfg.maxTick 0 ∣ w.currentTick + 1 := fun hdvd =>
        hend (hlowest₁.trans (Nat.mod_eq_zero_of_dvd hdvd))
      rw [if_neg hndvd, Nat.add_zero] at hdiv
      refine ⟨htrig₁, Or.inr ⟨q, hat₁, ?_⟩⟩
      rw [handsDown, hcur₁, hdiv]
      exact hT
    · have hdvd : cfg.maxTick 0 ∣ w.currentTick + 1 :=
        Nat.dvd_of_mod_eq_zero (hlowest₁.symm.trans hend)
      rw [if_pos hdvd] at hdiv
      have hdown : handsDown cfg w q = w₁.currentTick + q * cfg.maxTick 0 := by
        rw [handsDown, ← hdiv, Nat.add_mul, Nat.div_mul_cancel hdvd, hcur₁]
      rw [hdown] at hT
      exact tryUniform_exits hw₁ hend (hcur₁ ▸ hdvd) htrig₁ hat₁ hT huniform

/-! ## One period -/

/-- **Where the firing after one at tick `F` comes**, for a period of `p` ticks: at its trigger tick
or one later. It is late only at a turn of level 0, and for periods within the two lowest levels
exactly where `F` and `p` both are whole turns, of which the level itself does not take the first.
-/
structure NextFiring (cfg : LevelConfig) (p F F' : Nat) : Prop where
  bounds : F' = F + p ∨ F' = F + p + 1
  exact : ¬ cfg.maxTick 0 ∣ F + p → F' = F + p
  near : p < cfg.maxTick 0 * (cfg.maxTick 1 + 1) →
    (F' = F + p + 1 ↔ cfg.maxTick 0 < p ∧ cfg.maxTick 0 ∣ F ∧ cfg.maxTick 0 ∣ p)

/-- The timer was armed at tick `F`, `p` ticks ahead, and waits. -/
structure Waiting (cfg : LevelConfig) (w : TimerWheel τ) (x : τ) (F p : Nat) : Prop where
  armed : Armed cfg w x (F + p)
  punctual : Punctual cfg w x
  reached : w.currentTick = F + p → cfg.maxTick 0 ∣ F + p
  exits : p < cfg.maxTick 0 * (cfg.maxTick 1 + 1) → Exits cfg w x (F + p)
    (if cfg.maxTick 0 < p ∧ cfg.maxTick 0 ∣ F ∧ cfg.maxTick 0 ∣ p then F + p + 1 else F + p)

theorem armTimer_waiting {x : τ} {ms : Int} (hw : Clocked cfg w) (hout : Absent w x)
    (harm : armTimer cfg w x ms p = some w') :
    Clocked cfg w' ∧ w'.currentTick = w.currentTick ∧ Waiting cfg w' x w.currentTick p := by
  obtain ⟨hms, hp⟩ := armTimer_positive harm
  obtain ⟨w₁, harm', hw', hcur, harmed⟩ := armTimer_armed hw.offsetsOk hout hms hp
  obtain rfl := Option.some.inj (harm.symm.trans harm')
  obtain ⟨w₁, harm', -, hoff, -⟩ := armTimer_frame hw.offsetsOk x hms hp
  obtain rfl := Option.some.inj (harm.symm.trans harm')
  have hadd : addTimer cfg (w.initData x ms p) x = some w' := by
    rw [armTimer, if_pos ⟨hms, hp⟩] at harm
    exact harm
  have htrig : ((w.initData x ms p).data x).triggerTick = w.currentTick + p := by
    rw [initData_triggerTick, if_pos rfl]
  have hout' : Absent (w.initData x ms p) x := hout
  have hok' : OffsetsOk cfg (w.initData x ms p) := hw.offsetsOk
  refine ⟨⟨hw', by rw [hoff, hcur, hw.lowest]⟩, hcur, harmed, ?_, fun heq => by omega, ?_⟩
  · refine addTimer_punctual hok' (fun q _ hmem => ?_) hadd
    exact absurd hmem (List.count_eq_zero.1 (hout' 0 _))
  · intro hnear
    have hahead : (w.currentTick + p) - (w.initData x ms p).currentTick = p := by
      show w.currentTick + p - w.currentTick = p
      omega
    have hexits := addTimer_exits hok' hout' (by rw [htrig]; exact Nat.lt_add_of_pos_right hp)
      (by rw [htrig, hahead]; exact hnear) hadd
    rw [htrig, hahead] at hexits
    exact hexits

/-- Operations on other timers leave it waiting. -/
theorem Waiting.congr {x : τ} {F : Nat} (h : Waiting cfg w x F p)
    (hcur : w'.currentTick = w.currentTick) (hoff : w'.offset = w.offset)
    (htrig : (w'.data x).triggerTick = (w.data x).triggerTick)
    (hcount : ∀ i j, (w'.tickDatas i j).count x = (w.tickDatas i j).count x) :
    Waiting cfg w' x F p where
  armed := h.armed.congr hcur hoff htrig hcount
  punctual q hq hmem := by
    rw [hoff] at hmem
    have hold : x ∈ w.tickDatas 0 ((w.offset 0 + q) % cfg.maxTick 0) := by
      apply List.count_pos_iff.1
      rw [← hcount]
      exact List.count_pos_iff.2 hmem
    rw [hcur, htrig]
    exact h.punctual q hq hold
  reached heq := h.reached (hcur.symm.trans heq)
  exits hnear := (h.exits hnear).congr hcur hoff htrig hcount

/-- **A tick**: the timer waits on, or it is handed out where the next firing is to be. -/
theorem Waiting.ticked {x : τ} {F : Nat} (h : Waiting cfg w x F p) (hclock : Clocked cfg w)
    (hrun : runTick cfg w = some (due, w')) :
    x ∉ due ∧ Waiting cfg w' x F p ∨
      due.count x = 1 ∧ Absent w' x ∧ NextFiring cfg p F w'.currentTick := by
  obtain ⟨due', w₁, hrun', -, hcur, -, hspec⟩ := runTick_spec hclock.offsetsOk
  obtain ⟨rfl, rfl⟩ := Prod.mk.inj (Option.some.inj (hrun.symm.trans hrun'))
  rcases (hspec x).2 (F + p) h.armed with ⟨hnot, harmed⟩ | ⟨hmem, hout, hbounds⟩
  · refine Or.inl ⟨hnot, harmed, runTick_punctual hclock.offsetsOk h.punctual hrun, ?_, ?_⟩
    · intro heq
      exact late_only_at_end hclock h.punctual h.armed hrun harmed heq
    · intro hnear
      exact (runTick_exits hclock (h.exits hnear) hrun).2 hnot
  · refine Or.inr ⟨hmem, hout, hbounds.imp id id, ?_, ?_⟩
    · intro hndvd
      rcases hbounds with heq | hlate
      · exact heq
      · exact absurd (h.reached (by omega)) hndvd
    · intro hnear
      have hin : x ∈ due := List.count_pos_iff.1 (by omega)
      have hexact := (runTick_exits hclock (h.exits hnear) hrun).1 hin
      rw [hexact]
      split
      · rename_i hwhole
        exact iff_of_true rfl hwhole
      · rename_i hnot
        exact iff_of_false (by omega) hnot

/-! ## The firings of a run -/

/-- The event starts the callback of `x`. -/
def fires (x : τ) (s : Manager τ) : ManagerEvent τ → Bool
  | .callback => s.running.isNone && s.due.head? == some x
  | _ => false

/-- The ticks at which the callback of `x` starts. -/
def firings (cfg : LevelConfig) (tick : TickLength) (x : τ) :
    Manager τ → List (ManagerEvent τ) → List Nat
  | _, [] => []
  | s, e :: events =>
      match managerStep cfg tick s e with
      | none => []
      | some s' =>
          if fires x s e then s.wheel.currentTick :: firings cfg tick x s' events
          else firings cfg tick x s' events

/-- Nobody adds or removes `x`, and its callback answers `RESET_TIMER`. -/
def Keeps (x : τ) (s : Manager τ) : ManagerEvent τ → Prop
  | .addTimer y _ | .removeTimer y => y ≠ x
  | .threw => s.running ≠ some x
  | .returned reset => s.running = some x → reset = true
  | _ => True

/-- Between two firings: the timer waits, is due, or has its callback running. -/
structure Cycling (cfg : LevelConfig) (tick : TickLength) (x : τ) (ms : Int) (last : Nat)
    (s : Manager τ) : Prop where
  clocked : Clocked cfg s.wheel
  period : (s.wheel.data x).offsetMilliseconds = ms
  place : (x ∉ s.due ∧ s.running ≠ some x ∧
      Waiting cfg s.wheel x last (milling2tick tick ms)) ∨
    (s.due.count x = 1 ∧ s.running ≠ some x ∧ Absent s.wheel x ∧
      NextFiring cfg (milling2tick tick ms) last s.wheel.currentTick) ∨
    (x ∉ s.due ∧ s.running = some x ∧ Absent s.wheel x ∧ s.wheel.currentTick = last)

variable {x : τ} {ms : Int} {last : Nat} {s s' : Manager τ}

/-- A step that is about other timers, and gives the wheel `w`. -/
theorem Cycling.frame {running : Option τ} (h : Cycling cfg tick x ms last s)
    (hcur : w.currentTick = s.wheel.currentTick) (hoff : w.offset = s.wheel.offset)
    (hperiod : (w.data x).offsetMilliseconds = (s.wheel.data x).offsetMilliseconds)
    (htrig : (w.data x).triggerTick = (s.wheel.data x).triggerTick)
    (hcount : ∀ i j, (w.tickDatas i j).count x = (s.wheel.tickDatas i j).count x)
    (hrunning : running = some x ↔ s.running = some x) :
    Cycling cfg tick x ms last { s with wheel := w, running := running } := by
  have habsent : Absent s.wheel x → Absent w x := by
    intro hout i j
    rw [hcount]
    exact hout i j
  refine ⟨⟨?_, ?_⟩, hperiod.trans h.period, ?_⟩
  · intro i
    rw [hoff]
    exact h.clocked.offsetsOk i
  · rw [hoff, hcur]
    exact h.clocked.lowest
  · rcases h.place with ⟨hdue, hrun, hwait⟩ | ⟨hdue, hrun, hout, hnext⟩ | ⟨hdue, hrun, hout, hlast⟩
    · exact Or.inl ⟨hdue, fun heq => hrun (hrunning.1 heq), hwait.congr hcur hoff htrig hcount⟩
    · refine Or.inr (Or.inl ⟨hdue, fun heq => hrun (hrunning.1 heq), habsent hout, ?_⟩)
      show NextFiring cfg _ _ w.currentTick
      rw [hcur]
      exact hnext
    · exact Or.inr (Or.inr ⟨hdue, hrunning.2 hrun, habsent hout, hcur.trans hlast⟩)

/-- Another timer is armed. -/
theorem Cycling.armTimer {y : τ} {k : Nat} {ms' : Int} {running : Option τ}
    (h : Cycling cfg tick x ms last s) (hne : y ≠ x)
    (harm : Timer.armTimer cfg s.wheel y ms' k = some w)
    (hrunning : running = some x ↔ s.running = some x) :
    Cycling cfg tick x ms last { s with wheel := w, running := running } := by
  obtain ⟨hms, hk⟩ := armTimer_positive harm
  obtain ⟨w', harm', hcur, hoff, hframe⟩ := armTimer_frame h.clocked.offsetsOk y hms hk
  obtain rfl := Option.some.inj (harm.symm.trans harm')
  obtain ⟨htrig, hcount⟩ := hframe x (Ne.symm hne)
  refine h.frame hcur hoff ?_ htrig hcount hrunning
  rw [armTimer_period harm x, if_neg (Ne.symm hne)]

/-- The callback of the timer returns, and the timer is armed for its next period. -/
theorem Cycling.renewed (h : Cycling cfg tick x ms last s) (hx : s.running = some x)
    (hrenew : renew cfg tick s.wheel x = some w) :
    Cycling cfg tick x ms last { s with wheel := w, running := none } := by
  rcases h.place with ⟨-, hne, -⟩ | ⟨-, hne, -⟩ | ⟨hdue, -, hout, hlast⟩
  · exact absurd hx hne
  · exact absurd hx hne
  · rw [renew, h.period] at hrenew
    obtain ⟨hclock, -, hwait⟩ := armTimer_waiting h.clocked hout hrenew
    rw [hlast] at hwait
    refine ⟨hclock, ?_, Or.inl ⟨hdue, (fun h => by cases h), hwait⟩⟩
    show (w.data x).offsetMilliseconds = ms
    rw [armTimer_period hrenew x, if_pos rfl]

/-- **One step.** Where the callback starts it does so at a tick where the next firing may be. -/
theorem managerStep_cycling {e : ManagerEvent τ} (h : Cycling cfg tick x ms last s)
    (hkeep : Keeps x s e) (hstep : managerStep cfg tick s e = some s') :
    (fires x s e = true ∧ NextFiring cfg (milling2tick tick ms) last s.wheel.currentTick ∧
        Cycling cfg tick x ms s.wheel.currentTick s') ∨
      (fires x s e = false ∧ Cycling cfg tick x ms last s') := by
  cases e with
  | elapse us =>
    obtain rfl := Option.some.inj hstep
    exact Or.inr ⟨rfl, h.clocked, h.period, h.place⟩
  | update =>
    obtain ⟨_, rfl⟩ := of_guard hstep
    exact Or.inr ⟨rfl, h.clocked, h.period, h.place⟩
  | tick =>
    obtain ⟨hready, hstep⟩ := Option.ite_none_right_eq_some.1 hstep
    obtain ⟨⟨due, w⟩, hrun, rfl⟩ := Option.map_eq_some_iff.1 hstep
    obtain ⟨hdue, hidle, -⟩ := hready
    obtain ⟨hclock, -⟩ := runTick_clocked h.clocked hrun
    have hperiod : (w.data x).offsetMilliseconds = ms := (runTick_period hrun x).trans h.period
    have hrunning : s.running ≠ some x := by
      rw [hidle]
      intro h
      cases h
    -- nothing is due before a tick
    rcases h.place with ⟨-, -, hwait⟩ | ⟨hcount, -⟩ | ⟨-, hx, -⟩
    · rcases hwait.ticked h.clocked hrun with ⟨hnot, hwait'⟩ | ⟨hmem, hout, hnext⟩
      · exact Or.inr ⟨rfl, hclock, hperiod, Or.inl ⟨hnot, hrunning, hwait'⟩⟩
      · exact Or.inr ⟨rfl, hclock, hperiod, Or.inr (Or.inl ⟨hmem, hrunning, hout, hnext⟩)⟩
    · rw [hdue] at hcount
      cases hcount
    · exact absurd hx hrunning
  -- the only event that can start the callback of the timer
  | callback =>
    simp only [managerStep] at hstep
    split at hstep
    · rename_i y rest hidle hdue
      obtain rfl := Option.some.inj hstep
      have hfires : fires x s .callback = decide (y = x) := by
        simp only [fires, hidle, hdue, Option.isNone_none, List.head?_cons, Bool.true_and]
        rfl
      rw [hfires]
      rcases h.place with ⟨hnot, -, hwait⟩ | ⟨hcount, -, hout, hnext⟩ | ⟨-, hx, -⟩
      · rw [hdue, List.mem_cons, not_or] at hnot
        have hyx : y ≠ x := Ne.symm hnot.1
        refine Or.inr ⟨decide_eq_false hyx, h.clocked, h.period, Or.inl ⟨hnot.2, ?_, hwait⟩⟩
        exact fun heq => hyx (Option.some.inj heq)
      · rw [hdue] at hcount
        by_cases hyx : y = x
        · subst hyx
          rw [List.count_cons_self] at hcount
          have hnot : y ∉ rest := List.count_eq_zero.1 (by omega)
          exact Or.inl ⟨decide_eq_true rfl, hnext, h.clocked, h.period,
            Or.inr (Or.inr ⟨hnot, rfl, hout, rfl⟩)⟩
        · rw [List.count_cons_of_ne hyx] at hcount
          refine Or.inr ⟨decide_eq_false hyx, h.clocked, h.period,
            Or.inr (Or.inl ⟨hcount, ?_, hout, hnext⟩)⟩
          exact fun heq => hyx (Option.some.inj heq)
      · rw [hidle] at hx
        cases hx
    · cases hstep
  | returned reset =>
    simp only [managerStep] at hstep
    split at hstep
    · cases hstep
    · rename_i y hy
      by_cases hyx : y = x
      · subst hyx
        rw [if_pos (hkeep hy)] at hstep
        obtain ⟨w, hrenew, rfl⟩ := Option.map_eq_some_iff.1 hstep
        exact Or.inr ⟨rfl, h.renewed hy hrenew⟩
      · have hnone : (none : Option τ) = some x ↔ s.running = some x := by
          rw [hy]
          exact iff_of_false (fun h => by cases h) fun heq => hyx (Option.some.inj heq)
        split at hstep
        · obtain ⟨w, hrenew, rfl⟩ := Option.map_eq_some_iff.1 hstep
          exact Or.inr ⟨rfl, h.armTimer hyx hrenew hnone⟩
        · obtain rfl := Option.some.inj hstep
          exact Or.inr ⟨rfl, h.frame rfl rfl rfl rfl (fun _ _ => rfl) hnone⟩
  | threw =>
    simp only [managerStep] at hstep
    split at hstep
    · cases hstep
    · rename_i y hy
      obtain rfl := Option.some.inj hstep
      have hnone : (none : Option τ) = some x ↔ s.running = some x := iff_of_false (fun h => by cases h) hkeep
      exact Or.inr ⟨rfl, h.frame rfl rfl rfl rfl (fun _ _ => rfl) hnone⟩
  | addTimer y ms' =>
    obtain ⟨w, harm, rfl⟩ := Option.map_eq_some_iff.1 hstep
    exact Or.inr ⟨rfl, h.armTimer hkeep harm Iff.rfl⟩
  | removeTimer y =>
    obtain ⟨⟨b, w⟩, hrem, rfl⟩ := Option.map_eq_some_iff.1 hstep
    obtain ⟨hcur, hoff, hdata, hframe⟩ := removeTimer_frame hrem
    exact Or.inr ⟨rfl, h.frame hcur hoff (by rw [hdata]) (by rw [hdata])
      (hframe x (Ne.symm hkeep)) Iff.rfl⟩

/-- The firings of a run, each where the one before it allows. -/
theorem run_cycling {events : List (ManagerEvent τ)} : ∀ {last : Nat} {s s' : Manager τ},
    Cycling cfg tick x ms last s → Along (managerStep cfg tick) (Keeps x) s events →
      runFrom (managerStep cfg tick) s events = some s' →
        List.IsChain (NextFiring cfg (milling2tick tick ms))
            (last :: firings cfg tick x s events) ∧
          Cycling cfg tick x ms ((firings cfg tick x s events).getLastD last) s' := by
  induction events with
  | nil =>
    intro last s s' h _ hrun
    obtain rfl := Option.some.inj hrun
    exact ⟨List.isChain_singleton _, h⟩
  | cons e events ih =>
    intro last s s' h hkeep hrun
    obtain ⟨s₁, hstep, hrest⟩ := runFrom_cons.1 hrun
    rw [firings, hstep]
    dsimp only
    rcases managerStep_cycling h hkeep.1 hstep with ⟨hfires, hnext, h₁⟩ | ⟨hfires, h₁⟩
    · obtain ⟨hchain, h'⟩ := ih h₁ (hkeep.2 s₁ hstep) hrest
      rw [if_pos hfires]
      refine ⟨List.isChain_cons_cons.2 ⟨hnext, hchain⟩, ?_⟩
      rw [List.getLastD_cons]
      exact h'
    · rw [hfires, if_neg Bool.false_ne_true]
      exact ih h₁ (hkeep.2 s₁ hstep) hrest

/-- Nothing is late where every trigger tick is beside the turns of level 0, or the level takes the
timer at once. -/
theorem firings_exact {c : Nat} {fs : List Nat}
    (hcase : p ≤ cfg.maxTick 0 ∨ cfg.maxTick 0 ∣ p ∧ ¬ cfg.maxTick 0 ∣ c)
    (hchain : List.IsChain (NextFiring cfg p) (c :: fs)) :
    ∀ k F, fs[k]? = some F → F = c + (k + 1) * p := by
  induction fs generalizing c with
  | nil =>
    intro k F hF
    cases hF
  | cons f fs ih =>
    obtain ⟨hnext, hrest⟩ := List.isChain_cons_cons.1 hchain
    -- the first firing is not late: the level takes it at once, or no turn ends there
    have hf : f = c + p := by
      rcases hcase with hle | ⟨hp, hc⟩
      · rcases hnext.bounds with heq | hlate
        · exact heq
        · have hm := cfg.maxTick_pos 1
          have hmul : cfg.maxTick 0 * 2 ≤ cfg.maxTick 0 * (cfg.maxTick 1 + 1) :=
            Nat.mul_le_mul_left _ (by omega)
          have hpos := cfg.maxTick_pos 0
          have hfar := ((hnext.near (by omega)).1 hlate).1
          omega
      · exact hnext.exact fun hdvd => hc ((Nat.dvd_add_left hp).1 hdvd)
    have hcase' : p ≤ cfg.maxTick 0 ∨ cfg.maxTick 0 ∣ p ∧ ¬ cfg.maxTick 0 ∣ f := by
      rcases hcase with hle | ⟨hp, hc⟩
      · exact Or.inl hle
      · refine Or.inr ⟨hp, fun hdvd => hc ?_⟩
        rw [hf] at hdvd
        exact (Nat.dvd_add_left hp).1 hdvd
    intro k F hF
    cases k with
    | zero =>
      rw [List.getElem?_cons_zero] at hF
      rw [← Option.some.inj hF, hf]
      omega
    | succ k =>
      rw [List.getElem?_cons_succ] at hF
      rw [ih hcase' hrest k F hF, hf]
      ring

/-- **How a periodic timer drifts.** A timer is armed for the first time at tick `c`, its period of
`p` ticks ahead, and its callback answers `RESET_TIMER` whenever it runs. Then each firing is where
the one before it allows (the first counts from `c`), and none is left out: once the wheel has come
to the tick of the next firing and the timer is not among those about to run, that tick is late, at
a turn of level 0. For short periods, and for whole turns of level 0 that do not begin at one,
firing `k` is at tick `c + k * p`. -/
theorem periodic_firings (cfg : LevelConfig) (tick : TickLength) (initTime : Int)
    (before : List (ManagerEvent τ)) {events : List (ManagerEvent τ)} {s₀ s₁ s₂ : Manager τ}
    {x : τ} {ms : Int}
    (hbefore : runFrom (managerStep cfg tick) (Manager.init τ initTime) before = some s₀)
    (hfirst : ∀ e ∈ before, e.NotAdd x)
    (hticks : (ticksFromNow tick s₀.now s₀.lastTickMonotonic ms).toNat = milling2tick tick ms)
    (hadd : managerStep cfg tick s₀ (.addTimer x ms) = some s₁)
    (hkeep : Along (managerStep cfg tick) (Keeps x) s₁ events)
    (hrun : runFrom (managerStep cfg tick) s₁ events = some s₂) :
    List.IsChain (NextFiring cfg (milling2tick tick ms))
        (s₀.wheel.currentTick :: firings cfg tick x s₁ events) ∧
      (x ∉ s₂.due →
        s₂.wheel.currentTick < (firings cfg tick x s₁ events).getLastD s₀.wheel.currentTick +
            milling2tick tick ms ∨
          s₂.wheel.currentTick = (firings cfg tick x s₁ events).getLastD s₀.wheel.currentTick +
              milling2tick tick ms ∧ cfg.maxTick 0 ∣ s₂.wheel.currentTick) ∧
      (milling2tick tick ms ≤ cfg.maxTick 0 ∨
          cfg.maxTick 0 ∣ milling2tick tick ms ∧ ¬ cfg.maxTick 0 ∣ s₀.wheel.currentTick →
        ∀ k F, (firings cfg tick x s₁ events)[k]? = some F →
          F = s₀.wheel.currentTick + (k + 1) * milling2tick tick ms) := by
  -- before it is armed the timer is nowhere, and the wheel has kept its clock
  obtain ⟨hout, hdue, hrunning⟩ := run_nowhere hfirst hbefore
  have hclock : Clocked cfg s₀.wheel := by
    refine runFrom_invariant (I := fun u => Clocked cfg u.wheel) ?_ ?_ hbefore
    · intro u e u' hu hstep
      cases managerStep_move hstep with
      | tick due w hnil hidle hleft htick => exact (runTick_clocked hu htick).1
      | renewed y w hy hop => exact exec_clocked hu (by simp [renewal]) hop
      | added y ms w hop => exact exec_clocked hu (by simp) hop
      | removed y w hop => exact exec_clocked hu (by simp) hop
      | _ => exact hu
    · exact ⟨init_offsetsOk, (Nat.zero_mod _).symm⟩
  obtain ⟨w, harm, rfl⟩ := Option.map_eq_some_iff.1 hadd
  rw [hticks] at harm
  obtain ⟨hclock₁, -, hwait⟩ := armTimer_waiting hclock hout harm
  have h₁ : Cycling cfg tick x ms s₀.wheel.currentTick { s₀ with wheel := w } :=
    ⟨hclock₁, (armTimer_period harm x).trans (if_pos rfl), Or.inl ⟨hdue, hrunning, hwait⟩⟩
  obtain ⟨hchain, h₂⟩ := run_cycling h₁ hkeep hrun
  refine ⟨hchain, fun hnot => ?_, fun hcase => firings_exact hcase hchain⟩
  rcases h₂.place with ⟨-, -, hwait'⟩ | ⟨hcount, -⟩ | ⟨-, -, -, hlast⟩
  · -- still in the wheel: the tick is before the trigger tick, or the timer is late
    rcases Nat.lt_or_ge s₂.wheel.currentTick ((firings cfg tick x _ events).getLastD
        s₀.wheel.currentTick + milling2tick tick ms) with hlt | hge
    · exact Or.inl hlt
    · have hle := hwait'.armed.currentTick_le h₂.clocked.offsetsOk
      have heq := Nat.le_antisymm hle hge
      refine Or.inr ⟨heq, ?_⟩
      rw [heq]
      exact hwait'.reached heq
  · rw [List.count_eq_zero.2 hnot] at hcount
    cases hcount
  · have hp := (armTimer_positive harm).2
    left
    omega

/-- Ticks of 50 ms, and the levels of `twoByTwo`. -/
def fiftyMs : TickLength := ⟨50, by decide, by decide⟩

/-- A period of three ticks from tick 0: the first two firings. -/
theorem periodic_firings_three :
    ∃ s₁ s₂, managerStep twoByTwo fiftyMs (Manager.init Nat 0) (.addTimer 7 150) = some s₁ ∧
      runFrom (managerStep twoByTwo fiftyMs) s₁
        [.elapse 350000, .update, .tick, .tick, .tick, .callback, .returned true, .tick, .tick,
          .tick, .callback, .returned true, .tick] = some s₂ ∧
      List.IsChain (NextFiring twoByTwo 3) [0, 3, 6] := by
  have hrun : ((managerStep twoByTwo fiftyMs (Manager.init Nat 0) (.addTimer 7 150)).bind
      fun s₁ => (runFrom (managerStep twoByTwo fiftyMs) s₁
        [.elapse 350000, .update, .tick, .tick, .tick, .callback, .returned true, .tick, .tick,
          .tick, .callback, .returned true, .tick]).map fun s₂ =>
        firings twoByTwo fiftyMs 7 s₁
          [.elapse 350000, .update, .tick, .tick, .tick, .callback, .returned true, .tick, .tick,
            .tick, .callback, .returned true, .tick]) = some [3, 6] := by
    decide +kernel
  obtain ⟨s₁, hadd, hrest⟩ := Option.bind_eq_some_iff.1 hrun
  obtain ⟨s₂, hrun₂, hfirings⟩ := Option.map_eq_some_iff.1 hrest
  refine ⟨s₁, s₂, hadd, hrun₂, ?_⟩
  have hkeep : Along (managerStep twoByTwo fiftyMs) (Keeps 7) s₁
      [.elapse 350000, .update, .tick, .tick, .tick, .callback, .returned true, .tick, .tick,
        .tick, .callback, .returned true, .tick] := by
    simp [Along, Keeps]
  have hchain := (periodic_firings twoByTwo fiftyMs 0 [] rfl (by simp) (by decide) hadd
    hkeep hrun₂).1
  rw [hfirings] at hchain
  exact hchain

/-- **A firing that is late.** The period is two turns of level 0 and begins at one: the timer comes
out of level 1 at tick 4, which is its trigger tick, and its callback runs at tick 5. -/
theorem late_firing :
    milling2tick fiftyMs 200 = 4 ∧ (Manager.init Nat 0).wheel.currentTick = 0 ∧
      ∃ s₁ s₂, managerStep twoByTwo fiftyMs (Manager.init Nat 0) (.addTimer 7 200) = some s₁ ∧
        (s₁.wheel.data 7).triggerTick = 4 ∧
        runFrom (managerStep twoByTwo fiftyMs) s₁
          [.elapse 250000, .update, .tick, .tick, .tick, .tick, .tick, .callback] = some s₂ ∧
        firings twoByTwo fiftyMs 7 s₁
          [.elapse 250000, .update, .tick, .tick, .tick, .tick, .tick, .callback] = [5] := by
  have hrun : ((managerStep twoByTwo fiftyMs (Manager.init Nat 0) (.addTimer 7 200)).bind
      fun s₁ => (runFrom (managerStep twoByTwo fiftyMs) s₁
        [.elapse 250000, .update, .tick, .tick, .tick, .tick, .tick, .callback]).map fun _ =>
          ((s₁.wheel.data 7).triggerTick, firings twoByTwo fiftyMs 7 s₁
            [.elapse 250000, .update, .tick, .tick, .tick, .tick, .tick, .callback])) =
      some (4, [5]) := by
    decide +kernel
  obtain ⟨s₁, hadd, hrest⟩ := Option.bind_eq_some_iff.1 hrun
  obtain ⟨s₂, hrun₂, heq⟩ := Option.map_eq_some_iff.1 hrest
  obtain ⟨htrig, hfirings⟩ := Prod.mk.inj heq
  exact ⟨by decide, rfl, s₁, s₂, hadd, htrig, hrun₂, hfirings⟩

end OpenIdea.Timer

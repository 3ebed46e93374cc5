import OpenIdea.Timer.Wheel

/-!
# Accuracy of the timer wheel

Every armed timer sits in exactly one slot of one level (`At`), and its position bounds the tick at
which it leaves the wheel (`OnTime`): on level `0` the slot is exact up to one tick, and a timer
`q` slots ahead of the offset of level `i` satisfies

  `currentTick + (q + 1) * levelOffsetTick i ≤ triggerTick + lowValue maxTick offset i`,

where `lowValue` is the number the offsets below level `i` write. `try_uniform` ticks a level at
irregular times, whenever the level below sits at offset `0`; the bound survives because a level
that is not ticked has seen that number grow (`runTick_armed`). The main result is
`wheel_hands_out_at_trigger`.
-/

set_option autoImplicit false

namespace OpenIdea.Timer

open OpenIdea.Lib.MixedRadix

variable {τ : Type} (cfg : LevelConfig)

/-! ## Positions -/

/-- Every level's offset names one of its slots. -/
def OffsetsOk (w : TimerWheel τ) : Prop := ∀ i, w.offset i < cfg.maxTick i

/-- A placement computed from the current tick alone, `d` ticks ahead. -/
structure Ahead (d i q : Nat) : Prop where
  exact : i = 0 → q + 1 = d
  le : (q + 1) * cfg.levelOffsetTick i ≤ d
  finest : d = 1 → i = 0

/-- The position `q` steps ahead on level `i` leaves the wheel in time for trigger tick `t`. -/
def OnTime (w : TimerWheel τ) (t i q : Nat) : Prop :=
  if i = 0 then w.currentTick + q + 1 = t ∨ w.currentTick + q + 1 = t + 1
  else w.currentTick + (q + 1) * cfg.levelOffsetTick i ≤ t + lowValue cfg.maxTick w.offset i

/-- `w'` has the tick, the offsets and the trigger ticks of `w`. -/
structure SameClock (w w' : TimerWheel τ) : Prop where
  currentTick_eq : w'.currentTick = w.currentTick
  offset_eq : w'.offset = w.offset
  triggerTick_eq : ∀ y, (w'.data y).triggerTick = (w.data y).triggerTick

theorem SameClock.refl (w : TimerWheel τ) : SameClock w w := ⟨rfl, rfl, fun _ => rfl⟩

variable {w w' : TimerWheel τ} {i q t : Nat} {x : τ} {l : List τ}

theorem SameClock.trans {w'' : TimerWheel τ} (h : SameClock w w') (h' : SameClock w' w'') :
    SameClock w w'' :=
  ⟨h'.1.trans h.1, h'.2.trans h.2, fun y => (h'.3 y).trans (h.3 y)⟩

theorem setSlot_tickDatas (w : TimerWheel τ) (i j : Nat) (l : List τ) (i' j' : Nat) :
    (w.setSlot i j l).tickDatas i' j' = if i' = i ∧ j' = j then l else w.tickDatas i' j' := by
  by_cases hi : i' = i
  · subst hi
    by_cases hj : j' = j <;> simp [TimerWheel.setSlot, hj]
  · simp [TimerWheel.setSlot, hi]

variable {cfg} in
theorem Ahead.onTime {d : Nat} (h : Ahead cfg d i q)
    (hd : w.currentTick + d = t ∨ d = 1 ∧ w.currentTick = t) : OnTime cfg w t i q := by
  unfold OnTime
  split
  · rename_i hi
    have := h.exact hi
    omega
  · rename_i hi
    have hle := h.le
    rcases hd with hd | ⟨hd, -⟩
    · omega
    · exact absurd (h.finest hd) hi

variable [DecidableEq τ]

/-- The timer is in no slot of any level. -/
def Absent (w : TimerWheel τ) (x : τ) : Prop := ∀ i j, (w.tickDatas i j).count x = 0

/-- The timer is in exactly one slot, once: the slot `q` steps ahead of the offset of level `i`. -/
structure At (w : TimerWheel τ) (x : τ) (i q : Nat) : Prop where
  level_lt : i < cfg.timerLevelCount
  step_lt : q < cfg.maxTick i
  count_eq : ∀ i' j', (w.tickDatas i' j').count x =
    if i' = i ∧ j' = (w.offset i + q) % cfg.maxTick i then 1 else 0

/-- The timer is armed for tick `t` and sits where it will leave the wheel in time. -/
def Armed (w : TimerWheel τ) (x : τ) (t : Nat) : Prop :=
  (w.data x).triggerTick = t ∧ ∃ i q, At cfg w x i q ∧ OnTime cfg w t i q

variable {cfg}

/-- Positions depend on the counts of the timer and the offset of its level only. -/
theorem At.congr (h : At cfg w x i q) (hoff : w'.offset i = w.offset i)
    (hcount : ∀ i j, (w'.tickDatas i j).count x = (w.tickDatas i j).count x) : At cfg w' x i q :=
  ⟨h.level_lt, h.step_lt, fun i' j' => by rw [hcount, h.count_eq, hoff]⟩

/-- Erasing the timer from a slot that holds it takes it out of the wheel. -/
theorem At.absent_erase {i' j' : Nat} (h : At cfg w x i q) (hmem : x ∈ w.tickDatas i' j') :
    Absent (w.setSlot i' j' ((w.tickDatas i' j').erase x)) x := by
  have hpos := List.count_pos_iff.2 hmem
  rw [h.count_eq] at hpos
  have hslot : i' = i ∧ j' = (w.offset i + q) % cfg.maxTick i := by
    by_contra hne
    rw [if_neg hne] at hpos
    exact absurd hpos (by omega)
  intro i₁ j₁
  rw [setSlot_tickDatas]
  split
  · rw [List.count_erase_self, h.count_eq, if_pos hslot]
  · rename_i hne
    rw [h.count_eq, if_neg fun heq => hne ⟨heq.1.trans hslot.1.symm, heq.2.trans hslot.2.symm⟩]

/-! ## Adding a timer -/

/-- The wheel after `TimerLevel::AddTimer` put `x` into the slot `q` steps ahead on level `i`. -/
structure Placed (cfg : LevelConfig) (w w' : TimerWheel τ) (x : τ) (i q : Nat) : Prop where
  clock : SameClock w w'
  slots : ∀ i' j', w'.tickDatas i' j' =
    if i' = i ∧ j' = (w.offset i + q) % cfg.maxTick i then w.tickDatas i' j' ++ [x]
    else w.tickDatas i' j'

theorem levelAddTimer_placed (hw : OffsetsOk cfg w) (x : τ) (hq : q < cfg.maxTick i) :
    ∃ w', levelAddTimer cfg w i x q = some w' ∧ Placed cfg w w' x i q := by
  refine ⟨_, if_pos hq, ⟨rfl, rfl, fun y => ?_⟩, fun i' j' => ?_⟩
  · by_cases hy : y = x
    · subst hy; simp
    · simp [hy]
  · -- slot counts are at most 2 ^ 31, so the 32-bit sum is exact
    have hwrap : (q + w.offset i) % 2 ^ 32 = w.offset i + q := by
      have h1 := cfg.maxTick_le i
      have h2 := hw i
      omega
    show (w.setSlot i _ _).tickDatas i' j' = _
    rw [setSlot_tickDatas, hwrap]
    split
    · rename_i h; rw [h.1, h.2]
    · rfl

theorem addTimerFrom_placed {w : TimerWheel τ} (hw : OffsetsOk cfg w) (x : τ) {d : Nat}
    (hd : 0 < d) :
    ∀ left i, left + i = cfg.timerLevelCount - 1 → cfg.levelOffsetTick i ≤ d →
      (d = 1 → i = 0) →
      ∃ w' i' q, addTimerFrom cfg w x d left i = some w' ∧ i' < cfg.timerLevelCount ∧
        q < cfg.maxTick i' ∧ Placed cfg w w' x i' q ∧ Ahead cfg d i' q
  | 0, i, hi, hle, hone => by
      have hcount := cfg.two_lt_timerLevelCount
      have hlast : 0 < cfg.maxTick (cfg.timerLevelCount - 1) := cfg.maxTick_pos _
      obtain ⟨w', hadd, hplaced⟩ := levelAddTimer_placed hw x hlast
      have hidx : i = cfg.timerLevelCount - 1 := by omega
      subst hidx
      refine ⟨w', _, 0, hadd, by omega, hlast, hplaced, fun h => by omega, by simpa using hle, ?_⟩
      intro h
      exact hone h
  | left + 1, i, hi, hle, hone => by
      have hpos := cfg.levelOffsetTick_pos i
      have hdiv : 1 ≤ d / cfg.levelOffsetTick i := (Nat.one_le_div_iff hpos).2 hle
      simp only [addTimerFrom]
      rw [if_neg (by omega)]
      split
      · rename_i hge
        -- the level is too fine: the next one is still no coarser than `d`
        have hmul : cfg.levelOffsetTick i * (cfg.maxTick i + 1) ≤ d := by
          rw [Nat.mul_comm]
          exact (Nat.le_div_iff_mul_le hpos).1 (by omega)
        have hnext : cfg.levelOffsetTick (i + 1) ≤ d := by
          rw [cfg.levelOffsetTick_succ]
          exact le_trans (Nat.mul_le_mul_left _ (by omega)) hmul
        refine addTimerFrom_placed hw x hd left (i + 1) (by omega) hnext fun h => ?_
        have hmax := cfg.maxTick_pos i
        have : 2 ≤ cfg.levelOffsetTick i * (cfg.maxTick i + 1) := by nlinarith
        omega
      · rename_i hlt
        obtain ⟨w', hadd, hplaced⟩ :=
          levelAddTimer_placed hw x (i := i) (q := d / cfg.levelOffsetTick i - 1) (by omega)
        refine ⟨w', i, _, hadd, by omega, by omega, hplaced, ?_, ?_, hone⟩
        · intro h
          subst h
          rw [cfg.levelOffsetTick_zero, Nat.div_one]
          omega
        · rw [Nat.sub_add_cancel hdiv]
          exact Nat.div_mul_le_self _ _

/-- `add_timer` never fails an assertion, and places the timer by the ticks that remain. -/
theorem addTimer_placed (hw : OffsetsOk cfg w) (x : τ) :
    ∃ w' i q, addTimer cfg w x = some w' ∧ i < cfg.timerLevelCount ∧ q < cfg.maxTick i ∧
      Placed cfg w w' x i q ∧
      Ahead cfg (max 1 ((w.data x).triggerTick - w.currentTick)) i q := by
  have hmax : (if (w.data x).triggerTick - w.currentTick = 0 then 1
      else (w.data x).triggerTick - w.currentTick) =
        max 1 ((w.data x).triggerTick - w.currentTick) := by
    split <;> omega
  have h := addTimerFrom_placed hw x (d := max 1 ((w.data x).triggerTick - w.currentTick))
    (by omega) (cfg.timerLevelCount - 1) 0 (by omega) (by simp) (fun _ => rfl)
  simpa only [addTimer, hmax] using h

variable {y : τ} {k : Nat} {ms : Int}

theorem Placed.count_of_ne (h : Placed cfg w w' y i q) (hxy : x ≠ y) (i' j' : Nat) :
    (w'.tickDatas i' j').count x = (w.tickDatas i' j').count x := by
  rw [h.slots]
  split
  · simp [List.count_append, Ne.symm hxy]
  · rfl

theorem Placed.at_of_absent (h : Placed cfg w w' x i q) (hx : Absent w x)
    (hi : i < cfg.timerLevelCount) (hq : q < cfg.maxTick i) : At cfg w' x i q := by
  refine ⟨hi, hq, fun i' j' => ?_⟩
  rw [h.slots, h.clock.offset_eq]
  split
  · simp [List.count_append, hx i' j']
  · exact hx i' j'

/-- An absent timer whose trigger tick is not yet passed is armed by `add_timer`. -/
theorem addTimer_armed (hw : OffsetsOk cfg w) (hx : Absent w x)
    (ht : w.currentTick ≤ (w.data x).triggerTick) :
    ∃ w' i q, addTimer cfg w x = some w' ∧ SameClock w w' ∧ At cfg w' x i q ∧
      (i = 0 → OnTime cfg w (w.data x).triggerTick 0 q) ∧
      (0 < i → w.currentTick + (q + 1) * cfg.levelOffsetTick i ≤ (w.data x).triggerTick) := by
  obtain ⟨w', i, q, hadd, hi, hq, hplaced, hahead⟩ := addTimer_placed hw x
  refine ⟨w', i, q, hadd, hplaced.clock, hplaced.at_of_absent hx hi hq, ?_, ?_⟩
  · rintro rfl
    exact hahead.onTime (by omega)
  · intro hpos
    have hle := hahead.le
    have hne : max 1 ((w.data x).triggerTick - w.currentTick) ≠ 1 := fun h => by
      have := hahead.finest h
      omega
    omega

/-! ## Redistributing a slot -/

omit [DecidableEq τ] in
theorem OffsetsOk.congr (h : OffsetsOk cfg w) (hc : SameClock w w') :
    OffsetsOk cfg w' := fun i => by rw [hc.offset_eq]; exact h i

/-- Redistributing a list never fails an assertion, and leaves the slots of a timer that is not in
the list as they are. -/
theorem addAll_clock :
    ∀ (l : List τ) {w : TimerWheel τ}, OffsetsOk cfg w →
      ∃ w', addAll cfg w l = some w' ∧ SameClock w w' ∧
        ∀ x, x ∉ l → ∀ i j, (w'.tickDatas i j).count x = (w.tickDatas i j).count x
  | [], w, _ => ⟨w, rfl, SameClock.refl w, fun _ _ _ _ => rfl⟩
  | y :: l, w, hw => by
      obtain ⟨w₁, i, q, hadd, -, -, hplaced, -⟩ := addTimer_placed hw y
      obtain ⟨w₂, hall, hclock, hcount⟩ := addAll_clock l (hw.congr hplaced.clock)
      refine ⟨w₂, by simp [addAll, hadd, hall], hplaced.clock.trans hclock, fun x hx i' j' => ?_⟩
      rw [List.mem_cons, not_or] at hx
      rw [hcount x hx.2, hplaced.count_of_ne hx.1]

/-- A timer that occurs once in a redistributed list, and whose trigger tick is not passed, ends
up in one slot, placed from the current tick. -/
theorem addAll_armed {x : τ} :
    ∀ (l : List τ) {w : TimerWheel τ}, OffsetsOk cfg w → l.count x = 1 → Absent w x →
      w.currentTick ≤ (w.data x).triggerTick →
      ∃ w' i q, addAll cfg w l = some w' ∧ SameClock w w' ∧ At cfg w' x i q ∧
        (i = 0 → OnTime cfg w (w.data x).triggerTick 0 q) ∧
        (0 < i → w.currentTick + (q + 1) * cfg.levelOffsetTick i ≤ (w.data x).triggerTick)
  | [], w, _, hl, _, _ => by simp at hl
  | y :: l, w, hw, hl, hx, ht => by
      by_cases hxy : x = y
      · subst hxy
        have hnot : x ∉ l := by
          rw [List.count_cons_self] at hl
          exact List.count_eq_zero.1 (by omega)
        obtain ⟨w₁, i, q, hadd, hclock₁, hat, h0, hpos⟩ := addTimer_armed hw hx ht
        obtain ⟨w₂, hall, hclock₂, hcount⟩ := addAll_clock l (hw.congr hclock₁)
        refine ⟨w₂, i, q, by simp [addAll, hadd, hall], hclock₁.trans hclock₂, ?_, h0, hpos⟩
        exact hat.congr (by rw [hclock₂.offset_eq]) (hcount x hnot)
      · obtain ⟨w₁, i₁, q₁, hadd, -, -, hplaced, -⟩ := addTimer_placed hw y
        have hc := hplaced.clock
        have hl' : l.count x = 1 := by rwa [List.count_cons_of_ne (Ne.symm hxy)] at hl
        have hx' : Absent w₁ x := fun i j => by rw [hplaced.count_of_ne hxy]; exact hx i j
        obtain ⟨w₂, i, q, hall, hclock₂, hat, h0, hpos⟩ := addAll_armed l (hw.congr hc) hl' hx'
          (by rw [hc.currentTick_eq, hc.triggerTick_eq]; exact ht)
        refine ⟨w₂, i, q, by simp [addAll, hadd, hall], hc.trans hclock₂, hat, ?_, ?_⟩
        · intro hi
          have := h0 hi
          simp only [OnTime, if_true, hc.currentTick_eq, hc.triggerTick_eq] at this ⊢
          exact this
        · intro hi
          have := hpos hi
          rwa [hc.currentTick_eq, hc.triggerTick_eq] at this

/-! ## Ticking a level

The slot at the offset is emptied, and every other slot is one closer. -/

/-- The effect of the locked part of `RunTick` on level `i`. -/
structure Ticked (cfg : LevelConfig) (w : TimerWheel τ) (i : Nat) (l : List τ)
    (w' : TimerWheel τ) : Prop where
  due : l = w.tickDatas i (w.offset i)
  currentTick_eq : w'.currentTick = w.currentTick
  data_eq : w'.data = w.data
  slots : ∀ i' j', w'.tickDatas i' j' =
    if i' = i ∧ j' = w.offset i then [] else w.tickDatas i' j'
  offset_of_ne : ∀ k, k ≠ i → w'.offset k = w.offset k
  offset_self : w'.offset i = (w.offset i + 1) % cfg.maxTick i

omit [DecidableEq τ] in
theorem levelRunTick_ticked (hw : OffsetsOk cfg w) (i : Nat) :
    ∃ l w', levelRunTick cfg w i = some (l, w') ∧ Ticked cfg w i l w' := by
  refine ⟨_, _, if_pos (hw i), rfl, rfl, rfl, fun i' j' => setSlot_tickDatas w i _ _ i' j', ?_, ?_⟩
  · intro k hk
    simp [hk]
  · have h := hw i
    simp only [Function.update_self]
    split
    · rename_i hge
      have : w.offset i + 1 = cfg.maxTick i := by omega
      rw [this, Nat.mod_self]
    · rw [Nat.mod_eq_of_lt (by omega)]

omit [DecidableEq τ] in
theorem Ticked.offsetsOk (h : Ticked cfg w i l w') (hw : OffsetsOk cfg w) : OffsetsOk cfg w' := by
  intro k
  by_cases hk : k = i
  · subst hk
    rw [h.offset_self]
    exact Nat.mod_lt _ (cfg.maxTick_pos k)
  · rw [h.offset_of_ne k hk]
    exact hw k

theorem Ticked.absent (h : Ticked cfg w i l w') (hx : Absent w x) : Absent w' x := by
  intro i' j'
  rw [h.slots]
  split
  · rfl
  · exact hx i' j'

/-- A timer on another level, or not in the slot under the offset, keeps its slot. -/
theorem Ticked.at_of_ne {j : Nat} (h : Ticked cfg w i l w') (hat : At cfg w x j q) (hij : j ≠ i) :
    At cfg w' x j q := by
  refine ⟨hat.level_lt, hat.step_lt, fun i' j' => ?_⟩
  rw [h.slots, h.offset_of_ne j hij, ← hat.count_eq]
  split
  · rename_i heq
    rw [hat.count_eq, if_neg (fun h' => hij (h'.1.symm.trans heq.1)), List.count_nil]
  · rfl

theorem Ticked.not_mem_of_ne {j : Nat} (h : Ticked cfg w i l w') (hat : At cfg w x j q)
    (hij : j ≠ i) : x ∉ l := by
  rw [h.due, ← List.count_eq_zero, hat.count_eq, if_neg (fun h' => hij h'.1.symm)]

/-- A timer further ahead on the ticked level comes one step closer. -/
theorem Ticked.at_pred (h : Ticked cfg w i l w') (hw : OffsetsOk cfg w) (hat : At cfg w x i (q + 1))
    : x ∉ l ∧ At cfg w' x i q := by
  have hslot : (w.offset i + (q + 1)) % cfg.maxTick i ≠ w.offset i := by
    have h1 := hat.step_lt
    have h2 := hw i
    intro heq
    rcases Nat.lt_or_ge (w.offset i + (q + 1)) (cfg.maxTick i) with hlt | hge
    · rw [Nat.mod_eq_of_lt hlt] at heq
      omega
    · rw [Nat.mod_eq_sub_mod hge, Nat.mod_eq_of_lt (by omega)] at heq
      omega
  refine ⟨?_, hat.level_lt, by have := hat.step_lt; omega, fun i' j' => ?_⟩
  · rw [h.due, ← List.count_eq_zero, hat.count_eq, if_neg (fun h' => hslot h'.2.symm)]
  · rw [h.slots, h.offset_self, Nat.mod_add_mod, Nat.add_assoc, Nat.add_comm 1 q,
      ← hat.count_eq]
    split
    · rename_i heq
      rw [hat.count_eq, heq.2, if_neg (fun h' => hslot h'.2.symm), List.count_nil]
    · rfl

/-- A timer in the slot under the offset of the ticked level is in the list taken out, once. -/
theorem Ticked.mem_of_zero (h : Ticked cfg w i l w') (hw : OffsetsOk cfg w) (hat : At cfg w x i 0) :
    l.count x = 1 ∧ Absent w' x := by
  have hslot : (w.offset i + 0) % cfg.maxTick i = w.offset i := Nat.mod_eq_of_lt (hw i)
  constructor
  · rw [h.due, hat.count_eq, hslot, if_pos ⟨rfl, rfl⟩]
  · intro i' j'
    rw [h.slots]
    split
    · rfl
    · rename_i hne
      rw [hat.count_eq, hslot, if_neg hne]

/-! ## One tick of the wheel

Level by level upwards, as long as a level starts over. In between the timers of the slot that is
handed down are in no slot. -/

omit [DecidableEq τ] in
theorem OnTime.congr (h : OnTime cfg w t i q) (hcur : w'.currentTick = w.currentTick)
    (hoff : ∀ j < i, w'.offset j = w.offset j) : OnTime cfg w' t i q := by
  unfold OnTime at h ⊢
  rw [hcur, lowValue_congr hoff]
  exact h

omit [DecidableEq τ] in
theorem OffsetsOk.lowValue_lt (hw : OffsetsOk cfg w) (i : Nat) :
    lowValue cfg.maxTick w.offset i < cfg.levelOffsetTick i :=
  lowValue_lt_placeValue fun j _ => hw j

/-- A timer that is still in the wheel has not passed its trigger tick. -/
theorem Armed.currentTick_le (h : Armed cfg w x t) (hw : OffsetsOk cfg w) : w.currentTick ≤ t := by
  obtain ⟨-, i, q, -, htime⟩ := h
  unfold OnTime at htime
  split at htime
  · omega
  · have hlow := hw.lowValue_lt i
    have hone : cfg.levelOffsetTick i ≤ (q + 1) * cfg.levelOffsetTick i :=
      Nat.le_mul_of_pos_left _ (by omega)
    omega

/-- In the middle of a tick that started in `w₀`, with the levels below `i` done: a timer on a done
level is on time, and one on a level still to come satisfies the bound it had in `w₀`. -/
def MidTick (cfg : LevelConfig) (w₀ w : TimerWheel τ) (x : τ) (t i : Nat) : Prop :=
  (w.data x).triggerTick = t ∧ ∃ j q, At cfg w x j q ∧ (j < i → OnTime cfg w t j q) ∧
    (i ≤ j → w₀.currentTick + (q + 1) * cfg.levelOffsetTick j ≤
      t + lowValue cfg.maxTick w₀.offset j)

/-- Ticking level `i` and redistributing its slot carries `MidTick` to the next level. -/
theorem MidTick.tick {w₀ w₁ : TimerWheel τ} (h : MidTick cfg w₀ w x t i) (hw₀ : OffsetsOk cfg w₀)
    (hw : OffsetsOk cfg w) (hcur : w.currentTick = w₀.currentTick + 1) (hi : 0 < i)
    (htick : Ticked cfg w i l w₁) :
    ∃ w₂, addAll cfg w₁ l = some w₂ ∧ MidTick cfg w₀ w₂ x t (i + 1) := by
  obtain ⟨htrig, j, q, hat, hdone, hpend⟩ := h
  have hw₁ := htick.offsetsOk hw
  have htrig₁ : (w₁.data x).triggerTick = t := by rw [htick.data_eq, htrig]
  -- a timer that is not taken out keeps its slot through the redistribution
  have keep : ∀ {q'}, x ∉ l → At cfg w₁ x j q' → (j < i + 1 → OnTime cfg w₁ t j q') →
      (i + 1 ≤ j → w₀.currentTick + (q' + 1) * cfg.levelOffsetTick j ≤
        t + lowValue cfg.maxTick w₀.offset j) →
      ∃ w₂, addAll cfg w₁ l = some w₂ ∧ MidTick cfg w₀ w₂ x t (i + 1) := by
    intro q' hnot hat₁ hdone₁ hpend₁
    obtain ⟨w₂, hall, hclock, hcount⟩ := addAll_clock l hw₁
    refine ⟨w₂, hall, by rw [hclock.triggerTick_eq, htrig₁], j, q',
      hat₁.congr (by rw [hclock.offset_eq]) (hcount x hnot), fun hj => ?_, hpend₁⟩
    exact (hdone₁ hj).congr hclock.currentTick_eq fun k _ => by rw [hclock.offset_eq]
  have hlow := hw₀.lowValue_lt i
  by_cases hji : j = i
  · subst hji
    have hp := hpend (le_refl j)
    cases q with
    | zero =>
      obtain ⟨hmem, habs⟩ := htick.mem_of_zero hw hat
      have hle : w₁.currentTick ≤ (w₁.data x).triggerTick := by
        rw [htrig₁, htick.currentTick_eq, hcur]
        omega
      obtain ⟨w₂, j', q', hall, hclock, hat₂, h0, hpos⟩ := addAll_armed l hw₁ hmem habs hle
      rw [htrig₁] at h0 hpos
      have hcur₁ : w₁.currentTick = w₀.currentTick + 1 := by rw [htick.currentTick_eq, hcur]
      refine ⟨w₂, hall, by rw [hclock.triggerTick_eq, htrig₁], j', q', hat₂, fun _ => ?_,
        fun hj' => ?_⟩
      · rcases Nat.eq_zero_or_pos j' with hz | hz
        · subst hz
          exact (h0 rfl).congr hclock.currentTick_eq fun k hk => absurd hk (by omega)
        · have := hpos hz
          simp only [OnTime, if_neg (by omega : ¬ j' = 0), hclock.currentTick_eq]
          omega
      · have := hpos (by omega)
        omega
    | succ q =>
      obtain ⟨hnot, hat₁⟩ := htick.at_pred hw hat
      refine keep hnot hat₁ (fun _ => ?_) (fun hj => absurd hj (by omega))
      have hmul : (q + 1 + 1) * cfg.levelOffsetTick j =
          (q + 1) * cfg.levelOffsetTick j + cfg.levelOffsetTick j := by ring
      simp only [OnTime, if_neg (by omega : ¬ j = 0), htick.currentTick_eq, hcur]
      omega
  · refine keep (htick.not_mem_of_ne hat hji) (htick.at_of_ne hat hji) (fun hj => ?_)
      (fun hj => hpend (by omega))
    exact (hdone (by omega)).congr htick.currentTick_eq
      fun k hk => htick.offset_of_ne k (by omega)

/-- `try_uniform` from level `i` on. The hypothesis on `lowValue` is what a level that is not ticked
relies on: the number written below it has grown since the tick started. -/
theorem tryUniformFrom_spec {w₀ : TimerWheel τ} (hw₀ : OffsetsOk cfg w₀) :
    ∀ (left i : Nat) (w : TimerWheel τ), left + i = cfg.timerLevelCount → 0 < i →
      OffsetsOk cfg w → w.currentTick = w₀.currentTick + 1 →
      (∀ j, i ≤ j → w.offset j = w₀.offset j) →
      (w.offset (i - 1) ≠ 0 →
        lowValue cfg.maxTick w₀.offset i + 1 ≤ lowValue cfg.maxTick w.offset i) →
      ∃ w', tryUniformFrom cfg left i w = some w' ∧ OffsetsOk cfg w' ∧
        w'.currentTick = w.currentTick ∧ (∀ y, (w'.data y).triggerTick = (w.data y).triggerTick) ∧
        ∀ x, (Absent w x → Absent w' x) ∧ ∀ t, MidTick cfg w₀ w x t i → Armed cfg w' x t
  | 0, i, w, hi, _, hw, _, _, _ => by
      refine ⟨w, rfl, hw, rfl, fun _ => rfl, fun x => ⟨id, ?_⟩⟩
      rintro t ⟨htrig, j, q, hat, hdone, -⟩
      exact ⟨htrig, j, q, hat, hdone (by have := hat.level_lt; omega)⟩
  | left + 1, i, w, hi, hpos, hw, hcur, hsame, hgrow => by
      simp only [tryUniformFrom, isLevelEnd, beq_iff_eq]
      have hlow := hw₀.lowValue_lt i
      split
      · obtain ⟨l, w₁, hrun, htick⟩ := levelRunTick_ticked hw i
        have hw₁ := htick.offsetsOk hw
        obtain ⟨w₂, hall, hclock, hcount⟩ := addAll_clock l hw₁
        have hcur₂ : w₂.currentTick = w₀.currentTick + 1 := by
          rw [hclock.currentTick_eq, htick.currentTick_eq, hcur]
        have hoff : w₂.offset i = (w₀.offset i + 1) % cfg.maxTick i := by
          rw [hclock.offset_eq, htick.offset_self, hsame i (le_refl i)]
        obtain ⟨w', hrest, hw', hcur', htrig', hx'⟩ :=
          tryUniformFrom_spec hw₀ left (i + 1) w₂ (by omega) (by omega) (hw₁.congr hclock) hcur₂
            (fun j hj => by
              rw [hclock.offset_eq, htick.offset_of_ne j (by omega), hsame j (by omega)])
            (fun hne => by
              -- the digit of level `i` went up by one, more than all digits below it can lose
              rw [Nat.add_sub_cancel, hoff] at hne
              have hlt : w₀.offset i + 1 < cfg.maxTick i := by
                rcases Nat.lt_or_ge (w₀.offset i + 1) (cfg.maxTick i) with hlt | hge
                · exact hlt
                · have := hw₀ i
                  rw [show w₀.offset i + 1 = cfg.maxTick i by omega, Nat.mod_self] at hne
                  exact absurd rfl hne
              rw [Nat.mod_eq_of_lt hlt] at hoff
              rw [lowValue_succ, lowValue_succ, hoff, Nat.add_mul]
              have : placeValue cfg.maxTick i = cfg.levelOffsetTick i := rfl
              omega)
        refine ⟨w', by simp [hrun, hall, hrest], hw', ?_, fun y => ?_,
          fun x => ⟨fun hx => (hx' x).1 ?_, ?_⟩⟩
        · rw [hcur', hclock.currentTick_eq, htick.currentTick_eq]
        · rw [htrig', hclock.triggerTick_eq, htick.data_eq]
        · have hnot : x ∉ l := by rw [htick.due, ← List.count_eq_zero]; exact hx _ _
          intro i' j'
          rw [hcount x hnot]
          exact htick.absent hx i' j'
        · intro t hmid
          obtain ⟨w₂', hall', hmid'⟩ := hmid.tick hw₀ hw hcur hpos htick
          rw [hall] at hall'
          obtain rfl := Option.some.inj hall'
          exact (hx' x).2 t hmid'
      · rename_i hne
        have hg := hgrow hne
        obtain ⟨w', hrest, hw', hcur', htrig', hx'⟩ :=
          tryUniformFrom_spec hw₀ left (i + 1) w (by omega) (by omega) hw hcur
            (fun j hj => hsame j (by omega))
            (fun _ => by
              rw [lowValue_succ, lowValue_succ, hsame i (le_refl i)]
              omega)
        refine ⟨w', hrest, hw', hcur', htrig',
          fun x => ⟨(hx' x).1, fun t hmid => (hx' x).2 t ?_⟩⟩
        obtain ⟨htrig, j, q, hat, hdone, hpend⟩ := hmid
        refine ⟨htrig, j, q, hat, fun hj => ?_, fun hj => hpend (by omega)⟩
        rcases Nat.lt_or_ge j i with hlt | hge
        · exact hdone hlt
        · obtain rfl : j = i := by omega
          have := hpend (le_refl j)
          simp only [OnTime, if_neg (by omega : ¬ j = 0), hcur]
          omega

/-- Raising the lowest digit by one raises every number written above it by one. -/
theorem lowValue_raise {r d d' : Nat → Nat} (h0 : d' 0 = d 0 + 1) (h : ∀ j, j ≠ 0 → d' j = d j) :
    ∀ i, 0 < i → lowValue r d' i = lowValue r d i + 1
  | 1, _ => by simp [lowValue_succ, h0]
  | i + 2, _ => by
      rw [lowValue_succ, lowValue_raise h0 h (i + 1) (by omega), h (i + 1) (by omega),
        lowValue_succ r d (i + 1)]
      omega

/-- One tick: no assertion fails, an absent timer stays absent, and an armed timer either stays
armed or is handed out, once, at its trigger tick or the tick after. -/
theorem runTick_spec (hw : OffsetsOk cfg w) :
    ∃ due w', runTick cfg w = some (due, w') ∧ OffsetsOk cfg w' ∧
      w'.currentTick = w.currentTick + 1 ∧
      (∀ y, (w'.data y).triggerTick = (w.data y).triggerTick) ∧
      ∀ x, (Absent w x → x ∉ due ∧ Absent w' x) ∧
        ∀ t, Armed cfg w x t → (x ∉ due ∧ Armed cfg w' x t) ∨
          (due.count x = 1 ∧ Absent w' x ∧ (w'.currentTick = t ∨ w'.currentTick = t + 1)) := by
  have hwc : OffsetsOk cfg { w with currentTick := w.currentTick + 1 } := hw
  obtain ⟨l, w₁, hrun, htick⟩ := levelRunTick_ticked hwc 0
  have hw₁ := htick.offsetsOk hwc
  have hcur₁ : w₁.currentTick = w.currentTick + 1 := htick.currentTick_eq
  have hdata₁ : w₁.data = w.data := htick.data_eq
  have hoff₁ : w₁.offset 0 = (w.offset 0 + 1) % cfg.maxTick 0 := htick.offset_self
  have hoff_ne : ∀ j, j ≠ 0 → w₁.offset j = w.offset j := htick.offset_of_ne
  have hnowrap : w₁.offset 0 ≠ 0 → w₁.offset 0 = w.offset 0 + 1 := by
    intro hne
    have := hw 0
    rcases Nat.lt_or_ge (w.offset 0 + 1) (cfg.maxTick 0) with hlt | hge
    · rw [hoff₁, Nat.mod_eq_of_lt hlt]
    · rw [hoff₁, show w.offset 0 + 1 = cfg.maxTick 0 by omega, Nat.mod_self] at hne
      exact absurd rfl hne
  -- where an armed timer stands once level 0 has been ticked
  have hmid : ∀ x t, Armed cfg w x t → (x ∉ l ∧ MidTick cfg w w₁ x t 1) ∨
      (l.count x = 1 ∧ Absent w₁ x ∧ (w.currentTick + 1 = t ∨ w.currentTick + 1 = t + 1)) := by
    rintro x t ⟨htrig, j, q, hat, htime⟩
    have hatc : At cfg { w with currentTick := w.currentTick + 1 } x j q :=
      ⟨hat.level_lt, hat.step_lt, hat.count_eq⟩
    rcases Nat.eq_zero_or_pos j with hj | hj
    · subst hj
      simp only [OnTime, if_true] at htime
      cases q with
      | zero =>
        obtain ⟨hmem, habs⟩ := htick.mem_of_zero hwc hatc
        exact Or.inr ⟨hmem, habs, by omega⟩
      | succ q =>
        obtain ⟨hnot, hat₁⟩ := htick.at_pred hwc hatc
        refine Or.inl ⟨hnot, by rw [hdata₁, htrig], 0, q, hat₁, fun _ => ?_, fun h => by omega⟩
        simp only [OnTime, if_true, hcur₁]
        omega
    · have hj' : j ≠ 0 := by omega
      refine Or.inl ⟨htick.not_mem_of_ne hatc hj', by rw [hdata₁, htrig], j, q,
        htick.at_of_ne hatc hj', fun h => by omega, fun _ => ?_⟩
      simpa only [OnTime, if_neg hj'] using htime
  have habs₁ : ∀ x, Absent w x → x ∉ l ∧ Absent w₁ x := fun x hx =>
    ⟨by rw [htick.due, ← List.count_eq_zero]; exact hx _ _, htick.absent hx⟩
  by_cases hend : w₁.offset 0 = 0
  · obtain ⟨w', hrest, hw', hcur', htrig', hx'⟩ :=
      tryUniformFrom_spec hw (cfg.timerLevelCount - 1) 1 w₁
        (by have := cfg.two_lt_timerLevelCount; omega) (by omega) hw₁ hcur₁
        (fun j hj => hoff_ne j (by omega)) (fun hne => absurd hend hne)
    refine ⟨l, w', ?_, hw', by rw [hcur', hcur₁], fun y => by rw [htrig', hdata₁],
      fun x => ⟨fun hx => ⟨(habs₁ x hx).1, (hx' x).1 (habs₁ x hx).2⟩, fun t ht => ?_⟩⟩
    · simp only [runTick, hrun, Option.bind_some, isLevelEnd, hend, beq_self_eq_true, if_true,
        tryUniform, hrest, Option.map_some]
    · rcases hmid x t ht with ⟨hnot, hm⟩ | ⟨hmem, habs, hcases⟩
      · exact Or.inl ⟨hnot, (hx' x).2 t hm⟩
      · exact Or.inr ⟨hmem, (hx' x).1 habs, by rw [hcur', hcur₁]; exact hcases⟩
  · refine ⟨l, w₁, ?_, hw₁, hcur₁, fun y => by rw [hdata₁],
      fun x => ⟨habs₁ x, fun t ht => ?_⟩⟩
    · simp only [runTick, hrun, Option.bind_some, isLevelEnd, beq_iff_eq, if_neg hend]
    · rcases hmid x t ht with ⟨hnot, htrig, j, q, hat, hdone, hpend⟩ | ⟨hmem, habs, hcases⟩
      · refine Or.inl ⟨hnot, htrig, j, q, hat, ?_⟩
        rcases Nat.eq_zero_or_pos j with hj | hj
        · exact hdone (by omega)
        · have := hpend hj
          simp only [OnTime, if_neg (by omega : ¬ j = 0), hcur₁,
            lowValue_raise (hnowrap hend) hoff_ne j hj]
          omega
      · exact Or.inr ⟨hmem, habs, by rw [hcur₁]; exact hcases⟩

/-! ## Runs of the wheel -/

/-- The operations other threads and callbacks make on the wheel, each under the wheel lock. -/
inductive WheelOp (τ : Type) where
  | tick
  | add (pTimer : τ) (iMillisecond : Int) (iTicks : Nat)
  | remove (pTimer : τ)

/-- The operation does not add or remove `x`. -/
def WheelOp.Leaves (x : τ) : WheelOp τ → Prop
  | .tick => True
  | .add y _ _ => y ≠ x
  | .remove y => y ≠ x

/-- One operation: the timers it hands out and the wheel after it. -/
def exec (cfg : LevelConfig) : WheelOp τ → TimerWheel τ → Option (List τ × TimerWheel τ)
  | .tick, w => runTick cfg w
  | .add x iMillisecond iTicks, w => (armTimer cfg w x iMillisecond iTicks).map fun w' => ([], w')
  | .remove x, w => (removeTimer cfg w x).map fun p => ([], p.2)

/-- A run: for each operation the tick it ended on and the timers it handed out, and the wheel at
the end. -/
def runOps (cfg : LevelConfig) :
    TimerWheel τ → List (WheelOp τ) → Option (List (Nat × List τ) × TimerWheel τ)
  | w, [] => some ([], w)
  | w, op :: ops =>
      (exec cfg op w).bind fun p =>
        (runOps cfg p.2 ops).map fun r => ((p.2.currentTick, p.1) :: r.1, r.2)

/-- The ticks at which `x` is handed out, once for each occurrence. -/
def handOuts (x : τ) (log : List (Nat × List τ)) : List Nat :=
  log.flatMap fun e => List.replicate (e.2.count x) e.1

/-- The timer is in exactly one slot of exactly one level, once. -/
def InOneSlot (cfg : LevelConfig) (w : TimerWheel τ) (x : τ) : Prop :=
  ∃ i j, i < cfg.timerLevelCount ∧ j < cfg.maxTick i ∧
    ∀ i' j', (w.tickDatas i' j').count x = if i' = i ∧ j' = j then 1 else 0

theorem Armed.inOneSlot (h : Armed cfg w x t) : InOneSlot cfg w x := by
  obtain ⟨-, i, q, hat, -⟩ := h
  exact ⟨i, _, hat.level_lt, Nat.mod_lt _ (cfg.maxTick_pos i), hat.count_eq⟩

/-- Operations that keep the clock, the trigger tick and the slots of a timer keep it armed. -/
theorem Armed.congr (h : Armed cfg w x t) (hcur : w'.currentTick = w.currentTick)
    (hoff : w'.offset = w.offset) (htrig : (w'.data x).triggerTick = (w.data x).triggerTick)
    (hcount : ∀ i j, (w'.tickDatas i j).count x = (w.tickDatas i j).count x) :
    Armed cfg w' x t := by
  obtain ⟨ht, i, q, hat, htime⟩ := h
  exact ⟨htrig.trans ht, i, q, hat.congr (by rw [hoff]) hcount,
    htime.congr hcur fun j _ => by rw [hoff]⟩

theorem initData_triggerTick (w : TimerWheel τ) (x y : τ) (ms : Int) (k : Nat) :
    ((w.initData y ms k).data x).triggerTick =
      if x = y then w.currentTick + k else (w.data x).triggerTick := by
  by_cases h : x = y
  · subst h; simp [TimerWheel.initData]
  · simp [TimerWheel.initData, h]

variable {op : WheelOp τ}

/-- `AddTimer` never fails an assertion and leaves every other timer as it is. -/
theorem armTimer_frame (hw : OffsetsOk cfg w) (y : τ) (hms : 0 < ms) (hk : 0 < k) :
    ∃ w', armTimer cfg w y ms k = some w' ∧ w'.currentTick = w.currentTick ∧
      w'.offset = w.offset ∧
      ∀ x, x ≠ y → (w'.data x).triggerTick = (w.data x).triggerTick ∧
        ∀ i j, (w'.tickDatas i j).count x = (w.tickDatas i j).count x := by
  have hv : OffsetsOk cfg (w.initData y ms k) := hw
  obtain ⟨w', i, q, hadd, -, -, hplaced, -⟩ := addTimer_placed hv y
  refine ⟨w', by rw [armTimer, if_pos ⟨hms, hk⟩, hadd], hplaced.clock.currentTick_eq,
    hplaced.clock.offset_eq, fun x hx => ⟨?_, fun i j => hplaced.count_of_ne hx i j⟩⟩
  rw [hplaced.clock.triggerTick_eq, initData_triggerTick, if_neg hx]

/-- `AddTimer` arms an absent timer `k` ticks ahead. -/
theorem armTimer_armed (hw : OffsetsOk cfg w) (hx : Absent w x) (hms : 0 < ms) (hk : 0 < k) :
    ∃ w', armTimer cfg w x ms k = some w' ∧ OffsetsOk cfg w' ∧
      w'.currentTick = w.currentTick ∧ Armed cfg w' x (w.currentTick + k) := by
  have hv : OffsetsOk cfg (w.initData x ms k) := hw
  have hvx : Absent (w.initData x ms k) x := hx
  have htrig : ((w.initData x ms k).data x).triggerTick = w.currentTick + k := by
    rw [initData_triggerTick, if_pos rfl]
  obtain ⟨w', i, q, hadd, hclock, hat, h0, hpos⟩ := addTimer_armed hv hvx
    (by rw [htrig]; exact Nat.le_add_right _ _)
  rw [htrig] at h0 hpos
  refine ⟨w', by rw [armTimer, if_pos ⟨hms, hk⟩, hadd], hv.congr hclock, hclock.currentTick_eq,
    by rw [hclock.triggerTick_eq, htrig], i, q, hat, ?_⟩
  rcases Nat.eq_zero_or_pos i with hi | hi
  · subst hi
    exact (h0 rfl).congr hclock.currentTick_eq fun j hj => absurd hj (by omega)
  · have := hpos hi
    simp only [OnTime, if_neg (by omega : ¬ i = 0), hclock.currentTick_eq]
    omega

/-- `RemoveTimer` erases the timer from one slot or changes nothing. -/
theorem removeTimer_self {b : Bool} (h : removeTimer cfg w x = some (b, w')) :
    w' = w ∨ ∃ i j, x ∈ w.tickDatas i j ∧ w' = w.setSlot i j ((w.tickDatas i j).erase x) := by
  simp only [removeTimer] at h
  split at h
  · cases h
  · obtain ⟨_, h⟩ := Option.ite_none_right_eq_some.1 h
    split at h
    · rename_i hmem
      obtain ⟨-, rfl⟩ := Prod.mk.inj (Option.some.inj h)
      exact Or.inr ⟨_, _, hmem, rfl⟩
    · obtain ⟨-, rfl⟩ := Prod.mk.inj (Option.some.inj h)
      exact Or.inl rfl

/-- `RemoveTimer` leaves the clock, all timer data and the slots of every other timer. -/
theorem removeTimer_frame {b : Bool} (h : removeTimer cfg w y = some (b, w')) :
    w'.currentTick = w.currentTick ∧ w'.offset = w.offset ∧ w'.data = w.data ∧
      ∀ x, x ≠ y → ∀ i j, (w'.tickDatas i j).count x = (w.tickDatas i j).count x := by
  rcases removeTimer_self h with rfl | ⟨i, j, -, rfl⟩
  · exact ⟨rfl, rfl, rfl, fun _ _ _ _ => rfl⟩
  · refine ⟨rfl, rfl, rfl, fun x hx i' j' => ?_⟩
    rw [setSlot_tickDatas]
    split
    · rename_i heq
      rw [List.count_erase_of_ne hx, heq.1, heq.2]
    · rfl

theorem armTimer_positive (h : armTimer cfg w y ms k = some w') : 0 < ms ∧ 0 < k := by
  unfold armTimer at h
  split at h
  · assumption
  · exact absurd h (by simp)

/-- Every operation keeps the offsets proper. -/
theorem exec_offsetsOk {due : List τ} (hw : OffsetsOk cfg w) (h : exec cfg op w = some (due, w')) :
    OffsetsOk cfg w' := by
  cases op with
  | tick =>
    obtain ⟨due₁, w₁, hrun, hok, -⟩ := runTick_spec hw
    obtain ⟨-, rfl⟩ := Prod.mk.inj (Option.some.inj (hrun.symm.trans h))
    exact hok
  | add y ms k =>
    simp only [exec, Option.map_eq_some_iff, Prod.mk.injEq] at h
    obtain ⟨w₁, harm, -, rfl⟩ := h
    obtain ⟨hms, hk⟩ := armTimer_positive harm
    obtain ⟨w₂, harm₂, -, hoff, -⟩ := armTimer_frame hw y hms hk
    obtain rfl := Option.some.inj (harm.symm.trans harm₂)
    intro i
    rw [hoff]
    exact hw i
  | remove y =>
    simp only [exec, Option.map_eq_some_iff, Prod.mk.injEq] at h
    obtain ⟨⟨b, w₁⟩, hrem, -, rfl⟩ := h
    intro i
    rw [(removeTimer_frame hrem).2.1]
    exact hw i

/-- An operation that does not add or remove `x` keeps it absent, or armed until it is handed
out. -/
theorem exec_leaves {due : List τ} (hw : OffsetsOk cfg w) (hop : op.Leaves x)
    (h : exec cfg op w = some (due, w')) :
    (Absent w x → due.count x = 0 ∧ Absent w' x) ∧
      ∀ t, Armed cfg w x t → (due.count x = 0 ∧ Armed cfg w' x t) ∨
        (due.count x = 1 ∧ Absent w' x ∧ (w'.currentTick = t ∨ w'.currentTick = t + 1)) := by
  cases op with
  | tick =>
    obtain ⟨due₁, w₁, hrun, -, -, -, hx⟩ := runTick_spec hw
    obtain ⟨rfl, rfl⟩ := Prod.mk.inj (Option.some.inj (hrun.symm.trans h))
    simpa only [List.count_eq_zero] using hx x
  | add y ms k =>
    simp only [exec, Option.map_eq_some_iff, Prod.mk.injEq] at h
    obtain ⟨w₁, harm, rfl, rfl⟩ := h
    obtain ⟨hms, hk⟩ := armTimer_positive harm
    obtain ⟨w₂, harm₂, hcur, hoff, hframe⟩ := armTimer_frame hw y hms hk
    obtain rfl := Option.some.inj (harm.symm.trans harm₂)
    obtain ⟨htrig, hcount⟩ := hframe x (Ne.symm hop)
    exact ⟨fun hx => ⟨rfl, fun i j => by rw [hcount]; exact hx i j⟩,
      fun t ht => Or.inl ⟨rfl, ht.congr hcur hoff htrig hcount⟩⟩
  | remove y =>
    simp only [exec, Option.map_eq_some_iff, Prod.mk.injEq] at h
    obtain ⟨⟨b, w₁⟩, hrem, rfl, rfl⟩ := h
    obtain ⟨hcur, hoff, hdata, hframe⟩ := removeTimer_frame hrem
    have hcount := hframe x (Ne.symm hop)
    exact ⟨fun hx => ⟨rfl, fun i j => by rw [hcount]; exact hx i j⟩,
      fun t ht => Or.inl ⟨rfl, ht.congr hcur hoff (by rw [hdata]) hcount⟩⟩

theorem runOps_cons {ops : List (WheelOp τ)} {log : List (Nat × List τ)}
    (h : runOps cfg w (op :: ops) = some (log, w')) :
    ∃ due w₁ log₁, exec cfg op w = some (due, w₁) ∧ runOps cfg w₁ ops = some (log₁, w') ∧
      log = (w₁.currentTick, due) :: log₁ := by
  simp only [runOps, Option.bind_eq_some_iff, Option.map_eq_some_iff, Prod.exists,
    Prod.mk.injEq] at h
  obtain ⟨due, w₁, hexec, log₁, w₂, hrest, rfl, rfl⟩ := h
  exact ⟨due, w₁, log₁, hexec, hrest, rfl⟩

theorem runOps_offsetsOk :
    ∀ (ops : List (WheelOp τ)) {w w' : TimerWheel τ} {log : List (Nat × List τ)},
      OffsetsOk cfg w → runOps cfg w ops = some (log, w') → OffsetsOk cfg w'
  | [], _, _, _, hw, h => by
      obtain ⟨-, rfl⟩ := Prod.mk.inj (Option.some.inj h)
      exact hw
  | _ :: ops, _, _, _, hw, h => by
      obtain ⟨_, _, _, hexec, hrest, -⟩ := runOps_cons h
      exact runOps_offsetsOk ops (exec_offsetsOk hw hexec) hrest

/-- A run that leaves an absent timer alone never hands it out. -/
theorem runOps_absent {x : τ} :
    ∀ (ops : List (WheelOp τ)) {w w' : TimerWheel τ} {log : List (Nat × List τ)},
      OffsetsOk cfg w → Absent w x → (∀ op ∈ ops, op.Leaves x) →
      runOps cfg w ops = some (log, w') → handOuts x log = [] ∧ Absent w' x
  | [], _, _, _, _, hx, _, h => by
      obtain ⟨rfl, rfl⟩ := Prod.mk.inj (Option.some.inj h)
      exact ⟨rfl, hx⟩
  | op :: ops, w, w', log, hw, hx, hops, h => by
      obtain ⟨due, w₁, log₁, hexec, hrest, rfl⟩ := runOps_cons h
      obtain ⟨hdue, hx₁⟩ := (exec_leaves hw (hops op List.mem_cons_self) hexec).1 hx
      obtain ⟨hlog, hx'⟩ := runOps_absent ops (exec_offsetsOk hw hexec) hx₁
        (fun o ho => hops o (List.mem_cons_of_mem _ ho)) hrest
      exact ⟨by simpa [handOuts, hdue] using hlog, hx'⟩

/-- A run that leaves an armed timer alone hands it out at most once, in time. -/
theorem runOps_armed {x : τ} {t : Nat} :
    ∀ (ops : List (WheelOp τ)) {w w' : TimerWheel τ} {log : List (Nat × List τ)},
      OffsetsOk cfg w → Armed cfg w x t → (∀ op ∈ ops, op.Leaves x) →
      runOps cfg w ops = some (log, w') →
      (handOuts x log = [] ∧ Armed cfg w' x t) ∨
        ((handOuts x log = [t] ∨ handOuts x log = [t + 1]) ∧ Absent w' x)
  | [], _, _, _, _, hx, _, h => by
      obtain ⟨rfl, rfl⟩ := Prod.mk.inj (Option.some.inj h)
      exact Or.inl ⟨rfl, hx⟩
  | op :: ops, w, w', log, hw, hx, hops, h => by
      obtain ⟨due, w₁, log₁, hexec, hrest, rfl⟩ := runOps_cons h
      have hw₁ := exec_offsetsOk hw hexec
      have hops' : ∀ o ∈ ops, o.Leaves x := fun o ho => hops o (List.mem_cons_of_mem _ ho)
      rcases (exec_leaves hw (hops op List.mem_cons_self) hexec).2 t hx with
        ⟨hdue, hx₁⟩ | ⟨hdue, hx₁, htick⟩
      · have := runOps_armed ops hw₁ hx₁ hops' hrest
        simpa [handOuts, hdue] using this
      · obtain ⟨hlog, hx'⟩ := runOps_absent ops hw₁ hx₁ hops' hrest
        have hout : handOuts x ((w₁.currentTick, due) :: log₁) = [w₁.currentTick] := by
          change List.replicate (due.count x) w₁.currentTick ++ handOuts x log₁ = _
          rw [hdue, hlog, List.append_nil, List.replicate_one]
        rw [hout]
        rcases htick with htick | htick
        · exact Or.inr ⟨Or.inl (by rw [htick]), hx'⟩
        · exact Or.inr ⟨Or.inr (by rw [htick]), hx'⟩

omit [DecidableEq τ] in
theorem init_offsetsOk : OffsetsOk cfg (TimerWheel.init τ) := fun i => cfg.maxTick_pos i

/-- **Timer wheel accuracy.** In every state a run reaches, no assertion of `add_timer`,
`TimerLevel::AddTimer` or `RunTick` fails. A timer added there `k` ticks ahead, and neither removed
nor added again, is in exactly one slot of one level and not past its trigger tick until it is
handed out, and it is handed out exactly once, at its trigger tick or the tick after. -/
theorem wheel_hands_out_at_trigger (cfg : LevelConfig) (before : List (WheelOp τ))
    (log₀ : List (Nat × List τ)) (w₀ : TimerWheel τ)
    (h₀ : runOps cfg (TimerWheel.init τ) before = some (log₀, w₀)) :
    (runTick cfg w₀).isSome ∧
      ∀ (x : τ) (ms : Int) (k : Nat), 0 < ms → 0 < k →
        ∃ w₁, armTimer cfg w₀ x ms k = some w₁ ∧
          (Absent w₀ x → ∀ (ops : List (WheelOp τ)) (log : List (Nat × List τ))
            (w : TimerWheel τ), (∀ op ∈ ops, op.Leaves x) → runOps cfg w₁ ops = some (log, w) →
            (handOuts x log = [] ∧ InOneSlot cfg w x ∧ w.currentTick ≤ w₀.currentTick + k) ∨
              ((handOuts x log = [w₀.currentTick + k] ∨
                handOuts x log = [w₀.currentTick + k + 1]) ∧ Absent w x)) := by
  have hw₀ : OffsetsOk cfg w₀ := runOps_offsetsOk before init_offsetsOk h₀
  constructor
  · obtain ⟨due, w', hrun, -⟩ := runTick_spec hw₀
    simp [hrun]
  · intro x ms k hms hk
    obtain ⟨w₁, harm, -⟩ := armTimer_frame hw₀ x hms hk
    refine ⟨w₁, harm, fun hx ops log w hops hrun => ?_⟩
    obtain ⟨w₁', harm', hw₁, -, hx₁⟩ := armTimer_armed hw₀ hx hms hk
    obtain rfl := Option.some.inj (harm.symm.trans harm')
    rcases runOps_armed ops hw₁ hx₁ hops hrun with ⟨hlog, hx'⟩ | hout
    · exact Or.inl ⟨hlog, hx'.inOneSlot, hx'.currentTick_le (runOps_offsetsOk ops hw₁ hrun)⟩
    · exact Or.inr hout

/-- Two levels of two slots under the single last slot: a timer added three ticks ahead is handed
out in a run of four ticks, with another timer added in between. -/
theorem wheel_hands_out_at_three :
    let cfg : LevelConfig := ⟨3, [2, 2, 1], by decide, by decide⟩
    ∃ w₁, armTimer cfg (TimerWheel.init Nat) 7 30 3 = some w₁ ∧
      ∃ log w, runOps cfg w₁ [.tick, .add 8 10 1, .tick, .tick, .tick] = some (log, w) ∧
        (handOuts 7 log = [3] ∨ handOuts 7 log = [4]) ∧ Absent w 7 := by
  intro cfg
  obtain ⟨-, h⟩ := wheel_hands_out_at_trigger cfg [] [] (TimerWheel.init Nat) rfl
  obtain ⟨w₁, harm, hrun⟩ := h 7 30 3 (by decide) (by decide)
  have htick : ((armTimer cfg (TimerWheel.init Nat) 7 30 3).bind fun w₁ =>
      (runOps cfg w₁ [.tick, .add 8 10 1, .tick, .tick, .tick]).map fun r => r.2.currentTick) =
      some 4 := by decide
  rw [harm, Option.bind_some, Option.map_eq_some_iff] at htick
  obtain ⟨⟨log, w⟩, hops, hcur⟩ := htick
  refine ⟨w₁, harm, log, w, hops, ?_⟩
  rcases hrun (fun _ _ => rfl) _ log w (by simp [WheelOp.Leaves]) hops with ⟨-, -, hle⟩ | hout
  · rw [show w.currentTick = 4 from hcur] at hle
    exact absurd hle (by decide)
  · exact hout

end OpenIdea.Timer

import OpenIdea.Lib.MixedRadix

/-!
# The hierarchical timer wheel

The wheel of `BaseTimerManager` (`timer/src/oi_timer_manager.cpp`) and `TimerLevel`
(`timer/inc/oi_timer_level.h`, `timer/src/oi_timer_level.cpp`): the level checks of `Init`,
`add_timer`, `TimerLevel::AddTimer`, `RemoveTimer` and `RunTick`, `try_uniform` and `run_tick`.

A timer is a value of an arbitrary type `τ` (the source's `BaseTimer*`). The slot array of level `i`
is the function `tickDatas i`, of which only the indices below `maxTick i` are ever written. The
functions return `none` exactly where an assertion of the source fails. A level of an accepted
configuration has slots (`maxTick_pos`), and a tick of it is a whole turn of the level below
(`levelOffsetTick_succ`).
-/

set_option autoImplicit false

namespace OpenIdea.Timer

open OpenIdea.Lib.MixedRadix

/-! ## Level configuration -/

/-- The loop of `Init` over `Timer.timer_lvs`: every slot count is a positive 32-bit number and
the running product stays within 32 bits. -/
def levelsInRange : Nat → List Int → Bool
  | _, [] => true
  | total, v :: vs =>
      if v ≤ 0 ∨ v > 0xFFFFFFFF ∨ total * v.toNat > 0xFFFFFFFF then false
      else levelsInRange (total * v.toNat) vs

/-- The checks of `Init` on `Timer.timer_lv_count` and `Timer.timer_lvs`. -/
def initAcceptsLevels (timerLevelCount : Nat) (timerLevels : List Int) : Bool :=
  decide (2 < timerLevelCount) && decide (timerLevels.length = timerLevelCount) &&
    decide (timerLevels[timerLevelCount - 1]? = some 1) && levelsInRange 1 timerLevels

/-- A level configuration that `Init` accepts, with slot counts of at most `2 ^ 31`, so that the
32-bit sum in `TimerLevel::AddTimer` does not wrap. -/
structure LevelConfig where
  timerLevelCount : Nat
  timerLevels : List Int
  accepted : initAcceptsLevels timerLevelCount timerLevels = true
  slots_le : ∀ v ∈ timerLevels, v ≤ 2 ^ 31

namespace LevelConfig

variable (cfg : LevelConfig)

/-- `m_iMaxTick` of level `i`: its number of slots. -/
def maxTick (i : Nat) : Nat := (cfg.timerLevels.getD i 1).toNat

/-- `m_iLevelOffsetTick` of level `i`: the ticks one slot stands for. `Init` multiplies the slot
counts up in 32 bits, which the range check keeps exact. -/
def levelOffsetTick (i : Nat) : Nat := placeValue cfg.maxTick i

end LevelConfig

/-- Three levels with few slots are accepted. -/
theorem fewSlots_accepted : initAcceptsLevels 3 [2, 2, 1] = true := by decide

theorem fewSlots_le : ∀ v ∈ ([2, 2, 1] : List Int), v ≤ 2 ^ 31 := by decide

theorem levelsInRange_pos :
    ∀ (total : Nat) (vs : List Int), levelsInRange total vs = true → ∀ v ∈ vs, 0 < v
  | _, [], _ => by simp
  | total, v :: vs, h => by
      simp only [levelsInRange] at h
      split at h
      · exact absurd h (by simp)
      · rename_i hv
        push Not at hv
        intro u hu
        rcases List.mem_cons.1 hu with rfl | hu
        · exact hv.1
        · exact levelsInRange_pos _ vs h u hu

namespace LevelConfig

variable (cfg : LevelConfig)

theorem accepted_parts :
    2 < cfg.timerLevelCount ∧ cfg.timerLevels.length = cfg.timerLevelCount ∧
      cfg.timerLevels[cfg.timerLevelCount - 1]? = some 1 ∧
      levelsInRange 1 cfg.timerLevels = true := by
  have h := cfg.accepted
  simp only [initAcceptsLevels, Bool.and_eq_true, decide_eq_true_eq] at h
  exact ⟨h.1.1.1, h.1.1.2, h.1.2, h.2⟩

theorem two_lt_timerLevelCount : 2 < cfg.timerLevelCount := cfg.accepted_parts.1

theorem maxTick_pos (i : Nat) : 0 < cfg.maxTick i := by
  obtain ⟨-, -, -, hrange⟩ := cfg.accepted_parts
  unfold maxTick
  rw [List.getD_eq_getElem?_getD]
  cases hi : cfg.timerLevels[i]? with
  | none => simp
  | some v =>
    have hv := levelsInRange_pos 1 _ hrange v (List.mem_of_getElem? hi)
    simp only [Option.getD_some]
    omega

theorem maxTick_le (i : Nat) : cfg.maxTick i ≤ 2 ^ 31 := by
  unfold maxTick
  rw [List.getD_eq_getElem?_getD]
  cases hi : cfg.timerLevels[i]? with
  | none => simp
  | some v =>
    have hv := cfg.slots_le v (List.mem_of_getElem? hi)
    simp only [Option.getD_some]
    omega

@[simp] theorem levelOffsetTick_zero : cfg.levelOffsetTick 0 = 1 := placeValue_zero _

theorem levelOffsetTick_succ (i : Nat) :
    cfg.levelOffsetTick (i + 1) = cfg.levelOffsetTick i * cfg.maxTick i :=
  placeValue_succ _ i

theorem levelOffsetTick_pos (i : Nat) : 0 < cfg.levelOffsetTick i :=
  placeValue_pos cfg.maxTick_pos i

end LevelConfig

/-! ## State -/

/-- `BaseTimer::TimerData`. The calendar time stamp serves diagnostics only and is left out. -/
structure TimerData where
  offsetMilliseconds : Int
  triggerTick : Nat
  currentLevel : Option Nat
  levelTick : Nat
  deriving DecidableEq

/-- The part of `BaseTimerManager` that `m_stWheelMutex` protects. -/
structure TimerWheel (τ : Type) where
  /-- `m_iCurrentTick` -/
  currentTick : Nat
  /-- `m_iOffset` of each level -/
  offset : Nat → Nat
  /-- `m_vTimerTickDatas` of each level: one list of timers per slot -/
  tickDatas : Nat → Nat → List τ
  /-- the `m_stData` of each timer -/
  data : τ → TimerData

/-- The wheel after `Init`. -/
def TimerWheel.init (τ : Type) : TimerWheel τ where
  currentTick := 0
  offset _ := 0
  tickDatas _ _ := []
  data _ := ⟨0, 0, none, 0⟩

/-! ## Operations -/

section Operations

variable {τ : Type} [DecidableEq τ] (cfg : LevelConfig)

/-- Replace the list in slot `j` of level `i`. -/
def TimerWheel.setSlot (w : TimerWheel τ) (i j : Nat) (l : List τ) : TimerWheel τ :=
  { w with tickDatas := Function.update w.tickDatas i (Function.update (w.tickDatas i) j l) }

/-- `TimerLevel::AddTimer`: 32-bit slot index, asserted level offset. -/
def levelAddTimer (w : TimerWheel τ) (i : Nat) (pTimer : τ) (iLevelOffset : Nat) :
    Option (TimerWheel τ) :=
  if iLevelOffset < cfg.maxTick i then
    let iOffset := (iLevelOffset + w.offset i) % 2 ^ 32 % cfg.maxTick i
    let w' := w.setSlot i iOffset (w.tickDatas i iOffset ++ [pTimer])
    some { w' with
      data := Function.update w.data pTimer
        { w.data pTimer with currentLevel := some i, levelTick := iOffset } }
  else none

/-- The loop of `add_timer` with `left` levels below the last one still to try, from level `i`
on. A timer no level takes goes to the single slot of the last level. -/
def addTimerFrom (w : TimerWheel τ) (pTimer : τ) (iOffset : Nat) :
    Nat → Nat → Option (TimerWheel τ)
  | 0, _ => levelAddTimer cfg w (cfg.timerLevelCount - 1) pTimer 0
  | left + 1, i =>
      let iLevelOffset := iOffset / cfg.levelOffsetTick i
      if iLevelOffset < 1 then none
      else if iLevelOffset - 1 ≥ cfg.maxTick i then addTimerFrom w pTimer iOffset left (i + 1)
      else levelAddTimer cfg w i pTimer (iLevelOffset - 1)

/-- `add_timer`. The subtraction is truncated: a trigger tick already reached gives `0` and, as in
the source, the next tick. -/
def addTimer (w : TimerWheel τ) (pTimer : τ) : Option (TimerWheel τ) :=
  let iOffset := (w.data pTimer).triggerTick - w.currentTick
  addTimerFrom cfg w pTimer (if iOffset = 0 then 1 else iOffset) (cfg.timerLevelCount - 1) 0

/-- Add the timers of a redistributed slot one by one. -/
def addAll : TimerWheel τ → List τ → Option (TimerWheel τ)
  | w, [] => some w
  | w, x :: xs => (addTimer cfg w x).bind fun w' => addAll w' xs

/-- The locked part of `TimerLevel::RunTick`: take the list of the current slot and move on. -/
def levelRunTick (w : TimerWheel τ) (i : Nat) : Option (List τ × TimerWheel τ) :=
  if w.offset i < cfg.maxTick i then
    let vCurrentList := w.tickDatas i (w.offset i)
    let w' := w.setSlot i (w.offset i) []
    let next := if w.offset i + 1 ≥ cfg.maxTick i then 0 else w.offset i + 1
    some (vCurrentList, { w' with offset := Function.update w.offset i next })
  else none

/-- `TimerLevel::IsLevelEnd` -/
def isLevelEnd (w : TimerWheel τ) (i : Nat) : Bool := w.offset i == 0

/-- The loop of `try_uniform` with `left` levels to go, from level `i` on: a level is ticked and
its slot redistributed whenever the level below sits at offset `0`. -/
def tryUniformFrom : Nat → Nat → TimerWheel τ → Option (TimerWheel τ)
  | 0, _, w => some w
  | left + 1, i, w =>
      if isLevelEnd w (i - 1) then
        (levelRunTick cfg w i).bind fun p =>
          (addAll cfg p.2 p.1).bind fun w' => tryUniformFrom left (i + 1) w'
      else tryUniformFrom left (i + 1) w

/-- `try_uniform` -/
def tryUniform (w : TimerWheel τ) : Option (TimerWheel τ) :=
  tryUniformFrom cfg (cfg.timerLevelCount - 1) 1 w

/-- `run_tick`: the timers due at the new tick and the wheel after it. -/
def runTick (w : TimerWheel τ) : Option (List τ × TimerWheel τ) :=
  (levelRunTick cfg { w with currentTick := w.currentTick + 1 } 0).bind fun p =>
    if isLevelEnd p.2 0 then (tryUniform cfg p.2).map fun w' => (p.1, w') else some p

/-- `BaseTimer::InitData`, past its assertions. -/
def TimerWheel.initData (w : TimerWheel τ) (pTimer : τ) (iMillisecond : Int) (iTicks : Nat) :
    TimerWheel τ :=
  { w with
    data := Function.update w.data pTimer
      { w.data pTimer with
        offsetMilliseconds := iMillisecond, triggerTick := w.currentTick + iTicks } }

/-- `InitData` followed by `add_timer`: how `AddTimer` and the renewal in `run_timer` arm a timer
`iTicks` ticks ahead. `InitData` asserts that both numbers are positive. -/
def armTimer (w : TimerWheel τ) (pTimer : τ) (iMillisecond : Int) (iTicks : Nat) :
    Option (TimerWheel τ) :=
  if 0 < iMillisecond ∧ 0 < iTicks then
    addTimer cfg (w.initData pTimer iMillisecond iTicks) pTimer
  else none

/-- `RemoveTimer`: the slot is the one the timer's own data names. `none` when the timer was
never added (a null level) or the data names no slot of the level. -/
def removeTimer (w : TimerWheel τ) (pTimer : τ) : Option (Bool × TimerWheel τ) :=
  let d := w.data pTimer
  match d.currentLevel with
  | none => none
  | some i =>
      if d.levelTick < cfg.maxTick i then
        let l := w.tickDatas i d.levelTick
        if pTimer ∈ l then some (true, w.setSlot i d.levelTick (l.erase pTimer))
        else some (false, w)
      else none

end Operations

end OpenIdea.Timer

import OpenIdea.Lib.Calendar

/-!
# Calendar periods

`CivilDays` numbers the days, and two timestamps are in different days, weeks, months or years where
the slots of their local dates are different. The offset of a caller moves the line between two
days.

`civilDays_date` says that the formula is the number of the date, `crossWeekday_date` that a weekday
has been crossed where a date after the one and up to the other falls on it.
-/

set_option autoImplicit false

namespace OpenIdea.Timer.Periods

open Lib.Calendar

/-! ## Machine integers -/

def InInt (n : ℤ) : Prop := -2 ^ 31 ≤ n ∧ n < 2 ^ 31

def InInt64 (n : ℤ) : Prop := -2 ^ 63 ≤ n ∧ n < 2 ^ 63

instance (n : ℤ) : Decidable (InInt n) := inferInstanceAs (Decidable (_ ∧ _))

instance (n : ℤ) : Decidable (InInt64 n) := inferInstanceAs (Decidable (_ ∧ _))

/-- The result of an `int` operation. There is none where it overflows: the behaviour of the program
is then undefined. -/
def int (n : ℤ) : Option ℤ := if InInt n then some n else none

/-- The result of an `int64_t` operation. -/
def int64 (n : ℤ) : Option ℤ := if InInt64 n then some n else none

theorem int_eq {n : ℤ} (h : InInt n) : int n = some n := if_pos h

theorem int64_eq {n : ℤ} (h : InInt64 n) : int64 n = some n := if_pos h

/-! ## Days -/

/-- `FloorDiv`. The operators of C++ round towards zero. -/
def floorDiv (iFirst iSecond : ℤ) : ℤ :=
  let iQ := iFirst.tdiv iSecond
  let iR := iFirst.tmod iSecond
  if iR ≠ 0 ∧ decide (iFirst < 0) ≠ decide (iSecond < 0) then iQ - 1 else iQ

/-- `CivilDays`. -/
def civilDays (iYear : ℤ) (iMonth iDay : UInt32) : Option ℤ := do
  let iYear ← int (iYear - if iMonth ≤ 2 then 1 else 0)
  let iFrom ← int (if 0 ≤ iYear then iYear else iYear - 399)
  let iEra := iFrom.tdiv 400
  let iYears ← int (iEra * 400)
  let iLeft ← int (iYear - iYears)
  let iYoe := UInt32.ofInt iLeft
  -- the offset of the month is an `int`, and becomes unsigned when it is added
  let iDoy := (153 * (iMonth + UInt32.ofInt (if 2 < iMonth then -3 else 9)) + 2) / 5 + iDay - 1
  let iDoe := iYoe * 365 + iYoe / 4 - iYoe / 100 + iDoy
  let iDays ← int64 (iEra * 146097 + iDoe.toNat)
  int64 (iDays - 719468)


/-! ## The day formula -/

/-- The year and the numbers that are derived from it are `int`s. -/
def FitsInt (d : Date) : Prop :=
  InInt d.year ∧ -2 ^ 31 ≤ d.year - (if d.month ≤ 2 then 1 else 0) - 399

instance (d : Date) : Decidable (FitsInt d) := inferInstanceAs (Decidable (_ ∧ _))

theorem floorDiv_eq (a : ℤ) {b : ℤ} (hb : 0 < b) : floorDiv a b = a / b := by
  by_cases hdvd : b ∣ a
  · have hrest : a.tmod b = 0 := Int.dvd_iff_tmod_eq_zero.1 hdvd
    simp only [floorDiv, hrest, ne_eq, not_true_eq_false, false_and, ↓reduceIte]
    exact Int.tdiv_eq_ediv_of_dvd hdvd
  · have hrest : a.tmod b ≠ 0 := fun h => hdvd (Int.dvd_iff_tmod_eq_zero.2 h)
    rcases lt_or_ge a 0 with ha | ha
    · -- rounded towards zero, the quotient is one too large
      have hdiv : a.tdiv b = a / b + 1 := by
        rw [Int.tdiv_eq_ediv, if_neg (not_or.2 ⟨ha.not_ge, hdvd⟩), Int.sign_eq_one_of_pos hb]
      simp only [floorDiv, hdiv, ha, hb.not_gt]
      simpa using hrest
    · simp only [floorDiv, ha.not_gt, hb.not_gt]
      simpa using Int.tdiv_eq_ediv_of_nonneg ha

/-- Below zero the era is rounded towards zero from the last year of the era. -/
theorem era_eq (y : ℤ) : (if 0 ≤ y then y else y - 399).tdiv 400 = y / 400 := by
  split
  case isTrue h => exact Int.tdiv_eq_ediv_of_nonneg h
  case isFalse h =>
    rw [Int.tdiv_eq_ediv]
    split
    case isTrue hdvd => omega
    case isFalse hdvd =>
      have hsign : Int.sign 400 = 1 := rfl
      omega

theorem ofNat_le_two {m : ℕ} (h : m ≤ 12) : UInt32.ofNat m ≤ 2 ↔ m ≤ 2 := by
  rw [UInt32.le_iff_toNat_le, UInt32.toNat_ofNat']
  simp only [UInt32.reduceToNat]
  omega

theorem monthDays {m : ℕ} (hpos : 1 ≤ m) (hle : m ≤ 12) :
    ((153 * (UInt32.ofNat m + UInt32.ofInt (if 2 < UInt32.ofNat m then -3 else 9)) + 2) / 5).toNat =
      (153 * (if 2 < m then m - 3 else m + 9) + 2) / 5 := by
  interval_cases m
  all_goals decide

/-- The sum that is made of unsigned integers does not wrap. -/
theorem dayOfEra {u m d : UInt32} (hu : u.toNat < 400) (hm : m.toNat ≤ 337) (hpos : 1 ≤ d.toNat)
    (hle : d.toNat ≤ 31) : (u * 365 + u / 4 - u / 100 + (m + d - 1)).toNat =
      u.toNat * 365 + u.toNat / 4 - u.toNat / 100 + (m.toNat + d.toNat - 1) := by
  simp only [UInt32.toNat_add, UInt32.toNat_sub, UInt32.toNat_mul, UInt32.toNat_div,
    UInt32.reduceToNat]
  omega

/-- The sum of the formula, for the year from March on. -/
theorem number_eq (d : Date) {y : ℤ} (hy : d.year - (if d.month ≤ 2 then 1 else 0) = y) :
    d.number = y / 400 * 146097 + (y % 400 * 365 + y % 400 / 4 - y % 400 / 100 +
      ((153 * (if 2 < d.month then d.month - 3 else d.month + 9) + 2) / 5 + d.day - 1 : ℕ)) -
        719468 := by
  have hleap := Date.leaps_eq d.year
  have hday_pos := d.day_pos
  have hmonth_pos := d.month_pos
  have hmonth_le := d.month_le
  have hstart : Date.leaps 1969 = 477 := by decide
  simp only [Date.number, Date.daysBeforeYear, hstart]
  generalize d.month = m at *
  by_cases hm : m ≤ 2
  · -- the year of the formula is the one before
    rw [if_pos hm] at hy
    rw [if_neg (not_lt.2 hm)]
    have hleaps : Date.leaps (d.year - 1) = y / 4 - y / 100 + y / 400 := by
      rw [hy, Date.leaps]
    interval_cases m
    · simp only [Date.daysBeforeMonth]
      omega
    · simp only [Date.daysBeforeMonth, daysInMonth]
      omega
  · rw [if_neg hm] at hy
    have hmonths : Date.daysBeforeMonth d.year m =
        59 + (if IsLeap d.year then 1 else 0) + ((153 * (m - 3) + 2) / 5) := by
      interval_cases m
      all_goals
        simp only [Date.daysBeforeMonth, daysInMonth]
        split
        · rfl
        · rfl
    have hleaps : Date.leaps d.year = y / 4 - y / 100 + y / 400 := by
      rw [← hy, sub_zero, Date.leaps]
    rw [hmonths, if_pos (not_le.1 hm)]
    push_cast
    omega

theorem number_bounds {d : Date} (h : FitsInt d) : -2 ^ 40 ≤ d.number ∧ d.number < 2 ^ 40 := by
  obtain ⟨⟨hlow, hhigh⟩, -⟩ := h
  have hmonth_le := d.month_le
  have hday_le : d.day ≤ 31 := d.day_le.trans (daysInMonth_le d.year d.month)
  have hmonth : (if 2 < d.month then d.month - 3 else d.month + 9) ≤ 11 := by
    split
    · omega
    · omega
  rw [number_eq d rfl]
  split
  · omega
  · omega

/-- **`CivilDays` is the number of the date.** -/
theorem civilDays_date {d : Date} (h : FitsInt d) :
    civilDays d.year (UInt32.ofNat d.month) (UInt32.ofNat d.day) = some d.number := by
  obtain ⟨⟨hlow, hhigh⟩, hera⟩ := h
  have hmonth_pos := d.month_pos
  have hmonth_le := d.month_le
  have hday_pos := d.day_pos
  have hday_le : d.day ≤ 31 := d.day_le.trans (daysInMonth_le d.year d.month)
  have hmonth : UInt32.ofNat d.month ≤ 2 ↔ d.month ≤ 2 := ofNat_le_two hmonth_le
  have hdays := monthDays hmonth_pos hmonth_le
  have hday : (UInt32.ofNat d.day).toNat = d.day := by
    rw [UInt32.toNat_ofNat']
    omega
  have hnumber := number_eq d rfl
  have hyear : d.year - (if d.month ≤ 2 then 1 else 0) < 2 ^ 31 := by
    split
    · omega
    · omega
  simp only [civilDays, hmonth]
  generalize d.year - (if d.month ≤ 2 then 1 else 0) = y at hera hnumber hyear
  have hyoe : (UInt32.ofInt (y - y / 400 * 400)).toNat = (y % 400).toNat := by
    rw [UInt32.ofInt, UInt32.toNat_ofNat']
    omega
  have hfrom : InInt (if 0 ≤ y then y else y - 399) := by
    unfold InInt
    split
    · omega
    · omega
  have hm : ((153 * (UInt32.ofNat d.month + UInt32.ofInt
      (if 2 < UInt32.ofNat d.month then -3 else 9)) + 2) / 5).toNat ≤ 337 := by
    rw [hdays]
    split
    · omega
    · omega
  have hdoe := dayOfEra (by rw [hyoe]; omega) hm (by rw [hday]; exact hday_pos)
    (by rw [hday]; exact hday_le)
  rw [hyoe, hdays, hday] at hdoe
  have hint : InInt y ∧ InInt (y / 400 * 400) ∧ InInt (y - y / 400 * 400) := by
    unfold InInt
    omega
  simp only [int_eq hint.1, int_eq hfrom, era_eq, int_eq hint.2.1, int_eq hint.2.2,
    Option.bind_eq_bind, Option.bind_some, hdoe]
  rw [hdays] at hm
  generalize (153 * (if 2 < d.month then d.month - 3 else d.month + 9) + 2) / 5 = before
    at hm hnumber
  have hsum : y / 400 * 146097 + ((y % 400).toNat * 365 + (y % 400).toNat / 4 -
      (y % 400).toNat / 100 + (before + d.day - 1) : ℕ) = d.number + 719468 := by
    omega
  have hfits : InInt64 (d.number + 719468) ∧ InInt64 d.number := by
    unfold InInt64
    omega
  rw [hsum, int64_eq hfits.1, Option.bind_some, add_sub_cancel_right, int64_eq hfits.2]

/-! ## Slots -/

/-- The fields of `struct tm` that are used. -/
structure Tm where
  tm_year : ℤ
  tm_mon : ℤ
  tm_mday : ℤ
  deriving DecidableEq

/-- `localtime_r`, with the time zone of the process: `none` is `NULL`. It is given a `time_t`. -/
structure LocalTime where
  localtime : ℤ → Option Tm
  clock : ∀ t, (localtime t).isSome → InInt64 t

section Slots

variable (T : LocalTime)

/-- `ToLocal`. -/
def toLocal (iTimestamp iOffsetSecondsLocal : ℤ) : Option (Option Tm) := do
  let iShifted ← int64 (iTimestamp + iOffsetSecondsLocal)
  some (T.localtime iShifted)

/-- `DayOf`. -/
def dayOf (stLocal : Tm) : Option ℤ := do
  let iYear ← int (stLocal.tm_year + 1900)
  civilDays iYear (UInt32.ofInt stLocal.tm_mon + 1) (UInt32.ofInt stLocal.tm_mday)

/-- `WeekStarting`. -/
def weekStarting (stLocal : Tm) (iWeekday : ℤ) : Option ℤ := do
  let iDay ← dayOf stLocal
  let iFirst ← int64 (iDay + (4 - iWeekday))
  some (floorDiv iFirst 7)

/-- `enum Weekday`. -/
inductive Weekday
  | sunday
  | monday
  | tuesday
  | wednesday
  | thursday
  | friday
  | saturday
  deriving DecidableEq

def Weekday.toNat : Weekday → ℕ
  | .sunday => 0
  | .monday => 1
  | .tuesday => 2
  | .wednesday => 3
  | .thursday => 4
  | .friday => 5
  | .saturday => 6

theorem Weekday.toNat_lt (w : Weekday) : w.toNat < 7 := by
  cases w
  all_goals decide

/-- `WeekOf`. -/
def weekOf (stLocal : Tm) : Option ℤ := weekStarting stLocal Weekday.monday.toNat

/-- `KnownWeekday`. -/
def knownWeekday (iWeekday : ℤ) : Bool :=
  decide (Weekday.sunday.toNat ≤ iWeekday ∧ iWeekday ≤ Weekday.saturday.toNat)

/-- `MonthOf`. -/
def monthOf (stLocal : Tm) : Option ℤ := int64 (stLocal.tm_year * 12 + stLocal.tm_mon)

/-- `YearOf`. -/
def yearOf (stLocal : Tm) : Option ℤ := some stLocal.tm_year

/-- `Slot`: there is no slot where there is no local time. -/
def slot (iTimestamp iOffsetSecondsLocal : ℤ) (fnSlotOf : Tm → Option ℤ) : Option (Option ℤ) := do
  match ← toLocal T iTimestamp iOffsetSecondsLocal with
  | none => some none
  | some stLocal => (fnSlotOf stLocal).map some

/-- `WeekdaySlot`. -/
def weekdaySlot (iTimestamp iWeekday iOffsetSecondsLocal : ℤ) : Option (Option ℤ) :=
  if knownWeekday iWeekday then
    slot T iTimestamp iOffsetSecondsLocal fun stLocal => weekStarting stLocal iWeekday
  else some none

/-- Both slots are compared. The second one is not looked for where the first one is missing. -/
def compareSlots (stLeft stRight : Option (Option ℤ)) (fnCompare : ℤ → ℤ → Bool) :
    Option Bool := do
  match ← stLeft with
  | none => some false
  | some iLeft =>
      match ← stRight with
      | none => some false
      | some iRight => some (fnCompare iLeft iRight)

/-- `PeriodOf`. -/
def periodOf (iTimestamp iOffsetSecondsLocal : ℤ) (fnSlotOf : Tm → Option ℤ) : Option ℤ :=
  (slot T iTimestamp iOffsetSecondsLocal fnSlotOf).map fun iSlot => iSlot.getD 0

/-- `SameOf`. -/
def sameOf (iFirst iSecond iOffsetSecondsLocal : ℤ) (fnSlotOf : Tm → Option ℤ) : Option Bool :=
  compareSlots (slot T iFirst iOffsetSecondsLocal fnSlotOf)
    (slot T iSecond iOffsetSecondsLocal fnSlotOf) fun iLeft iRight => iLeft = iRight

/-- `CrossOf`. -/
def crossOf (iOldTimestamp iNowTimestamp iOffsetSecondsLocal : ℤ) (fnSlotOf : Tm → Option ℤ) :
    Option Bool :=
  compareSlots (slot T iOldTimestamp iOffsetSecondsLocal fnSlotOf)
    (slot T iNowTimestamp iOffsetSecondsLocal fnSlotOf) fun iOldSlot iNowSlot => iOldSlot < iNowSlot

/-- `DayPeriod`. -/
def dayPeriod (iTimestamp iOffsetSecondsLocal : ℤ) : Option ℤ :=
  periodOf T iTimestamp iOffsetSecondsLocal dayOf

/-- `SameDay`. -/
def sameDay (iFirst iSecond iOffsetSecondsLocal : ℤ) : Option Bool :=
  sameOf T iFirst iSecond iOffsetSecondsLocal dayOf

/-- `CrossDay`. -/
def crossDay (iOldTimestamp iNowTimestamp iOffsetSecondsLocal : ℤ) : Option Bool :=
  crossOf T iOldTimestamp iNowTimestamp iOffsetSecondsLocal dayOf

/-- `CrossWeek`. -/
def crossWeek (iOldTimestamp iNowTimestamp iOffsetSecondsLocal : ℤ) : Option Bool :=
  crossOf T iOldTimestamp iNowTimestamp iOffsetSecondsLocal weekOf

/-- `CrossWeekday`. -/
def crossWeekday (iOldTimestamp iNowTimestamp iWeekday iOffsetSecondsLocal : ℤ) : Option Bool :=
  compareSlots (weekdaySlot T iOldTimestamp iWeekday iOffsetSecondsLocal)
    (weekdaySlot T iNowTimestamp iWeekday iOffsetSecondsLocal)
    fun iOldSlot iNowSlot => iOldSlot < iNowSlot

/-- `CrossMonth`. -/
def crossMonth (iOldTimestamp iNowTimestamp iOffsetSecondsLocal : ℤ) : Option Bool :=
  crossOf T iOldTimestamp iNowTimestamp iOffsetSecondsLocal monthOf

/-- `CrossYear`. -/
def crossYear (iOldTimestamp iNowTimestamp iOffsetSecondsLocal : ℤ) : Option Bool :=
  crossOf T iOldTimestamp iNowTimestamp iOffsetSecondsLocal yearOf

/-! ## Local dates -/

/-- The fields of a date. -/
def tmOf (d : Date) : Tm := ⟨d.year - 1900, d.month - 1, d.day⟩

/-- Where the year or a number derived from it is no `int`, there is no day. -/
theorem civilDays_eq {d : Date} (h : InInt d.year) :
    civilDays d.year (UInt32.ofNat d.month) (UInt32.ofNat d.day) =
      if FitsInt d then some d.number else none := by
  split
  case isTrue hfits => exact civilDays_date hfits
  case isFalse hfits =>
    have hmonth : UInt32.ofNat d.month ≤ 2 ↔ d.month ≤ 2 := ofNat_le_two d.month_le
    have hlow : ¬(-2 ^ 31 ≤ d.year - (if d.month ≤ 2 then 1 else 0) - 399) := fun hlow =>
      hfits ⟨h, hlow⟩
    simp only [civilDays, hmonth]
    generalize d.year - (if d.month ≤ 2 then 1 else 0) = y at hlow
    have hneg : ¬(0 ≤ y) := by omega
    have hfrom : int (y - 399) = none := if_neg fun hfrom => hlow hfrom.1
    cases hy : int y with
    | none => rfl
    | some n =>
      obtain rfl : y = n := (Option.ite_none_right_eq_some.1 hy).2 |> Option.some.inj
      simp only [Option.bind_eq_bind, Option.bind_some, if_neg hneg, hfrom, Option.bind_none]

theorem dayOf_date {d : Date} (h : FitsInt d) : dayOf (tmOf d) = some d.number := by
  have hmonth : UInt32.ofInt (d.month - 1) + 1 = UInt32.ofNat d.month := by
    have hpos := d.month_pos
    have hle := d.month_le
    apply UInt32.toNat_inj.1
    simp only [UInt32.ofInt, UInt32.toNat_add, UInt32.toNat_ofNat', UInt32.reduceToNat]
    omega
  have hday : UInt32.ofInt d.day = UInt32.ofNat d.day := by
    have hle : d.day ≤ 31 := d.day_le.trans (daysInMonth_le d.year d.month)
    rw [UInt32.ofInt]
    congr 1
    omega
  simp only [dayOf, tmOf, sub_add_cancel, int_eq h.1, hmonth, hday, Option.bind_eq_bind,
    Option.bind_some]
  exact civilDays_date h

theorem weekStarting_date {d : Date} (h : FitsInt d) (w : Weekday) :
    weekStarting (tmOf d) w.toNat = some ((d.number + (4 - w.toNat)) / 7) := by
  have hfits : InInt64 (d.number + (4 - w.toNat)) := by
    have hbounds := number_bounds h
    have hw := w.toNat_lt
    unfold InInt64
    omega
  simp only [weekStarting, dayOf_date h, int64_eq hfits,
    floorDiv_eq _ (show (0 : ℤ) < 7 by decide), Option.bind_eq_bind, Option.bind_some]

variable {T} {a b off na nb : ℤ} {ta tb : Tm} {f : Tm → Option ℤ} {da db : Date}

theorem slot_eq (h : T.localtime (a + off) = some ta) : slot T a off f = (f ta).map some := by
  have hclock : InInt64 (a + off) := T.clock (a + off) (by rw [h]; rfl)
  simp only [slot, toLocal, int64_eq hclock, h, Option.bind_eq_bind, Option.bind_some]

theorem crossOf_eq (ha : T.localtime (a + off) = some ta) (hb : T.localtime (b + off) = some tb)
    (hfa : f ta = some na) (hfb : f tb = some nb) :
    crossOf T a b off f = some (decide (na < nb)) := by
  rw [crossOf, slot_eq ha, slot_eq hb, hfa, hfb]
  rfl

theorem crossDay_date (ha : T.localtime (a + off) = some (tmOf da))
    (hb : T.localtime (b + off) = some (tmOf db)) (hda : FitsInt da) (hdb : FitsInt db) :
    crossDay T a b off = some (decide (da < db)) := by
  rw [crossDay, crossOf_eq ha hb (dayOf_date hda) (dayOf_date hdb)]
  simp only [Date.number_lt_iff]

/-- `CrossWeekday` compares the slots as the others do, where the weekday is one. -/
theorem crossWeekday_eq (T : LocalTime) (a b off : ℤ) (w : Weekday) :
    crossWeekday T a b w.toNat off =
      crossOf T a b off fun stLocal => weekStarting stLocal w.toNat := by
  have hknown : knownWeekday w.toNat = true := by
    cases w
    all_goals rfl
  simp only [crossWeekday, weekdaySlot, hknown, ↓reduceIte]
  rfl

theorem crossWeekday_date (ha : T.localtime (a + off) = some (tmOf da))
    (hb : T.localtime (b + off) = some (tmOf db)) (hda : FitsInt da) (hdb : FitsInt db)
    (w : Weekday) : ∃ r, crossWeekday T a b w.toNat off = some r ∧
      (r = true ↔ ∃ d : Date, da < d ∧ d ≤ db ∧ d.weekday = w.toNat) := by
  refine ⟨decide ((da.number + (4 - w.toNat)) / 7 < (db.number + (4 - w.toNat)) / 7), ?_,
    decide_eq_true_iff.trans ⟨?_, ?_⟩⟩
  · rw [crossWeekday_eq]
    exact crossOf_eq ha hb (weekStarting_date hda w) (weekStarting_date hdb w)
  · intro hlt
    -- the day that begins the later week
    obtain ⟨d, hd⟩ := Date.exists_number ((db.number + (4 - w.toNat)) / 7 * 7 - 4 + w.toNat)
    refine ⟨d, ?_, ?_, ?_⟩
    · rw [← Date.number_lt_iff]
      omega
    · rw [← Date.number_le_iff]
      omega
    · rw [Date.weekday_eq_iff w.toNat_lt]
      omega
  · rintro ⟨d, hafter, hupto, hday⟩
    rw [← Date.number_lt_iff] at hafter
    rw [← Date.number_le_iff] at hupto
    rw [Date.weekday_eq_iff w.toNat_lt] at hday
    omega

/-- The weeks of `CrossWeek` begin on Monday. -/
theorem crossWeek_eq (T : LocalTime) (a b off : ℤ) :
    crossWeek T a b off = crossWeekday T a b Weekday.monday.toNat off := by
  rw [crossWeekday_eq]
  rfl

theorem sameDay_date (ha : T.localtime (a + off) = some (tmOf da))
    (hb : T.localtime (b + off) = some (tmOf db)) (hda : FitsInt da) (hdb : FitsInt db) :
    sameDay T a b off = some (decide (da = db)) := by
  rw [sameDay, sameOf, slot_eq ha, slot_eq hb, dayOf_date hda, dayOf_date hdb]
  simp only [compareSlots, Option.map_some, Option.bind_eq_bind, Option.bind_some,
    Date.number_injective.eq_iff]

theorem dayPeriod_date (ha : T.localtime (a + off) = some (tmOf da)) (hda : FitsInt da) :
    dayPeriod T a off = some da.number := by
  rw [dayPeriod, periodOf, slot_eq ha, dayOf_date hda]
  rfl

theorem crossYear_date (ha : T.localtime (a + off) = some (tmOf da))
    (hb : T.localtime (b + off) = some (tmOf db)) :
    crossYear T a b off = some (decide (da.year < db.year)) := by
  rw [crossYear, crossOf_eq ha hb rfl rfl]
  simp only [tmOf, sub_lt_sub_iff_right]

theorem crossMonth_date (ha : T.localtime (a + off) = some (tmOf da))
    (hb : T.localtime (b + off) = some (tmOf db)) (hda : FitsInt da) (hdb : FitsInt db) :
    crossMonth T a b off =
      some (decide (da.year < db.year ∨ da.year = db.year ∧ da.month < db.month)) := by
  have hmonth : ∀ d : Date, FitsInt d →
      monthOf (tmOf d) = some ((d.year - 1900) * 12 + (d.month - 1)) := by
    intro d ⟨⟨hlow, hhigh⟩, _⟩
    have hle := d.month_le
    apply int64_eq
    simp only [InInt64, tmOf]
    omega
  have hpos := da.month_pos
  have hle := da.month_le
  have hpos' := db.month_pos
  have hle' := db.month_le
  rw [crossMonth, crossOf_eq ha hb (hmonth da hda) (hmonth db hdb), Option.some_inj,
    decide_eq_decide]
  omega

end Slots

/-- **Calendar periods are exact.** The number of a date is what `CivilDays` says, for every date that
fits the arithmetic, and one more for each next date. A day has been crossed where the local dates
are different days in this order, and a weekday where a date after the one and up to the other falls
on it. -/
theorem periods_exact :
    (Date.epoch.number = 0 ∧ (∀ d : Date, d.next.number = d.number + 1) ∧
      ∀ d : Date, InInt d.year → civilDays d.year (UInt32.ofNat d.month) (UInt32.ofNat d.day) =
        if FitsInt d then some d.number else none) ∧
    ∀ (T : LocalTime) (a b off : ℤ) (da db : Date), T.localtime (a + off) = some (tmOf da) →
      T.localtime (b + off) = some (tmOf db) → FitsInt da → FitsInt db →
      crossDay T a b off = some (decide (da < db)) ∧
      ∀ w : Weekday, ∃ r, crossWeekday T a b w.toNat off = some r ∧
        (r = true ↔ ∃ d : Date, da < d ∧ d ≤ db ∧ d.weekday = w.toNat) := by
  refine ⟨⟨Date.number_epoch, Date.number_next, fun d => civilDays_eq⟩, ?_⟩
  intro T a b off da db ha hb hda hdb
  exact ⟨crossDay_date ha hb hda hdb, crossWeekday_date ha hb hda hdb⟩

/-- **The other periods go by the same dates.** A week has been crossed where a Monday has; a month
or a year where it is a later one; two times are of one day where they have one date, and the period
of a day is the number of its date. -/
theorem periods_of_dates (T : LocalTime) (a b off : ℤ) {da db : Date}
    (ha : T.localtime (a + off) = some (tmOf da)) (hb : T.localtime (b + off) = some (tmOf db))
    (hda : FitsInt da) (hdb : FitsInt db) :
    (∃ r, crossWeek T a b off = some r ∧
      (r = true ↔ ∃ d : Date, da < d ∧ d ≤ db ∧ d.weekday = Weekday.monday.toNat)) ∧
    crossMonth T a b off =
      some (decide (da.year < db.year ∨ da.year = db.year ∧ da.month < db.month)) ∧
    crossYear T a b off = some (decide (da.year < db.year)) ∧
    sameDay T a b off = some (decide (da = db)) ∧ dayPeriod T a off = some da.number := by
  refine ⟨?_, crossMonth_date ha hb hda hdb, crossYear_date ha hb, sameDay_date ha hb hda hdb,
    dayPeriod_date ha hda⟩
  rw [crossWeek_eq]
  exact crossWeekday_date ha hb hda hdb .monday

/-- The first month of the numbering, in a zone without an offset. -/
def january : LocalTime where
  localtime t := if 0 ≤ t ∧ t < 31 * 86400 then some ⟨70, 0, t / 86400 + 1⟩ else none
  clock t h := by
    split at h
    case isTrue ht =>
      unfold InInt64
      omega
    case isFalse ht => cases h

/-- A second before midnight, with an hour of offset, and the next noon. -/
theorem periods_exact_january :
    crossDay january 82799 129600 3600 = some true ∧
    ∃ r, crossWeekday january 82799 129600 Weekday.friday.toNat 3600 = some r ∧
      (r = true ↔ ∃ d : Date, Date.epoch < d ∧ d ≤ Date.epoch.next ∧
        d.weekday = Weekday.friday.toNat) := by
  obtain ⟨hday, hweek⟩ := periods_exact.2 january 82799 129600 3600 Date.epoch Date.epoch.next
    (by decide) (by decide) (by decide) (by decide)
  exact ⟨hday, hweek .friday⟩

theorem periods_of_dates_january :
    crossMonth january 82799 129600 3600 = some false ∧
      sameDay january 82799 129600 3600 = some false ∧ dayPeriod january 82799 3600 = some 0 := by
  obtain ⟨-, hmonth, -, hsame, hperiod⟩ := @periods_of_dates january 82799 129600 3600 Date.epoch
    Date.epoch.next (by decide) (by decide) (by decide) (by decide)
  exact ⟨hmonth, hsame, hperiod⟩

end OpenIdea.Timer.Periods

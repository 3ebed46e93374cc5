import Mathlib.Tactic

/-!
# The proleptic Gregorian calendar

Dates of any year, the next date and the one before, and the number of a date: 1970-01-01 has number
0, and each date has one more than the date before it (`number_next`), so there is no other such
numbering (`number_unique`). The dates in their order and their numbers are alike (`number_lt_iff`),
and every integer is the number of a date.
-/

set_option autoImplicit false

namespace OpenIdea.Lib.Calendar

/-- Every fourth year, but of the centuries only every fourth. -/
def IsLeap (y : ℤ) : Prop := 4 ∣ y ∧ (100 ∣ y → 400 ∣ y)

instance (y : ℤ) : Decidable (IsLeap y) := inferInstanceAs (Decidable (4 ∣ y ∧ (100 ∣ y → 400 ∣ y)))

/-- January is month 1. -/
def daysInMonth (y : ℤ) : ℕ → ℕ
  | 2 => if IsLeap y then 29 else 28
  | 4 | 6 | 9 | 11 => 30
  | _ => 31

theorem daysInMonth_pos (y : ℤ) (m : ℕ) : 1 ≤ daysInMonth y m := by
  unfold daysInMonth
  split
  · split
    · decide
    · decide
  all_goals decide

theorem daysInMonth_le (y : ℤ) (m : ℕ) : daysInMonth y m ≤ 31 := by
  unfold daysInMonth
  split
  · split
    · decide
    · decide
  all_goals decide

/-- A date that is in the calendar. -/
@[ext] structure Date where
  year : ℤ
  month : ℕ
  day : ℕ
  month_pos : 1 ≤ month
  month_le : month ≤ 12
  day_pos : 1 ≤ day
  day_le : day ≤ daysInMonth year month
  deriving DecidableEq

namespace Date

/-- The first day of a month. -/
def first (y : ℤ) (m : ℕ) (hpos : 1 ≤ m) (hle : m ≤ 12) : Date :=
  ⟨y, m, 1, hpos, hle, Nat.le_refl 1, daysInMonth_pos y m⟩

/-- The last day of a month. -/
def last (y : ℤ) (m : ℕ) (hpos : 1 ≤ m) (hle : m ≤ 12) : Date :=
  ⟨y, m, daysInMonth y m, hpos, hle, daysInMonth_pos y m, Nat.le_refl _⟩

/-- 1970-01-01. -/
def epoch : Date := first 1970 1 (by decide) (by decide)

/-- The date after `d`. -/
def next (d : Date) : Date :=
  if hday : d.day < daysInMonth d.year d.month then
    ⟨d.year, d.month, d.day + 1, d.month_pos, d.month_le, Nat.le_add_left 1 _, hday⟩
  else if hmonth : d.month < 12 then first d.year (d.month + 1) (Nat.le_add_left 1 _) hmonth
  else first (d.year + 1) 1 (by decide) (by decide)

/-- The date before `d`. -/
def prev (d : Date) : Date :=
  if hday : 1 < d.day then
    ⟨d.year, d.month, d.day - 1, d.month_pos, d.month_le, by omega, by have := d.day_le; omega⟩
  else if hmonth : 1 < d.month then
    last d.year (d.month - 1) (by omega) (by have := d.month_le; omega)
  else last (d.year - 1) 12 (by decide) (by decide)

theorem next_last {y : ℤ} {m : ℕ} (hpos : 1 ≤ m) (hlt : m < 12) :
    (last y m hpos hlt.le).next = first y (m + 1) (Nat.le_add_left 1 m) hlt := by
  simp only [next, last, lt_irrefl, ↓reduceDIte, hlt]

theorem next_last_december {y : ℤ} :
    (last y 12 (by decide) (by decide)).next = first (y + 1) 1 (by decide) (by decide) := by
  simp only [next, last, lt_irrefl, ↓reduceDIte]

theorem next_prev (d : Date) : d.prev.next = d := by
  have hday_le := d.day_le
  have hday_pos := d.day_pos
  have hmonth_pos := d.month_pos
  have hmonth_le := d.month_le
  unfold prev
  split
  case isTrue hday =>
    have hroom : d.day - 1 < daysInMonth d.year d.month := by omega
    rw [next, dif_pos hroom]
    ext
    · rfl
    · rfl
    · show d.day - 1 + 1 = d.day
      omega
  case isFalse hday =>
    split
    case isTrue hmonth =>
      rw [next_last (by omega) (by omega)]
      ext
      · rfl
      · show d.month - 1 + 1 = d.month
        omega
      · show 1 = d.day
        omega
    case isFalse hmonth =>
      rw [next_last_december]
      ext
      · show d.year - 1 + 1 = d.year
        omega
      · show 1 = d.month
        omega
      · show 1 = d.day
        omega

/-! ### Numbers -/

/-- The leap years up to `y`, counted from a fixed one. -/
def leaps (y : ℤ) : ℤ := y / 4 - y / 100 + y / 400

theorem leaps_eq (y : ℤ) : leaps y = leaps (y - 1) + if IsLeap y then 1 else 0 := by
  by_cases h : IsLeap y
  · rw [if_pos h]
    unfold IsLeap at h
    unfold leaps
    omega
  · rw [if_neg h]
    unfold IsLeap at h
    unfold leaps
    omega

/-- The days from 1970-01-01 to the first day of year `y`. -/
def daysBeforeYear (y : ℤ) : ℤ := 365 * (y - 1970) + (leaps (y - 1) - leaps 1969)

/-- The days of a year before month `m`. -/
def daysBeforeMonth (y : ℤ) : ℕ → ℕ
  | 0 => 0
  | 1 => 0
  | m + 2 => daysBeforeMonth y (m + 1) + daysInMonth y (m + 1)

theorem daysBeforeMonth_succ (y : ℤ) {m : ℕ} (h : 1 ≤ m) :
    daysBeforeMonth y (m + 1) = daysBeforeMonth y m + daysInMonth y m := by
  cases m with
  | zero => exact absurd h (by decide)
  | succ m => rfl

theorem daysBeforeMonth_end (y : ℤ) :
    daysBeforeMonth y 13 = 365 + if IsLeap y then 1 else 0 := by
  simp only [daysBeforeMonth, daysInMonth]
  split
  · rfl
  · rfl

theorem daysBeforeYear_succ (y : ℤ) :
    daysBeforeYear (y + 1) = daysBeforeYear y + daysBeforeMonth y 13 := by
  have hleaps := leaps_eq y
  rw [daysBeforeMonth_end, daysBeforeYear, daysBeforeYear, show y + 1 - 1 = y by omega, hleaps]
  push_cast
  split
  · omega
  · omega

/-- The number of a date: the days from 1970-01-01 on. -/
def number (d : Date) : ℤ :=
  daysBeforeYear d.year + daysBeforeMonth d.year d.month + (d.day - 1 : ℤ)

theorem number_epoch : epoch.number = 0 := by decide

/-- **Each next day is exactly one more.** -/
theorem number_next (d : Date) : d.next.number = d.number + 1 := by
  have hday_le := d.day_le
  have hday_pos := d.day_pos
  have hmonth := daysBeforeMonth_succ d.year d.month_pos
  unfold next
  split
  case isTrue hday =>
    simp only [number]
    push_cast
    omega
  case isFalse hday =>
    split
    case isTrue hlt =>
      simp only [number, first, hmonth]
      push_cast
      omega
    case isFalse hlt =>
      -- the last day of December
      have hlast : d.month = 12 := by
        have := d.month_le
        omega
      have hfirst : daysBeforeMonth (d.year + 1) 1 = 0 := rfl
      rw [hlast] at hmonth hday hday_le
      simp only [number, first, hlast, daysBeforeYear_succ, hmonth, hfirst]
      push_cast
      omega

theorem number_prev (d : Date) : d.prev.number = d.number - 1 := by
  have hnext := number_next d.prev
  rw [next_prev] at hnext
  omega

/-- Every integer is the number of a date. -/
theorem exists_number (n : ℤ) : ∃ d : Date, d.number = n := by
  induction n using Int.induction_on with
  | zero => exact ⟨epoch, number_epoch⟩
  | succ n ih =>
    obtain ⟨d, hd⟩ := ih
    exact ⟨d.next, by rw [number_next, hd]⟩
  | pred n ih =>
    obtain ⟨d, hd⟩ := ih
    exact ⟨d.prev, by rw [number_prev, hd]⟩

/-! ### The order of dates -/

/-- By year, then by month, then by day. -/
def key (d : Date) : ℤ ×ₗ ℕ ×ₗ ℕ := toLex (d.year, toLex (d.month, d.day))

theorem key_injective : Function.Injective key := by
  intro d e h
  obtain ⟨hyear, hrest⟩ := Prod.mk.inj (toLex.injective h)
  obtain ⟨hmonth, hday⟩ := Prod.mk.inj (toLex.injective hrest)
  exact Date.ext hyear hmonth hday

instance : LinearOrder Date := LinearOrder.lift' key key_injective

theorem lt_iff {d e : Date} : d < e ↔ d.year < e.year ∨
    d.year = e.year ∧ (d.month < e.month ∨ d.month = e.month ∧ d.day < e.day) := by
  show key d < key e ↔ _
  rw [key, key, Prod.Lex.toLex_lt_toLex, Prod.Lex.toLex_lt_toLex]

theorem daysBeforeMonth_mono (y : ℤ) {m m' : ℕ} (hpos : 1 ≤ m) (h : m ≤ m') :
    daysBeforeMonth y m ≤ daysBeforeMonth y m' := by
  induction m', h using Nat.le_induction with
  | base => exact Nat.le_refl _
  | succ k hk ih =>
    rw [daysBeforeMonth_succ y (hpos.trans hk)]
    exact ih.trans (Nat.le_add_right _ _)

theorem daysBeforeYear_mono {y y' : ℤ} (h : y ≤ y') : daysBeforeYear y ≤ daysBeforeYear y' := by
  unfold daysBeforeYear leaps
  omega

/-- A date is before the first day of the next month. -/
theorem number_lt_month (d : Date) :
    d.number < daysBeforeYear d.year + daysBeforeMonth d.year (d.month + 1) := by
  have hday_le := d.day_le
  rw [number, daysBeforeMonth_succ d.year d.month_pos]
  push_cast
  omega

theorem number_lt_of_lt {d e : Date} (h : d < e) : d.number < e.number := by
  have hd := number_lt_month d
  have he : daysBeforeYear e.year + daysBeforeMonth e.year e.month ≤ e.number := by
    have := e.day_pos
    rw [number]
    omega
  rcases lt_iff.1 h with hyear | ⟨hyear, hmonth | ⟨hmonth, hday⟩⟩
  · have hall : daysBeforeMonth d.year (d.month + 1) ≤ daysBeforeMonth d.year 13 :=
      daysBeforeMonth_mono d.year (Nat.le_add_left 1 d.month) (Nat.succ_le_succ d.month_le)
    have hsucc := daysBeforeYear_succ d.year
    have hmono := daysBeforeYear_mono (show d.year + 1 ≤ e.year by omega)
    omega
  · have hmono := daysBeforeMonth_mono d.year (Nat.le_add_left 1 d.month) hmonth
    rw [← hyear] at he
    omega
  · rw [number, number, hyear, hmonth]
    omega

theorem number_lt_iff {d e : Date} : d.number < e.number ↔ d < e := by
  refine ⟨fun h => ?_, number_lt_of_lt⟩
  rcases lt_trichotomy d e with hlt | rfl | hgt
  · exact hlt
  · exact absurd h (lt_irrefl _)
  · exact absurd (number_lt_of_lt hgt) (lt_asymm h)

theorem number_le_iff {d e : Date} : d.number ≤ e.number ↔ d ≤ e := by
  rw [← not_lt, ← not_lt, number_lt_iff]

theorem number_injective : Function.Injective number := by
  intro d e h
  rcases lt_trichotomy d e with hlt | heq | hgt
  · exact absurd h (number_lt_of_lt hlt).ne
  · exact heq
  · exact absurd h (number_lt_of_lt hgt).ne'

/-- There is no other numbering of the days. -/
theorem number_unique {f : Date → ℤ} (hepoch : f epoch = 0) (hnext : ∀ d, f d.next = f d + 1)
    (d : Date) : f d = d.number := by
  have hall : ∀ n : ℤ, ∀ d : Date, d.number = n → f d = n := by
    intro n
    induction n using Int.induction_on with
    | zero =>
      intro d hd
      rw [number_injective (hd.trans number_epoch.symm), hepoch]
    | succ n ih =>
      intro d hd
      have hprev := ih d.prev (by rw [number_prev, hd]; omega)
      have hstep := hnext d.prev
      rw [next_prev, hprev] at hstep
      exact hstep
    | pred n ih =>
      intro d hd
      have hthere := ih d.next (by rw [number_next, hd]; omega)
      rw [hnext] at hthere
      omega
  exact hall d.number d rfl

/-! ### Weekdays -/

/-- The weekday, from Sunday, which is 0: 1970-01-01 is a Thursday. -/
def weekday (d : Date) : ℕ := ((d.number + 4) % 7).toNat

theorem weekday_epoch : epoch.weekday = 4 := by decide

theorem weekday_next (d : Date) : d.next.weekday = (d.weekday + 1) % 7 := by
  rw [weekday, weekday, number_next]
  omega

theorem weekday_eq_iff {d : Date} {w : ℕ} (hw : w < 7) :
    d.weekday = w ↔ (d.number + 4 - w) % 7 = 0 := by
  rw [weekday]
  omega

end Date

end OpenIdea.Lib.Calendar

import Kmsrs.Db.Date

/-! The dates in their order and the numbers of their days. The number of a valid date is
that of its year, the months before its own and its day, so the dates and the day numbers
are in one order, and each is the other's. -/

namespace Kmsrs.Db

open Calendar

/-- How many days the months before a month of the year have. -/
def daysBefore (year : ℤ) (month : ℕ) : ℕ := ((List.range' 1 (month - 1)).map (daysInMonth year)).sum

theorem daysBefore_succ (year : ℤ) {month : ℕ} (hpos : 1 ≤ month) :
    daysBefore year (month + 1) = daysBefore year month + daysInMonth year month := by
  obtain ⟨before, rfl⟩ : ∃ before, month = before + 1 := ⟨month - 1, by omega⟩
  rw [daysBefore, daysBefore, Nat.add_sub_cancel, Nat.add_sub_cancel, List.range'_1_concat, List.map_append, List.sum_append,
    Nat.add_comm before 1]
  simp

theorem daysBefore_mono (year : ℤ) {month later : ℕ} (hpos : 1 ≤ month) (h : month ≤ later) :
    daysBefore year month ≤ daysBefore year later := by
  induction later, h using Nat.le_induction with
  | base => exact le_rfl
  | succ later hle ih =>
    rw [daysBefore_succ year (hpos.trans hle)]
    exact ih.trans (Nat.le_add_right ..)

/-- A leap year is one day longer; it begins in the year from March before. -/
theorem march_of_leap (year : ℤ) : march year = march (year - 1) + if isLeapYear year then 366 else 365 := by
  simp only [march, isLeapYear, Bool.and_eq_true, Bool.or_eq_true, decide_eq_true_eq]
  split_ifs with hleap <;> omega

/-- The days before a month, from the first of March on. -/
theorem daysBefore_eq (year : ℤ) {month : ℕ} (hpos : 1 ≤ month) (hle : month ≤ 12) : (daysBefore year month : ℤ) =
    if 2 < month then march year - march (year - 1) - 306 + (153 * (month - 3 : ℤ) + 2) / 5
    else (153 * (month + 9 : ℤ) + 2) / 5 - 306 := by
  have hyear := march_of_leap year
  cases hleap : isLeapYear year <;> rw [hleap] at hyear <;> interval_cases month <;>
    simp [daysBefore, List.range', daysInMonth, hleap, hyear]

/-- The days of a year. -/
theorem daysBefore_thirteen (year : ℤ) : daysBefore year 13 = if isLeapYear year then 366 else 365 := by
  cases hleap : isLeapYear year <;> simp [daysBefore, List.range', daysInMonth, hleap]

namespace Date

theorem valid_iff {date : Date} : date.Valid ↔
    (1 ≤ date.month ∧ date.month ≤ 12) ∧ 1 ≤ date.day ∧ date.day ≤ daysInMonth date.year date.month := by
  rw [Valid, new]
  split_ifs with hrange hlong
  · simp only [false_iff]
    omega
  · simp only [false_iff]
    omega
  · simp only [true_iff]
    omega

/-- The number of a date is that of its year, the months before its own and its day. -/
theorem dayNumber_eq {date : Date} (h : date.Valid) :
    date.dayNumber = march (date.year - 1) + 306 + daysBefore date.year date.month + date.day - 1 := by
  obtain ⟨⟨hpos, hmonth⟩, -, -⟩ := valid_iff.mp h
  rw [daysBefore_eq date.year hpos hmonth, dayNumber]
  split_ifs <;> ring

theorem valid_ofDayNumber (number : ℤ) : (ofDayNumber number).Valid := by
  obtain ⟨hfrom, hto⟩ := yearOf_spec number
  have hleap := march_of_leap (yearOf number + 1)
  rw [add_sub_cancel_right] at hleap
  rw [valid_iff]
  unfold ofDayNumber
  extract_lets dayOfYear month day
  have hday : 0 ≤ dayOfYear ∧ dayOfYear < if isLeapYear (yearOf number + 1) then 366 else 365 := by
    simp only [dayOfYear]
    omega
  have hmonth : month = (5 * dayOfYear + 2) / 153 := rfl
  have hpos : 0 ≤ month := by omega
  have hle : month ≤ 11 := by split_ifs at hday <;> omega
  have hdays : day = dayOfYear - (153 * month + 2) / 5 + 1 := rfl
  clear_value dayOfYear month day
  -- the length of the month is read off it, of February by the year it is in
  interval_cases month <;> simp [daysInMonth] <;> split_ifs at hday ⊢ <;> omega

/-! ### The order of the dates -/

theorem fields_injective : Function.Injective fun date : Date => toLex (date.year, toLex (date.month, date.day)) := by
  rintro ⟨year, month, day⟩ ⟨year', month', day'⟩ h
  simpa using h

/-- By year, month and day. -/
instance : LinearOrder Date := LinearOrder.lift' _ fields_injective

theorem lt_iff {earlier later : Date} : earlier < later ↔ earlier.year < later.year ∨
    earlier.year = later.year ∧ (earlier.month < later.month ∨ earlier.month = later.month ∧ earlier.day < later.day) := by
  change toLex (earlier.year, toLex (earlier.month, earlier.day)) < toLex (later.year, toLex (later.month, later.day)) ↔ _
  simp only [Prod.Lex.toLex_lt_toLex]

/-- The dates and their numbers are in one order. -/
theorem dayNumber_lt_dayNumber {earlier later : Date} (hearlier : earlier.Valid) (hlater : later.Valid) (h : earlier < later) :
    earlier.dayNumber < later.dayNumber := by
  rcases lt_iff.mp h with hyear | ⟨hyear, hmonth | ⟨hmonth, hday⟩⟩
  · have hend := (dayNumber_lt_iff hearlier _).mpr le_rfl
    have hbegin : ¬ later.dayNumber < march earlier.year + 306 := mt (dayNumber_lt_iff hlater _).mp (by omega)
    omega
  · obtain ⟨⟨hpos, -⟩, -, hlast⟩ := valid_iff.mp hearlier
    obtain ⟨-, hfirst, -⟩ := valid_iff.mp hlater
    have hmonths := daysBefore_mono later.year (by omega) (Nat.succ_le_of_lt hmonth)
    rw [Nat.succ_eq_add_one, daysBefore_succ _ hpos] at hmonths
    rw [dayNumber_eq hearlier, dayNumber_eq hlater, hyear]
    rw [hyear] at hlast
    omega
  · rw [dayNumber_eq hearlier, dayNumber_eq hlater, hyear, hmonth]
    omega

theorem le_iff_dayNumber_le {a b : Date} (ha : a.Valid) (hb : b.Valid) : a ≤ b ↔ a.dayNumber ≤ b.dayNumber := by
  constructor
  · intro hle
    rcases hle.lt_or_eq with hlt | rfl
    · exact (dayNumber_lt_dayNumber ha hb hlt).le
    · exact le_rfl
  · intro hle
    by_contra hlt
    exact absurd (dayNumber_lt_dayNumber hb ha (lt_of_not_ge hlt)) (not_lt_of_ge hle)

theorem dayNumber_injective {a b : Date} (ha : a.Valid) (hb : b.Valid) (h : a.dayNumber = b.dayNumber) : a = b :=
  le_antisymm ((le_iff_dayNumber_le ha hb).mpr h.le) ((le_iff_dayNumber_le hb ha).mpr h.ge)

/-- A day's number gives the day. -/
theorem ofDayNumber_dayNumber {date : Date} (h : date.Valid) : ofDayNumber date.dayNumber = date :=
  dayNumber_injective (valid_ofDayNumber _) h (dayNumber_ofDayNumber _)

/-! ### The day after -/

/-- The day after a date: of the month, of the next, or of the next year. -/
def dayAfter (date : Date) : Date :=
  if date.day < daysInMonth date.year date.month then { date with day := date.day + 1 }
  else if date.month < 12 then { date with month := date.month + 1, day := 1 }
  else ⟨date.year + 1, 1, 1⟩

theorem daysInMonth_pos (year : ℤ) {month : ℕ} (hpos : 1 ≤ month) (hle : month ≤ 12) : 1 ≤ daysInMonth year month := by
  cases hleap : isLeapYear year <;> interval_cases month <;> simp [daysInMonth, hleap]

theorem valid_dayAfter {date : Date} (h : date.Valid) : date.dayAfter.Valid := by
  obtain ⟨⟨hpos, hmonth⟩, hday, hlast⟩ := valid_iff.mp h
  rw [dayAfter]
  split_ifs with hsame hnext
  · exact valid_iff.mpr ⟨⟨hpos, hmonth⟩, Nat.le_add_left .., hsame⟩
  · exact valid_iff.mpr ⟨⟨Nat.le_add_left .., hnext⟩, le_rfl, daysInMonth_pos _ (Nat.le_add_left ..) hnext⟩
  · exact new_januaryFirst _

theorem dayNumber_dayAfter {date : Date} (h : date.Valid) : date.dayAfter.dayNumber = date.dayNumber + 1 := by
  obtain ⟨⟨hpos, hmonth⟩, hday, hlast⟩ := valid_iff.mp h
  have hafter := dayNumber_eq (valid_dayAfter h)
  rw [hafter, dayNumber_eq h, dayAfter]
  split_ifs with hsame hnext
  · push_cast
    ring
  · have hwhole : date.day = daysInMonth date.year date.month := by omega
    rw [daysBefore_succ _ hpos, hwhole]
    push_cast
    ring
  · have hwhole : date.day = daysInMonth date.year date.month := by omega
    have hyear := daysBefore_thirteen date.year
    have hleap := march_of_leap date.year
    have hdecember : date.month = 12 := by omega
    rw [hdecember] at hwhole ⊢
    rw [daysBefore_succ _ (by norm_num), ← hwhole] at hyear
    have hjanuary : daysBefore (date.year + 1) 1 = 0 := rfl
    simp only [add_sub_cancel_right, hjanuary]
    split_ifs at hyear hleap <;> omega

/-! ### Without saturation -/

theorem daysSinceEpoch_of_valid {date : Date} (h : date.Valid) (hlow : -5000000 ≤ date.year) (hhigh : date.year ≤ 5000001) :
    date.daysSinceEpoch = date.dayNumber - epochShift := by
  obtain ⟨-, hmonth, hpos, hday, -⟩ := h.bounds
  have hbefore := (dayNumber_lt_iff h _).mpr hhigh
  have hmost : march 5000001 < 1900000000 := by decide
  rw [daysSinceEpoch_eq hlow (by omega) hmonth hpos hday, min_eq_right (by omega)]

theorem fromDaysSinceEpoch_daysSinceEpoch {date : Date} (h : date.Valid) (hlow : -5000000 ≤ date.year)
    (hhigh : date.year ≤ 5000000) : fromDaysSinceEpoch date.daysSinceEpoch = date := by
  have hfrom := le_dayNumber hlow (valid_iff.mp h).2.1
  have hto := (dayNumber_lt_iff h _).mpr hhigh
  have hmost : march 5000000 < 1900000000 := by decide
  simp only [epochShift] at hfrom
  rw [daysSinceEpoch_of_valid h hlow (by omega), epochShift, fromDaysSinceEpoch_eq (by omega) (by omega), epochShift,
    sub_add_cancel, ofDayNumber_dayNumber h]

theorem daysSinceEpoch_fromDaysSinceEpoch {days : ℤ} (hlow : -2 ^ 31 ≤ days) (hhigh : days ≤ 2 ^ 31 - 1 - epochShift) :
    (fromDaysSinceEpoch days).daysSinceEpoch = days := by
  simp only [epochShift] at hhigh
  have hnumber := dayNumber_ofDayNumber (days + epochShift)
  have hyear := year_ofDayNumber_le_iff (days + epochShift) (2 ^ 31 - 1)
  have hmost : 2 ^ 31 < march (2 ^ 31 - 1) := by decide
  obtain ⟨hmonth, hday, hmonthEnd⟩ := ofDayNumber_bounds (days + epochShift)
  rw [fromDaysSinceEpoch_eq hlow (by omega), daysSinceEpoch_of_le (by omega) (by simp only [epochShift] at *; omega) hmonth hday hmonthEnd,
    hnumber, min_eq_right (by simp only [epochShift]; omega), add_sub_cancel_right]

theorem daysBefore_add_day_le {date : Date} (h : date.Valid) :
    daysBefore date.year date.month + date.day ≤ if isLeapYear date.year then 366 else 365 := by
  obtain ⟨⟨hpos, hmonth⟩, -, hlast⟩ := valid_iff.mp h
  have hyear := daysBefore_mono date.year (Nat.le_add_left 1 date.month) (by omega : date.month + 1 ≤ 13)
  rw [daysBefore_succ _ hpos, daysBefore_thirteen] at hyear
  omega

theorem dayOfYear_eq {date : Date} (h : date.Valid) (hlow : -5000000 ≤ date.year) (hhigh : date.year ≤ 5000000) :
    date.dayOfYear = 1 + daysBefore date.year date.month + (date.day - 1) := by
  have hjanuary : (⟨date.year, 1, 1⟩ : Date).Valid := new_januaryFirst date.year
  have hfirst : (⟨date.year, 1, 1⟩ : Date).dayNumber = march (date.year - 1) + 306 := by simp [dayNumber]
  have hday := (valid_iff.mp h).2.1
  have hlong := daysBefore_add_day_le h
  have hyear : (if isLeapYear date.year then 366 else 365) ≤ 366 := by split_ifs <;> norm_num
  rw [dayOfYear, new_januaryFirst]
  dsimp only
  rw [daysSinceEpoch_of_valid h hlow (by omega), daysSinceEpoch_of_valid hjanuary hlow (by simp only; omega), hfirst, dayNumber_eq h]
  simp (disch := omega) only [saturate_eq]
  rw [if_pos (by omega)]
  omega

/-- The conversions are the calendar's: each undoes the other, they keep the order, and the
day after has the next number. The day of the year counts the months before. -/
theorem calendar_exact :
    (∀ days : ℤ, -2 ^ 31 ≤ days → days ≤ 2 ^ 31 - 1 - epochShift →
      (fromDaysSinceEpoch days).Valid ∧ (fromDaysSinceEpoch days).daysSinceEpoch = days) ∧
    ∀ date : Date, date.Valid → |date.year| ≤ 5000000 →
      fromDaysSinceEpoch date.daysSinceEpoch = date ∧
      (∀ later : Date, later.Valid → |later.year| ≤ 5000000 → date < later → date.daysSinceEpoch < later.daysSinceEpoch) ∧
      date.dayAfter.daysSinceEpoch = date.daysSinceEpoch + 1 ∧
      date.dayOfYear = 1 + daysBefore date.year date.month + (date.day - 1) ∧
      1 ≤ date.dayOfYear ∧ date.dayOfYear ≤ if isLeapYear date.year then 366 else 365 := by
  constructor
  · intro days hlow hhigh
    refine ⟨?_, daysSinceEpoch_fromDaysSinceEpoch hlow hhigh⟩
    rw [fromDaysSinceEpoch_eq hlow (by simp only [epochShift] at hhigh; omega)]
    exact valid_ofDayNumber _
  · intro date hvalid hyear
    obtain ⟨hlow, hhigh⟩ := abs_le.mp hyear
    have hafter : date.dayAfter.year = date.year ∨ date.dayAfter.year = date.year + 1 := by
      rw [dayAfter]
      split_ifs <;> simp
    have hnumber := daysSinceEpoch_of_valid hvalid hlow (by omega)
    have hcount := dayOfYear_eq hvalid hlow hhigh
    have hlong := daysBefore_add_day_le hvalid
    have hpos := (valid_iff.mp hvalid).2.1
    refine ⟨fromDaysSinceEpoch_daysSinceEpoch hvalid hlow hhigh, ?_, ?_, hcount, by omega, by omega⟩
    · intro later hlater hlaterYear hlt
      obtain ⟨hlow', hhigh'⟩ := abs_le.mp hlaterYear
      have horder := dayNumber_lt_dayNumber hvalid hlater hlt
      rw [hnumber, daysSinceEpoch_of_valid hlater hlow' (by omega)]
      omega
    · rw [hnumber, daysSinceEpoch_of_valid (valid_dayAfter hvalid) (by omega) (by omega), dayNumber_dayAfter hvalid]
      ring

end Date

end Kmsrs.Db

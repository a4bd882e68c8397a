import Kmsrs.Lib.Calendar

/-! Dates, in UTC. The conversions are in saturating arithmetic of 32 bits; up to five
million years nothing saturates, and they are the calendar's. -/

namespace Kmsrs.Db

open Calendar

structure Date where
  year : ℤ
  month : ℕ
  day : ℕ
deriving DecidableEq

def isLeapYear (year : ℤ) : Bool := year % 4 = 0 && (year % 100 ≠ 0 || year % 400 = 0)

def daysInMonth (year : ℤ) (month : ℕ) : ℕ :=
  if month ∈ [1, 3, 5, 7, 8, 10, 12] then 31
  else if month ∈ [4, 6, 9, 11] then 30
  else if month = 2 then if isLeapYear year then 29 else 28
  else 0

/-- The result of a saturating operation of 32 bits. -/
def saturate (value : ℤ) : ℤ := max (-2 ^ 31) (min (2 ^ 31 - 1) value)

namespace Date

def new (year : ℤ) (month day : ℕ) : Option Date :=
  if month < 1 ∨ 12 < month ∨ day < 1 then none
  else if daysInMonth year month < day then none
  else some ⟨year, month, day⟩

def epochShift : ℤ := 719468

def daysPerEra : ℤ := 146097

/-- Days since 1970-01-01. -/
def daysSinceEpoch (date : Date) : ℤ :=
  let year := if date.month ≤ 2 then saturate (date.year - 1) else date.year
  let era := year / 400
  let yearOfEra := saturate (year - saturate (era * 400))
  let shiftedMonth : ℤ := if 2 < date.month then saturate (date.month - 3) else saturate (date.month + 9)
  let dayOfYear := saturate (saturate (saturate (saturate (153 * shiftedMonth) + 2) / 5 + date.day) - 1)
  let dayOfEra := saturate (saturate (saturate (saturate (yearOfEra * 365) + yearOfEra / 4) - yearOfEra / 100) + dayOfYear)
  saturate (saturate (saturate (era * daysPerEra) + dayOfEra) - epochShift)

/-- `u8::try_from`, or zero. -/
def byteOr0 (value : ℤ) : ℕ := if 0 ≤ value ∧ value < 256 then value.toNat else 0

/-- The date of a day that is counted from the first of March of year zero. -/
def ofShifted (shifted : ℤ) : Date :=
  let era := shifted / daysPerEra
  let dayOfEra := saturate (shifted - saturate (era * daysPerEra))
  let yearOfEra := saturate (saturate (saturate (dayOfEra - dayOfEra / 1460) + dayOfEra / 36524) -
    dayOfEra / saturate (daysPerEra - 1)) / 365
  let year := saturate (yearOfEra + saturate (era * 400))
  let dayOfYear := saturate (dayOfEra -
    saturate (saturate (saturate (yearOfEra * 365) + yearOfEra / 4) - yearOfEra / 100))
  let shiftedMonth := saturate (saturate (dayOfYear * 5) + 2) / 153
  let day := saturate (saturate (dayOfYear - saturate (saturate (153 * shiftedMonth) + 2) / 5) + 1)
  let month := if shiftedMonth < 10 then saturate (shiftedMonth + 3) else saturate (shiftedMonth - 9)
  let year := if month ≤ 2 then saturate (year + 1) else year
  ⟨year, byteOr0 month, byteOr0 day⟩

def fromDaysSinceEpoch (days : ℤ) : Date := ofShifted (saturate (days + epochShift))

/-- One on the first of January. -/
def dayOfYear (date : Date) : ℕ :=
  match new date.year 1 1 with
  | none => 1
  | some januaryFirst =>
    let elapsed := saturate (date.daysSinceEpoch - januaryFirst.daysSinceEpoch)
    let value := saturate (elapsed + 1)
    if 0 ≤ value ∧ value < 2 ^ 16 then value.toNat else 1

/-! ### Without saturation -/

theorem saturate_eq {value : ℤ} (hlow : -2 ^ 31 ≤ value) (hhigh : value < 2 ^ 31) : saturate value = value := by
  simp only [saturate]
  omega

/-- The day of a date, counted from the first of March of year zero. -/
def dayNumber (date : Date) : ℤ :=
  if 2 < date.month then march date.year + (153 * (date.month - 3 : ℤ) + 2) / 5 + date.day - 1
  else march (date.year - 1) + (153 * (date.month + 9 : ℤ) + 2) / 5 + date.day - 1

/-- The date of a day, so counted. -/
def ofDayNumber (number : ℤ) : Date :=
  let dayOfYear := number - march (yearOf number)
  let month := monthOf dayOfYear
  let day := dayOfYear - (153 * month + 2) / 5 + 1
  if month < 10 then ⟨yearOf number, (month + 3).toNat, day.toNat⟩
  else ⟨yearOf number + 1, (month - 9).toNat, day.toNat⟩

theorem saturate_era {era day : ℤ} (hlow : -2 ^ 31 + 719468 ≤ era + day) (hpos : 0 ≤ day) (hlt : day < 200000) :
    saturate (saturate (saturate era + day) - 719468) = min (2 ^ 31 - 1) (era + day) - 719468 := by
  have hinner : saturate era = min (2 ^ 31 - 1) era := by
    simp only [saturate]
    omega
  have hsum : saturate (min (2 ^ 31 - 1) era + day) = min (2 ^ 31 - 1) (era + day) := by
    simp only [saturate]
    rcases le_total era (2 ^ 31 - 1) with h | h <;> omega
  rw [hinner, hsum]
  exact saturate_eq (by omega) (by omega)

/-- The years of an era, as they are counted here. -/
theorem march_eq (year : ℤ) : march year = year / 400 * 146097 + ((year - year / 400 * 400) * 365 +
    (year - year / 400 * 400) / 4 - (year - year / 400 * 400) / 100) := by
  simp only [march]
  omega

/-- Counting the days saturates only where there are too many of them. -/
theorem daysSinceEpoch_of_le {date : Date} (hlow : -2 ^ 31 + epochShift ≤ date.dayNumber) (hhigh : date.year < 2 ^ 31)
    (hmonth : date.month ≤ 12) (hpos : 1 ≤ date.day) (hday : date.day ≤ 31) :
    date.daysSinceEpoch = min (2 ^ 31 - 1) date.dayNumber - epochShift := by
  obtain ⟨year, month, day⟩ := date
  simp only at hhigh hmonth hpos hday
  unfold dayNumber at hlow ⊢
  unfold daysSinceEpoch
  simp only [march_eq] at hlow ⊢
  by_cases h : 2 < month
  · have hle : ¬ month ≤ 2 := by omega
    simp only [h, hle, if_true, if_false, daysPerEra, epochShift] at hlow ⊢
    simp (disch := omega) only [saturate_eq, saturate_era]
    refine congrArg (fun number => min (2 ^ 31 - 1) number - 719468) ?_
    ring
  · have hle : month ≤ 2 := by omega
    simp only [h, hle, if_true, if_false, daysPerEra, epochShift] at hlow ⊢
    simp (disch := omega) only [saturate_eq, saturate_era]
    refine congrArg (fun number => min (2 ^ 31 - 1) number - 719468) ?_
    ring

theorem le_dayNumber {date : Date} (hlow : -5000000 ≤ date.year) (hpos : 1 ≤ date.day) :
    -2 ^ 31 + epochShift ≤ date.dayNumber := by
  simp only [dayNumber, march, epochShift]
  split_ifs <;> omega

theorem daysSinceEpoch_eq {date : Date} (hlow : -5000000 ≤ date.year) (hhigh : date.year < 2 ^ 31) (hmonth : date.month ≤ 12)
    (hpos : 1 ≤ date.day) (hday : date.day ≤ 31) : date.daysSinceEpoch = min (2 ^ 31 - 1) date.dayNumber - epochShift :=
  daysSinceEpoch_of_le (le_dayNumber hlow hpos) hhigh hmonth hpos hday

theorem byteOr0_eq {value : ℤ} (hlow : 0 ≤ value) (hhigh : value < 256) : byteOr0 value = value.toNat := by
  rw [byteOr0, if_pos ⟨hlow, hhigh⟩]

theorem march_of_era {year : ℤ} (era : ℤ) (hpos : 0 ≤ year) (hlt : year < 400) :
    march (year + 400 * era) = 365 * year + year / 4 - year / 100 + 146097 * era := by
  rw [march_add_era]
  simp only [march]
  omega

theorem ofShifted_eq {number : ℤ} (hlow : -2147000000 ≤ number) (hhigh : number < 2 ^ 31) :
    ofShifted number = ofDayNumber number := by
  obtain ⟨place, hplace, hfrom, hto⟩ := exists_yearOfEra (Int.emod_nonneg number (by norm_num : (146097 : ℤ) ≠ 0))
    (Int.emod_lt_of_pos number (by norm_num))
  have hera := yearOfEra_eq hplace hfrom hto
  have hyear : yearOf number = place + 400 * (number / 146097) := by rw [yearOf, hera]
  have hmarch := march_of_era (number / 146097) (Int.natCast_nonneg place) (by omega)
  have hbounds := dayOf_bounds number
  rw [hyear, hmarch] at hbounds
  unfold ofShifted ofDayNumber
  rw [hyear, hmarch]
  -- on the left the source's names, on the right the calendar's
  extract_lets era dayOfEra yearOfEra year dayOfYear shiftedMonth day month year' calendarDay calendarMonth dayOfMonth
  have hdayOfEra : dayOfEra = number % 146097 := by
    simp only [dayOfEra, era, daysPerEra]
    simp (disch := omega) only [saturate_eq]
    omega
  have hyearOfEra : yearOfEra = place := by
    have hplace' : Calendar.yearOfEra dayOfEra = place := by rw [hdayOfEra, hera]
    rw [← hplace']
    clear_value dayOfEra
    simp only [yearOfEra, daysPerEra, Calendar.yearOfEra]
    simp (disch := omega) only [saturate_eq]
    norm_num
  clear_value dayOfEra yearOfEra
  have hyear' : year = place + 400 * (number / 146097) := by
    simp only [year, era, daysPerEra, hyearOfEra]
    simp (disch := omega) only [saturate_eq]
    ring
  have hdayOfYear : dayOfYear = calendarDay := by
    simp only [dayOfYear, calendarDay, hyearOfEra]
    simp (disch := omega) only [saturate_eq]
    omega
  have hbounds' : 0 ≤ calendarDay ∧ calendarDay ≤ 365 := hbounds
  clear_value dayOfYear year calendarDay
  subst hdayOfYear
  have hshifted : shiftedMonth = calendarMonth := by
    simp only [shiftedMonth, calendarMonth, monthOf]
    simp (disch := omega) only [saturate_eq]
    omega
  have hmonths : 0 ≤ calendarMonth ∧ calendarMonth ≤ 11 := by
    simp only [calendarMonth, monthOf]
    omega
  have hdays : 1 ≤ dayOfMonth ∧ dayOfMonth ≤ 31 := by
    simp only [dayOfMonth, calendarMonth, monthOf]
    omega
  have hday : day = dayOfMonth := by
    simp only [day, dayOfMonth, hshifted]
    simp (disch := omega) only [saturate_eq]
  clear_value shiftedMonth day calendarMonth dayOfMonth
  subst hshifted hday
  have hmonth : month = if shiftedMonth < 10 then shiftedMonth + 3 else shiftedMonth - 9 := by
    simp only [month]
    simp (disch := omega) only [saturate_eq]
  by_cases hlate : shiftedMonth < 10
  · rw [if_pos hlate] at hmonth ⊢
    have hlater : year' = year := if_neg (by omega)
    rw [hlater, hmonth, hyear', byteOr0_eq (by omega) (by omega), byteOr0_eq (by omega) (by omega)]
  · rw [if_neg hlate] at hmonth ⊢
    have hlater : year' = year + 1 := by
      simp only [year', hmonth]
      rw [if_pos (by omega), saturate_eq (by omega) (by omega)]
    rw [hlater, hmonth, hyear', byteOr0_eq (by omega) (by omega), byteOr0_eq (by omega) (by omega)]

theorem fromDaysSinceEpoch_eq {days : ℤ} (hlow : -2 ^ 31 ≤ days) (hhigh : days < 2 ^ 31 - 719468) :
    fromDaysSinceEpoch days = ofDayNumber (days + epochShift) := by
  have hexact : saturate (days + epochShift) = days + epochShift := by
    simp only [epochShift]
    exact saturate_eq (by omega) (by omega)
  rw [fromDaysSinceEpoch, hexact]
  simp only [epochShift]
  exact ofShifted_eq (by omega) (by omega)

/-! ### Years -/

/-- A day's date is the day's. -/
theorem dayNumber_ofDayNumber (number : ℤ) : (ofDayNumber number).dayNumber = number := by
  obtain ⟨hlow, hhigh⟩ := dayOf_bounds number
  unfold ofDayNumber
  extract_lets dayOfYear month day
  have hmonth : 0 ≤ month ∧ month ≤ 11 := by
    simp only [month, monthOf]
    omega
  have hday : 1 ≤ day := by
    simp only [day, month, monthOf]
    omega
  have hsplit : dayOfYear = (153 * month + 2) / 5 + day - 1 := by
    simp only [day]
    ring
  have hnumber : number = march (yearOf number) + dayOfYear := by
    simp only [dayOfYear]
    ring
  clear_value dayOfYear month day
  split_ifs with hlate
  · rw [dayNumber, if_pos (by simp only; omega)]
    have hm : (((month + 3).toNat : ℤ) - 3) = month := by omega
    have hd : ((day.toNat : ℤ)) = day := by omega
    simp only [hm, hd]
    omega
  · rw [dayNumber, if_neg (by simp only; omega)]
    have hm : (((month - 9).toNat : ℤ) + 9) = month := by omega
    have hd : ((day.toNat : ℤ)) = day := by omega
    simp only [hm, hd, add_sub_cancel_right]
    omega

/-- A year ends with the 306th day from March. -/
theorem year_ofDayNumber_le_iff (number year : ℤ) : (ofDayNumber number).year ≤ year ↔ number < march year + 306 := by
  obtain ⟨hfrom, hto⟩ := yearOf_spec number
  have hstep := march_lt_succ (yearOf number)
  have hnext := march_lt_succ year
  have hmono := march_strictMono.le_iff_le (a := yearOf number) (b := year)
  have hmono' := march_strictMono.le_iff_le (a := year + 1) (b := yearOf number)
  have hmono'' := march_strictMono.le_iff_le (a := yearOf number + 1) (b := year)
  have hmono''' := march_strictMono.le_iff_le (a := year) (b := yearOf number)
  unfold ofDayNumber
  extract_lets dayOfYear month day
  have hlate : month < 10 ↔ number - march (yearOf number) < 306 := by
    simp only [month, dayOfYear, monthOf]
    omega
  clear_value dayOfYear month day
  split_ifs with h
  · simp only
    omega
  · simp only
    omega

/-- The date exists. -/
def Valid (date : Date) : Prop := new date.year date.month date.day = some date

instance (date : Date) : Decidable date.Valid := inferInstanceAs (Decidable (_ = _))

theorem Valid.bounds {date : Date} (h : date.Valid) : 1 ≤ date.month ∧ date.month ≤ 12 ∧ 1 ≤ date.day ∧
    date.day ≤ 31 ∧ (date.month = 2 → date.day ≤ 29) := by
  rw [Valid, new] at h
  split_ifs at h with hrange hlong
  have hmonths : ∀ month ≤ 12, daysInMonth date.year month ≤ 31 ∧ (month = 2 → daysInMonth date.year month ≤ 29) := by
    intro month hmonth
    cases hleap : isLeapYear date.year <;> interval_cases month <;> simp [daysInMonth, hleap]
  obtain ⟨hmost, hfebruary⟩ := hmonths date.month (by omega)
  exact ⟨by omega, by omega, by omega, by omega, fun hmonth => by have := hfebruary hmonth; omega⟩

theorem dayNumber_lt_iff {date : Date} (h : date.Valid) (year : ℤ) :
    date.dayNumber < march year + 306 ↔ date.year ≤ year := by
  obtain ⟨hpos, hmonth, hday, hmost, hfebruary⟩ := h.bounds
  have hstep := march_lt_succ (date.year - 1)
  have hnext := march_lt_succ year
  rw [sub_add_cancel] at hstep
  have hmono := march_strictMono.le_iff_le (a := date.year) (b := year)
  have hmono' := march_strictMono.le_iff_le (a := year + 1) (b := date.year)
  have hmono'' := march_strictMono.le_iff_le (a := year) (b := date.year - 1)
  rw [dayNumber]
  split_ifs with hlate
  · omega
  · omega

theorem ofDayNumber_bounds (number : ℤ) : (ofDayNumber number).month ≤ 12 ∧ 1 ≤ (ofDayNumber number).day ∧
    (ofDayNumber number).day ≤ 31 := by
  obtain ⟨hlow, hhigh⟩ := dayOf_bounds number
  unfold ofDayNumber
  extract_lets dayOfYear month day
  have hmonth : 0 ≤ month ∧ month ≤ 11 := by
    simp only [month, monthOf]
    omega
  have hday : 1 ≤ day ∧ day ≤ 31 := by
    simp only [day, month, monthOf]
    omega
  clear_value dayOfYear month day
  split_ifs with hlate
  · simp only
    omega
  · simp only
    omega

theorem new_januaryFirst (year : ℤ) : new year 1 1 = some ⟨year, 1, 1⟩ := by simp [new, daysInMonth]

/-- Up to the year 9999 a date's day of the year is one of 366. -/
theorem dayOfYear_ofDayNumber {number : ℤ} (hlow : march (-1) + 306 ≤ number) (hhigh : number < march 9999 + 306) :
    1 ≤ (ofDayNumber number).dayOfYear ∧ (ofDayNumber number).dayOfYear ≤ 366 := by
  obtain ⟨hmonth, hpos, hday⟩ := ofDayNumber_bounds number
  have hnumber := dayNumber_ofDayNumber number
  have hyear := year_ofDayNumber_le_iff number (ofDayNumber number).year
  have hbefore := year_ofDayNumber_le_iff number ((ofDayNumber number).year - 1)
  have hfirst := year_ofDayNumber_le_iff number (-1)
  have hlast := year_ofDayNumber_le_iff number 9999
  have hlength := march_lt_succ ((ofDayNumber number).year - 1)
  rw [sub_add_cancel] at hlength
  generalize ofDayNumber number = date at *
  have hjanuary : (⟨date.year, 1, 1⟩ : Date).dayNumber = march (date.year - 1) + 306 := by
    simp [dayNumber]
  have hmost : march 9999 = 3652059 := by decide
  have hleast : march (-1) = -366 := by decide
  rw [dayOfYear, new_januaryFirst]
  dsimp only
  rw [daysSinceEpoch_eq (by omega) (by omega) hmonth hpos hday,
    daysSinceEpoch_eq (by simp only; omega) (by simp only; omega) (by simp) (by simp) (by simp), hnumber, hjanuary,
    min_eq_right (by omega), min_eq_right (by omega), sub_sub_sub_cancel_right]
  simp (disch := omega) only [saturate_eq]
  rw [if_pos (by omega)]
  omega

end Date

end Kmsrs.Db

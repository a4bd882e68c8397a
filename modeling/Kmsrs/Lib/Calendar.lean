import Kmsrs.Lib.Rows

/-! The Gregorian calendar, counted in years that begin in March and days from the first
of them. A day has one year, which the division of the 400-year era finds, and a year
and month of the ordinary calendar. -/

namespace Kmsrs.Calendar

/-- The days before a year. -/
def march (year : ℤ) : ℤ := 365 * year + year / 4 - year / 100 + year / 400

/-- Of a day of an era, its year of the era. -/
def yearOfEra (day : ℤ) : ℤ := (day - day / 1460 + day / 36524 - day / 146096) / 365

/-- The year of a day. -/
def yearOf (day : ℤ) : ℤ := yearOfEra (day % 146097) + 400 * (day / 146097)

/-- The months from March on have 30.6 days. -/
def monthOf (day : ℤ) : ℤ := (5 * day + 2) / 153

theorem march_lt_succ (year : ℤ) : march year + 365 ≤ march (year + 1) ∧ march (year + 1) ≤ march year + 366 := by
  simp only [march]
  omega

theorem march_strictMono : StrictMono march :=
  strictMono_int_of_lt_succ fun year => by linarith [(march_lt_succ year).1]

theorem march_add_era (year era : ℤ) : march (year + 400 * era) = march year + 146097 * era := by
  simp only [march]
  omega

/-- The years of an era begin and end where the division says. -/
theorem yearOfEra_ends : ∀ year < 400, yearOfEra (march (Int.ofNat year)) = year ∧
    yearOfEra (march (Int.ofNat year + 1) - 1) = year := by
  decide +kernel

theorem yearOfEra_mono : Monotone yearOfEra :=
  monotone_int_of_le_succ fun day => Int.ediv_le_ediv (by norm_num) (by omega)

theorem yearOfEra_eq {day : ℤ} {year : ℕ} (hyear : year < 400) (hfrom : march year ≤ day) (hto : day < march (year + 1)) :
    yearOfEra day = year := by
  obtain ⟨hfirst, hlast⟩ := yearOfEra_ends year hyear
  have hlow : yearOfEra (march year) ≤ yearOfEra day := yearOfEra_mono hfrom
  have hhigh : yearOfEra day ≤ yearOfEra (march (year + 1) - 1) := yearOfEra_mono (by omega)
  exact le_antisymm (hhigh.trans_eq hlast) (hfirst.symm.trans_le hlow)

/-- Every day of an era is in a year of it. -/
theorem exists_yearOfEra {day : ℤ} (hpos : 0 ≤ day) (hlt : day < 146097) :
    ∃ year : ℕ, year < 400 ∧ march year ≤ day ∧ day < march (year + 1) := by
  have hsome : ∃ year : ℕ, day < march (year + 1) := ⟨399, hlt⟩
  refine ⟨Nat.find hsome, ?_, ?_, Nat.find_spec hsome⟩
  · have hle : Nat.find hsome ≤ 399 := Nat.find_min' hsome hlt
    omega
  · cases hfound : Nat.find hsome with
    | zero => exact hpos
    | succ year =>
      have hbefore := Nat.find_min hsome (m := year) (by omega)
      push Not at hbefore
      exact_mod_cast hbefore

/-- The year of a day is the one it lies in. -/
theorem yearOf_spec (day : ℤ) : march (yearOf day) ≤ day ∧ day < march (yearOf day + 1) := by
  obtain ⟨year, hyear, hfrom, hto⟩ := exists_yearOfEra (Int.emod_nonneg day (by norm_num))
    (Int.emod_lt_of_pos day (by norm_num : (0 : ℤ) < 146097))
  have hera := march_add_era year (day / 146097)
  have hera' := march_add_era (year + 1) (day / 146097)
  have hsplit := Int.emod_add_mul_ediv day 146097
  rw [yearOf, yearOfEra_eq hyear hfrom hto, show (year : ℤ) + 400 * (day / 146097) + 1 = year + 1 + 400 * (day / 146097) by ring,
    hera, hera']
  omega

/-- A day of a year is one of 366, and its month one of twelve. -/
theorem dayOf_bounds (day : ℤ) : 0 ≤ day - march (yearOf day) ∧ day - march (yearOf day) ≤ 365 := by
  obtain ⟨hfrom, hto⟩ := yearOf_spec day
  have hlength := march_lt_succ (yearOf day)
  omega

end Kmsrs.Calendar

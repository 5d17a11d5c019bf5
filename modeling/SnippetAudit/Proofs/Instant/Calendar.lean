import Mathlib.Tactic.IntervalCases
import SnippetAudit.Instant

/-!
The calendar: the date of a day number is a date, and the one that the number counts.

Days are counted in eras of four hundred years from March on, so that every era has the same
length and a leap day is the last day of its year. Within an era a day is given by centuries,
cycles of four years, years and days, and the year that the division by 365 yields is read off
these parts.
-/

set_option autoImplicit false

namespace SnippetAudit.Instant

/-! Days of an era -/

/-- A day of an era. A year has a 366th day only if it is the last of its cycle, and the last cycle
of a century only if that is the last of the era. -/
structure EraDay where
  centuries : Nat
  cycles : Nat
  years : Nat
  days : Nat
  centuries_le : centuries ≤ 3
  cycles_le : cycles ≤ 24
  years_le : years ≤ 3
  days_le : days ≤ 365
  leap : days = 365 → years = 3 ∧ (cycles = 24 → centuries = 3)

namespace EraDay

def number (day : EraDay) : Nat :=
  36524 * day.centuries + 1461 * day.cycles + 365 * day.years + day.days

def year (day : EraDay) : Nat :=
  100 * day.centuries + 4 * day.cycles + day.years

private theorem exists_number_eq {number : Nat} (inside : number < 146097) :
    ∃ day : EraDay, day.number = number := by
  let centuries := min (number / 36524) 3
  let cycles := (number - 36524 * centuries) / 1461
  let years := min ((number - 36524 * centuries - 1461 * cycles) / 365) 3
  let days := number - 36524 * centuries - 1461 * cycles - 365 * years
  refine ⟨⟨centuries, cycles, years, days, by omega, by omega, by omega, by omega, by omega⟩, ?_⟩
  simp only [EraDay.number]
  omega

private theorem number_lt (day : EraDay) : day.number < 146097 := by
  obtain ⟨centuries, cycles, years, days, _, _, _, _, leap⟩ := day
  simp only [number]
  omega

private theorem year_le (day : EraDay) : day.year ≤ 399 := by
  obtain ⟨centuries, cycles, years, days, _, _, _, _, _⟩ := day
  simp only [year]
  omega

/-- The corrections of the division by 365 take away the leap days before the day. -/
theorem yearOfEra_eq (day : EraDay) :
    (day.number - day.number / 1460 + day.number / 36524 - day.number / 146096) / 365 =
      day.year := by
  obtain ⟨centuries, cycles, years, days, _, _, _, _, leap⟩ := day
  simp only [number, year]
  by_cases last : centuries = 3 ∧ cycles = 24 ∧ years = 3 ∧ days = 365
  · obtain ⟨rfl, rfl, rfl, rfl⟩ := last
    rfl
  · have century :
        (36524 * centuries + 1461 * cycles + 365 * years + days) / 36524 = centuries := by omega
    have era : (36524 * centuries + 1461 * cycles + 365 * years + days) / 146096 = 0 := by omega
    have cycle : (36524 * centuries + 1461 * cycles + 365 * years + days) / 1460 =
        25 * centuries + cycles + (24 * centuries + cycles + 365 * years + days) / 1460 := by
      omega
    rw [century, era, cycle]
    omega

theorem number_eq (day : EraDay) :
    day.number = 365 * day.year + day.year / 4 - day.year / 100 + day.days := by
  obtain ⟨centuries, cycles, years, days, _, _, _, _, _⟩ := day
  simp only [number, year]
  have cycle : (100 * centuries + 4 * cycles + years) / 4 = 25 * centuries + cycles := by omega
  have century : (100 * centuries + 4 * cycles + years) / 100 = centuries := by omega
  rw [cycle, century]
  omega

/-- The year after one with a 366th day is a leap year: its February ends that day. -/
theorem isLeapYear_of_days {day : EraDay} (last : day.days = 365) (era : Int) :
    isLeapYear (day.year + 400 * era + 1) = true := by
  obtain ⟨centuries, cycles, years, days, _, _, _, _, leap⟩ := day
  obtain ⟨rfl, noCycle⟩ := leap last
  simp only [isLeapYear, Bool.and_eq_true, Bool.or_eq_true, decide_eq_true_eq]
  simp only [year]
  omega

end EraDay

/-! Months -/

/-- The months of a year from March on, by the days before them: their lengths repeat every five
months, as 31, 30, 31, 30 and 31 days. -/
def daysBefore (month : Nat) : Nat :=
  (153 * month + 2) / 5

/-- The number of a month that is counted from March on. -/
def monthFrom (month : Nat) : Nat :=
  if month < 10 then month + 3 else month - 9

private theorem monthFrom_range {month : Nat} (inside : month ≤ 11) :
    1 ≤ monthFrom month ∧ monthFrom month ≤ 12 := by
  unfold monthFrom
  split_ifs <;> omega

/-- The month from March on that a day of an era is in. -/
def EraDay.month (day : EraDay) : Nat :=
  (5 * day.days + 2) / 153

theorem EraDay.month_spec (day : EraDay) :
    day.month ≤ 11 ∧ daysBefore day.month ≤ day.days ∧ day.days < daysBefore (day.month + 1) := by
  have inside := day.days_le
  unfold month daysBefore
  omega

/-- Every month but February has the length that the days before it and before the next one
give it. -/
theorem daysInMonth_eq (year : Int) {month : Nat} (inside : month ≤ 10) :
    daysInMonth year (monthFrom month) = daysBefore (month + 1) - daysBefore month := by
  interval_cases month <;> rfl

/-- A year that is counted from March on has the months up to February of the next one. -/
theorem dayNumber_fromMarch (year : Int) {month : Nat} (inside : month ≤ 11) (day : Nat) :
    dayNumber (year + if monthFrom month ≤ 2 then 1 else 0) (monthFrom month) day =
      365 * year + year / 4 - year / 100 + year / 400 + ((daysBefore month + day - 1 : Nat) : Int) -
        719468 := by
  interval_cases month <;> simp [dayNumber, monthFrom, daysBefore]

/-! Dates -/

/-- A month and a day that the calendar has in this year. -/
structure IsDate (year : Int) (month day : Nat) : Prop where
  month_pos : 1 ≤ month
  month_le : month ≤ 12
  day_pos : 1 ≤ day
  day_le : day ≤ daysInMonth year month

theorem IsDate.day_le_31 {year : Int} {month day : Nat} (date : IsDate year month day) :
    day ≤ 31 := by
  have short : daysInMonth year month ≤ 31 := by
    unfold daysInMonth
    split_ifs <;> decide
  exact Nat.le_trans date.day_le short

private theorem exists_eraDay (number : Int) :
    ∃ (day : EraDay) (era : Int), number + 719468 = 146097 * era + day.number := by
  obtain ⟨day, same⟩ := @EraDay.exists_number_eq ((number + 719468) % 146097).toNat (by omega)
  exact ⟨day, (number + 719468) / 146097, by omega⟩

/-- The date of a day of an era: the year changes with January. -/
def EraDay.date (day : EraDay) (era : Int) : Int × Nat × Nat :=
  (day.year + 400 * era + (if monthFrom day.month ≤ 2 then 1 else 0), monthFrom day.month,
    day.days - daysBefore day.month + 1)

private theorem dateOf_eq {number era : Int} {day : EraDay}
    (counted : number + 719468 = 146097 * era + day.number) :
    dateOf number = day.date era := by
  have inside := day.number_lt
  have whole : (146097 * era + day.number) / 146097 = era := by omega
  have rest : ((146097 * era + day.number) % 146097).toNat = day.number := by omega
  have days : day.number - (365 * day.year + day.year / 4 - day.year / 100) = day.days := by
    have split := day.number_eq
    omega
  simp only [dateOf, counted, whole, rest, day.yearOfEra_eq, days]
  rfl

theorem EraDay.isDate_date (day : EraDay) (era : Int) :
    IsDate (day.date era).1 (day.date era).2.1 (day.date era).2.2 := by
  obtain ⟨monthLe, started, notOver⟩ := day.month_spec
  have range := monthFrom_range monthLe
  refine ⟨range.1, range.2, Nat.succ_pos _, ?_⟩
  change day.days - daysBefore day.month + 1 ≤
    daysInMonth (day.year + 400 * era + if monthFrom day.month ≤ 2 then 1 else 0)
      (monthFrom day.month)
  by_cases february : day.month = 11
  · rw [february]
    change day.days - 337 + 1 ≤ daysInMonth (day.year + 400 * era + 1) 2
    have inside := day.days_le
    by_cases last : day.days = 365
    · rw [last, daysInMonth, if_pos rfl, if_pos (isLeapYear_of_days last era)]
    · have common : 28 ≤ daysInMonth (day.year + 400 * era + 1) 2 := by
        rw [daysInMonth, if_pos rfl]
        split_ifs <;> decide
      omega
  · rw [daysInMonth_eq _ (by omega)]
    omega

theorem EraDay.dayNumber_date (day : EraDay) (era : Int) :
    dayNumber (day.date era).1 (day.date era).2.1 (day.date era).2.2 =
      146097 * era + day.number - 719468 := by
  obtain ⟨monthLe, started, _⟩ := day.month_spec
  have split := day.number_eq
  have small := day.year_le
  have days : daysBefore day.month + (day.days - daysBefore day.month + 1) - 1 = day.days := by
    omega
  refine (dayNumber_fromMarch (day.year + 400 * era) monthLe _).trans ?_
  rw [date, days]
  omega

/-- The date of a day number is a date of the calendar and has that number. -/
theorem dateOf_isDate (number : Int) :
    IsDate (dateOf number).1 (dateOf number).2.1 (dateOf number).2.2 ∧
      dayNumber (dateOf number).1 (dateOf number).2.1 (dateOf number).2.2 = number := by
  obtain ⟨day, era, counted⟩ := exists_eraDay number
  rw [dateOf_eq counted]
  refine ⟨day.isDate_date era, ?_⟩
  rw [day.dayNumber_date era]
  omega

end SnippetAudit.Instant

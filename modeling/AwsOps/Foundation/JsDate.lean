import AwsOps.Foundation.Months

/-!
# Dates of JavaScript

A date is a time value, the number of milliseconds since the epoch, as long as it is no more than
100 million days away from it; `none` stands for the invalid date. Months are counted from zero,
and the day and month that a date is made of may lie outside their usual range. `Date.UTC` takes
the years 0 to 99 for those of the twentieth century.
-/

namespace AwsOps.JsDate

open Calendar (dateOf)

/-- The number of milliseconds of a day. -/
def msPerDay : Int := 86400000

/-- The number of milliseconds of an hour. -/
def msPerHour : Int := 3600000

def timeClip (t : Int) : Option Int :=
  if -8640000000000000 ≤ t ∧ t ≤ 8640000000000000 then some t else none

/-- `MakeDay`: the day of a year, a month counted from zero and a day of the month, the latter two
possibly out of range. -/
def makeDay (year month day : Int) : Int :=
  Calendar.Date.toDay ⟨year + month / 12, month % 12 + 1, 1⟩ + day - 1

/-- `MakeFullYear`. -/
def fullYear (year : Int) : Int :=
  if 0 ≤ year ∧ year ≤ 99 then 1900 + year else year

/-- `Date.UTC(year, month, day, hours, 0, 0)` as a date. -/
def utc (year month day hours : Int) : Option Int :=
  timeClip (makeDay (fullYear year) month day * msPerDay + hours * msPerHour)

/-- The day of a time value. -/
def dayOf (t : Int) : Int :=
  t / msPerDay

/-- `getUTCFullYear`. -/
def utcFullYear (t : Int) : Int :=
  (dateOf (dayOf t)).year

/-- `getUTCMonth`. -/
def utcMonth (t : Int) : Int :=
  (dateOf (dayOf t)).month - 1

/-- `getUTCDate`. -/
def utcDate (t : Int) : Int :=
  (dateOf (dayOf t)).day

/-- `getUTCDay`: Sunday is 0. -/
def utcDay (t : Int) : Int :=
  (dayOf t + 4) % 7

def setUtcDate (t day : Int) : Option Int :=
  timeClip (makeDay (utcFullYear t) (utcMonth t) day * msPerDay + t % msPerDay)

def setUtcMonth (t month : Int) : Option Int :=
  timeClip (makeDay (utcFullYear t) month (utcDate t) * msPerDay + t % msPerDay)

section Days

variable {t year month day : Int}

theorem make_day_eq (year month day : Int) :
    makeDay year month day = Calendar.monthStart (12 * year + month - 2) + day - 719469 := by
  unfold makeDay
  rw [Calendar.to_day_eq (by dsimp only; omega) (by dsimp only; omega)]
  unfold Calendar.Date.monthIndex
  dsimp only
  rw [show 12 * (year + month / 12) + (month % 12 + 1) - 3 = 12 * year + month - 2 by omega]
  omega

theorem make_day_fields (t : Int) : makeDay (utcFullYear t) (utcMonth t) (utcDate t) = dayOf t := by
  have hdate := Calendar.date_of_valid (dayOf t)
  have hday := Calendar.to_day_date_of (dayOf t)
  rw [Calendar.to_day_eq hdate.month_pos hdate.month_le] at hday
  rw [make_day_eq]
  unfold utcFullYear utcMonth utcDate
  rw [show 12 * (dateOf (dayOf t)).year + ((dateOf (dayOf t)).month - 1) - 2 =
    (dateOf (dayOf t)).monthIndex by unfold Calendar.Date.monthIndex; omega]
  exact hday

theorem fields_index (t : Int) :
    12 * utcFullYear t + utcMonth t - 2 = (dateOf (dayOf t)).monthIndex := by
  unfold utcFullYear utcMonth Calendar.Date.monthIndex
  omega

theorem make_day_shift (year month day shift : Int) :
    makeDay year month (day + shift) = makeDay year month day + shift := by
  rw [make_day_eq, make_day_eq]
  omega

theorem full_year_eq (h : 100 ≤ year) : fullYear year = year := by
  unfold fullYear
  rw [if_neg (by omega)]

theorem time_clip_eq (h0 : -720000 * msPerDay ≤ t) (h1 : t ≤ 3000000 * msPerDay) :
    timeClip t = some t := by
  unfold timeClip
  unfold msPerDay at *
  rw [if_pos (by omega)]

end Days

end AwsOps.JsDate

import Mathlib.Data.Int.Basic
import AwsOps.Foundation.Text

/-!
# Days and dates

A day is the number of days since the epoch, an instant the number of microseconds since it. Dates
are those of the proleptic Gregorian calendar in the years 1 to 9999; what leaves them raises in
the source and is `none` here.
-/

namespace AwsOps.Calendar

def dayMicros : Int := 86400000000

/-- The first instant of the day. -/
def dayStart (day : Int) : Int :=
  day * dayMicros

/-- The first instant after the day. -/
def dayEnd (day : Int) : Int :=
  dayStart day + dayMicros

def dayOf (instant : Int) : Int :=
  instant / dayMicros

@[simp] theorem day_of_day_start (day : Int) : dayOf (dayStart day) = day := by
  simp only [dayOf, dayStart, dayMicros]
  omega

/-- A year, a month and a day of the month. -/
structure Date where
  year : Int
  month : Int
  day : Int
  deriving DecidableEq

/-- The day of a date: whole eras of 400 years, then years that begin in March. -/
def Date.toDay (date : Date) : Int :=
  let year := if date.month ≤ 2 then date.year - 1 else date.year
  let era := year / 400
  let yearOfEra := year % 400
  let month := if date.month ≤ 2 then date.month + 9 else date.month - 3
  let dayOfYear := (153 * month + 2) / 5 + date.day - 1
  let dayOfEra := yearOfEra * 365 + yearOfEra / 4 - yearOfEra / 100 + dayOfYear
  era * 146097 + dayOfEra - 719468

def dateOf (day : Int) : Date :=
  let shifted := day + 719468
  let era := shifted / 146097
  let dayOfEra := shifted % 146097
  let yearOfEra :=
    (dayOfEra - dayOfEra / 1460 + dayOfEra / 36524 - dayOfEra / 146096) / 365
  let dayOfYear := dayOfEra - (365 * yearOfEra + yearOfEra / 4 - yearOfEra / 100)
  let march := (5 * dayOfYear + 2) / 153
  let month := if march < 10 then march + 3 else march - 9
  { year := yearOfEra + era * 400 + if month ≤ 2 then 1 else 0
    month := month
    day := dayOfYear - (153 * march + 2) / 5 + 1 }

def daysInMonth (year month : Int) : Int :=
  if month = 2 then
    if year % 4 = 0 ∧ (year % 100 ≠ 0 ∨ year % 400 = 0) then 29 else 28
  else if month = 4 ∨ month = 6 ∨ month = 9 ∨ month = 11 then 30
  else 31

/-- 1 January of the year 1. -/
def firstDay : Int := -719162

/-- 31 December of the year 9999. -/
def lastDay : Int := 2932896

/-- The day, if it is one of the calendar. -/
def checked (day : Int) : Option Int :=
  if firstDay ≤ day ∧ day ≤ lastDay then some day else none

/-- `date(year, month, day)`. -/
def Date.check (date : Date) : Option Int :=
  if 1 ≤ date.year ∧ date.year ≤ 9999 ∧ 1 ≤ date.month ∧ date.month ≤ 12 ∧ 1 ≤ date.day ∧
      date.day ≤ daysInMonth date.year date.month then some date.toDay
  else none

/-- `date.isoformat()`. -/
def isoFormat (day : Int) : String :=
  let date := dateOf day
  String.ofList (Text.numeral 10 4 date.year.toNat ++ '-' :: Text.numeral 10 2 date.month.toNat ++
    '-' :: Text.numeral 10 2 date.day.toNat)

example : isoFormat 20574 = "2026-05-01" := by decide
example : (dateOf firstDay, dateOf lastDay) = (⟨1, 1, 1⟩, ⟨9999, 12, 31⟩) := by decide

/-- A reading of the clock, before the last day of the calendar. -/
structure Clock where
  instant : Int
  in_calendar : firstDay ≤ dayOf instant ∧ dayOf instant < lastDay

def Clock.day (now : Clock) : Int :=
  dayOf now.instant

end AwsOps.Calendar

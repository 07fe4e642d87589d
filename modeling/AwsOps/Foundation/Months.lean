import AwsOps.Foundation.Calendar
import Mathlib.Data.Int.ConditionallyCompleteOrder
import Mathlib.Order.ConditionallyCompleteLattice.Basic

/-!
# Months of the Gregorian calendar

Days, counted from 1 March of the year zero, fall into months, counted from the same one. A day
lies in exactly one month, so a date and its day determine each other, and adding months is adding
to the count.
-/

namespace AwsOps.Calendar

/-! ## Years and months as intervals of days -/

/-- The days before a year that begins in March, counted from the year zero. -/
def yearStart (year : Int) : Int :=
  365 * year + year / 4 - year / 100 + year / 400

theorem year_step (year : Int) :
    yearStart (year + 1) = yearStart year + 365 ∨ yearStart (year + 1) = yearStart year + 366 := by
  unfold yearStart
  omega

theorem year_start_era (year era : Int) :
    yearStart (year + era * 400) = yearStart year + era * 146097 := by
  have hfour : (year + era * 400) / 4 = year / 4 + era * 100 := by omega
  have hhundred : (year + era * 400) / 100 = year / 100 + era * 4 := by omega
  have hera : (year + era * 400) / 400 = year / 400 + era := by omega
  unfold yearStart
  rw [hfour, hhundred, hera]
  omega

/-- The days before a month, counted in months from March of the year zero. -/
def monthStart (month : Int) : Int :=
  yearStart (month / 12) + (153 * (month % 12) + 2) / 5

theorem month_step (month : Int) : monthStart month + 28 ≤ monthStart (month + 1) ∧
      monthStart (month + 1) ≤ monthStart month + 31 := by
  unfold monthStart
  have hyear := year_step (month / 12)
  by_cases hlast : month % 12 = 11
  · have hdiv : (month + 1) / 12 = month / 12 + 1 := by omega
    have hmod : (month + 1) % 12 = 0 := by omega
    rw [hdiv, hmod, hlast]
    omega
  · have hdiv : (month + 1) / 12 = month / 12 := by omega
    have hmod : (month + 1) % 12 = month % 12 + 1 := by omega
    rw [hdiv, hmod]
    omega

theorem month_start_strictMono : StrictMono monthStart :=
  strictMono_int_of_lt_succ fun month => by
    have := (month_step month).1
    omega

theorem month_unique {k k' n : Int} (h : monthStart k ≤ n) (h1 : n < monthStart (k + 1))
    (h' : monthStart k' ≤ n) (h1' : n < monthStart (k' + 1)) : k = k' := by
  have hle : k < k' + 1 := month_start_strictMono.lt_iff_lt.mp (lt_of_le_of_lt h h1')
  have hge : k' < k + 1 := month_start_strictMono.lt_iff_lt.mp (lt_of_le_of_lt h' h1)
  omega

/-! ## Dates in months -/

/-- The month of a date, counted from March of the year zero. -/
def Date.monthIndex (date : Date) : Int :=
  12 * date.year + date.month - 3

/-- The date is one of the calendar. -/
structure Date.Valid (date : Date) : Prop where
  month_pos : 1 ≤ date.month
  month_le : date.month ≤ 12
  day_pos : 1 ≤ date.day
  day_le : date.day ≤ daysInMonth date.year date.month

theorem to_day_eq {date : Date} (h0 : 1 ≤ date.month) (h1 : date.month ≤ 12) :
    date.toDay = monthStart date.monthIndex + date.day - 719469 := by
  unfold Date.toDay monthStart yearStart Date.monthIndex
  by_cases hearly : date.month ≤ 2
  · have hdiv : (12 * date.year + date.month - 3) / 12 = date.year - 1 := by omega
    have hmod : (12 * date.year + date.month - 3) % 12 = date.month + 9 := by omega
    rw [hdiv, hmod]
    simp only [if_pos hearly]
    omega
  · have hdiv : (12 * date.year + date.month - 3) / 12 = date.year := by omega
    have hmod : (12 * date.year + date.month - 3) % 12 = date.month - 3 := by omega
    rw [hdiv, hmod]
    simp only [if_neg hearly]
    omega

theorem days_in_month_eq {year month : Int} (h0 : 1 ≤ month) (h1 : month ≤ 12) :
    daysInMonth year month =
      monthStart (12 * year + month - 3 + 1) - monthStart (12 * year + month - 3) := by
  unfold daysInMonth monthStart
  by_cases hfeb : month = 2
  · have hdiv : (12 * year + month - 3) / 12 = year - 1 := by omega
    have hmod : (12 * year + month - 3) % 12 = 11 := by omega
    have hdiv' : (12 * year + month - 3 + 1) / 12 = year := by omega
    have hmod' : (12 * year + month - 3 + 1) % 12 = 0 := by omega
    rw [hdiv, hmod, hdiv', hmod', if_pos hfeb]
    unfold yearStart
    split <;> omega
  · have hdiv : (12 * year + month - 3 + 1) / 12 = (12 * year + month - 3) / 12 := by omega
    have hmod : (12 * year + month - 3 + 1) % 12 = (12 * year + month - 3) % 12 + 1 := by omega
    have hmonth : (12 * year + month - 3) % 12 = (month + 9) % 12 := by omega
    rw [hdiv, hmod, if_neg hfeb, hmonth, Int.add_sub_add_left]
    clear hdiv hmod hmonth
    obtain h | h | h | h | h | h | h | h | h | h | h : month = 1 ∨ month = 3 ∨ month = 4 ∨
        month = 5 ∨ month = 6 ∨ month = 7 ∨ month = 8 ∨ month = 9 ∨ month = 10 ∨ month = 11 ∨
        month = 12 := by omega
    all_goals
      subst h
      decide

/-! ## The date of a day -/

theorem era_split {n : Int} (h0 : 0 ≤ n) (h1 : n < 146097) :
    ∃ c q s : Int, n = 36524 * c + 1461 * q + s ∧ 0 ≤ c ∧ c ≤ 3 ∧ 0 ≤ q ∧ q ≤ 24 ∧ 0 ≤ s ∧
      s ≤ 1460 ∧ (q = 24 → c < 3 → s ≤ 1459) := by
  by_cases hlast : n = 146096
  · exact ⟨3, 24, 1460, by omega, by omega, by omega, by omega, by omega, by omega, by omega,
      by omega⟩
  · refine ⟨n / 36524, n % 36524 / 1461, n % 36524 % 1461, ?_, ?_, ?_, ?_, ?_, ?_, ?_, ?_⟩ <;> omega

theorem year_of_era {n c q s : Int} (hn : n = 36524 * c + 1461 * q + s) (hc0 : 0 ≤ c) (hc : c ≤ 3)
    (hq0 : 0 ≤ q) (hq : q ≤ 24) (hs0 : 0 ≤ s) (hs : s ≤ 1460) (hcut : q = 24 → c < 3 → s ≤ 1459) :
    (n - n / 1460 + n / 36524 - n / 146096) / 365 = 100 * c + 4 * q + min (s / 365) 3 := by
  have hrest : 1461 * q + s ≤ 36524 ∧ (c ≤ 2 → 1461 * q + s ≤ 36523) := by omega
  have hcentury : n / 36524 - n / 146096 = c := by
    by_cases hlast : n = 146096
    · omega
    · have hera : n / 146096 = 0 := by omega
      have hquot : n / 36524 = c := by omega
      omega
  have hspan : n / 1460 = 25 * c + q + (24 * c + q + s) / 1460 := by omega
  have hdays : n - n / 1460 + n / 36524 - n / 146096 =
      36500 * c + 1460 * q + (s - (24 * c + q + s) / 1460) := by omega
  rw [hdays]
  omega

theorem year_spec (n : Int) {doe yoe : Int} (hdoe : doe = n % 146097)
    (hyoe : yoe = (doe - doe / 1460 + doe / 36524 - doe / 146096) / 365) :
    yearStart (yoe + n / 146097 * 400) + (doe - (365 * yoe + yoe / 4 - yoe / 100)) = n ∧
      0 ≤ doe - (365 * yoe + yoe / 4 - yoe / 100) ∧ n < yearStart (yoe + n / 146097 * 400 + 1) := by
  obtain ⟨c, q, s, hsplit, hc0, hc, hq0, hq, hs0, hs, hcut⟩ :=
    era_split (n := doe) (by omega) (by omega)
  rw [year_of_era hsplit hc0 hc hq0 hq hs0 hs hcut] at hyoe
  have hquarter : yoe / 4 = 25 * c + q ∧ yoe / 100 = c := by omega
  have hera : n = n / 146097 * 146097 + doe := by omega
  generalize n / 146097 = era at *
  rw [year_start_era, show yoe + era * 400 + 1 = yoe + 1 + era * 400 by omega, year_start_era]
  unfold yearStart
  rw [hquarter.1, hquarter.2]
  have hzero : yoe / 400 = 0 := by omega
  refine ⟨by omega, by omega, ?_⟩
  by_cases hj : s < 1095
  · have hsame : (yoe + 1) / 4 = 25 * c + q ∧ (yoe + 1) / 100 = c ∧ (yoe + 1) / 400 = 0 := by omega
    omega
  · have hlast : yoe = 100 * c + 4 * q + 3 := by omega
    by_cases hq24 : q = 24
    · by_cases hc3 : c = 3
      · have hturn : (yoe + 1) / 4 = 100 ∧ (yoe + 1) / 100 = 4 ∧ (yoe + 1) / 400 = 1 := by omega
        omega
      · have hturn : (yoe + 1) / 4 = 25 * c + 25 ∧ (yoe + 1) / 100 = c + 1 ∧
            (yoe + 1) / 400 = 0 := by omega
        omega
    · have hturn : (yoe + 1) / 4 = 25 * c + q + 1 ∧ (yoe + 1) / 100 = c ∧
          (yoe + 1) / 400 = 0 := by omega
      omega

theorem month_spec {doy mp : Int} (hmp : mp = (5 * doy + 2) / 153) :
    (153 * mp + 2) / 5 ≤ doy ∧ doy < (153 * (mp + 1) + 2) / 5 := by
  omega

theorem date_of_spec (n : Int) : 1 ≤ (dateOf n).month ∧ (dateOf n).month ≤ 12 ∧
      monthStart (dateOf n).monthIndex ≤ n + 719468 ∧
      n + 719468 < monthStart ((dateOf n).monthIndex + 1) ∧
      (dateOf n).day = n + 719468 - monthStart (dateOf n).monthIndex + 1 := by
  obtain ⟨hstart, hdoy, hnext⟩ := year_spec (n + 719468) rfl rfl
  unfold dateOf
  dsimp only
  generalize (n + 719468) % 146097 = doe at *
  generalize (doe - doe / 1460 + doe / 36524 - doe / 146096) / 365 = yoe at *
  generalize (n + 719468) / 146097 = era at *
  generalize hdoyEq : doe - (365 * yoe + yoe / 4 - yoe / 100) = doy at *
  obtain ⟨hlow, hhigh⟩ := @month_spec doy _ rfl
  generalize hmarch : (5 * doy + 2) / 153 = mp at *
  have hyear := year_step (yoe + era * 400)
  have hmp : 0 ≤ mp ∧ mp ≤ 11 := by omega
  have hmonth : 1 ≤ (if mp < 10 then mp + 3 else mp - 9) ∧
      (if mp < 10 then mp + 3 else mp - 9) ≤ 12 := by split <;> omega
  have hindex : Date.monthIndex
      ⟨yoe + era * 400 + if (if mp < 10 then mp + 3 else mp - 9) ≤ 2 then 1 else 0,
        if mp < 10 then mp + 3 else mp - 9, doy - (153 * mp + 2) / 5 + 1⟩ =
      12 * (yoe + era * 400) + mp := by
    unfold Date.monthIndex
    dsimp only
    by_cases hlate : mp < 10
    · rw [if_pos hlate, if_neg (by omega)]
      omega
    · rw [if_neg hlate, if_pos (by omega)]
      omega
  have hthis : monthStart (12 * (yoe + era * 400) + mp) =
      yearStart (yoe + era * 400) + (153 * mp + 2) / 5 := by
    unfold monthStart
    rw [show (12 * (yoe + era * 400) + mp) / 12 = yoe + era * 400 by omega,
      show (12 * (yoe + era * 400) + mp) % 12 = mp by omega]
  refine ⟨hmonth.1, hmonth.2, ?_, ?_, ?_⟩
  · rw [hindex, hthis]
    omega
  · rw [hindex]
    by_cases hlast : mp = 11
    · have hturn : monthStart (12 * (yoe + era * 400) + mp + 1) = yearStart (yoe + era * 400 + 1) := by
        unfold monthStart
        rw [show (12 * (yoe + era * 400) + mp + 1) / 12 = yoe + era * 400 + 1 by omega,
          show (12 * (yoe + era * 400) + mp + 1) % 12 = 0 by omega]
        omega
      rw [hturn]
      exact hnext
    · have hturn : monthStart (12 * (yoe + era * 400) + mp + 1) =
          yearStart (yoe + era * 400) + (153 * (mp + 1) + 2) / 5 := by
        unfold monthStart
        rw [show (12 * (yoe + era * 400) + mp + 1) / 12 = yoe + era * 400 by omega,
          show (12 * (yoe + era * 400) + mp + 1) % 12 = mp + 1 by omega]
      rw [hturn]
      omega
  · rw [hindex, hthis]
    omega

theorem date_of_valid (n : Int) : (dateOf n).Valid := by
  obtain ⟨hpos, hle, hlow, hhigh, hday⟩ := date_of_spec n
  refine ⟨hpos, hle, by omega, ?_⟩
  rw [days_in_month_eq hpos hle, hday]
  show _ ≤ monthStart ((dateOf n).monthIndex + 1) - monthStart (dateOf n).monthIndex
  omega

@[simp] theorem to_day_date_of (n : Int) : (dateOf n).toDay = n := by
  obtain ⟨hpos, hle, -, -, hday⟩ := date_of_spec n
  rw [to_day_eq hpos hle, hday]
  omega

theorem date_of_month {k n : Int} (hlow : monthStart k ≤ n + 719468)
    (hhigh : n + 719468 < monthStart (k + 1)) :
    (dateOf n).monthIndex = k ∧ (dateOf n).day = n + 719468 - monthStart k + 1 := by
  obtain ⟨-, -, hlow', hhigh', hday⟩ := date_of_spec n
  have hindex := month_unique hlow' hhigh' hlow hhigh
  rw [hindex] at hday
  exact ⟨hindex, hday⟩

theorem month_index_mono {n n' : Int} (h : n ≤ n') :
    (dateOf n).monthIndex ≤ (dateOf n').monthIndex := by
  obtain ⟨-, -, hlow, -, -⟩ := date_of_spec n
  obtain ⟨-, -, -, hhigh, -⟩ := date_of_spec n'
  have hlt : monthStart (dateOf n).monthIndex < monthStart ((dateOf n').monthIndex + 1) := by omega
  have := month_start_strictMono.lt_iff_lt.mp hlt
  omega

/-! ## Other days of a month -/

/-- Another day of the same month. -/
def Date.withDay (date : Date) (day : Int) : Date :=
  ⟨date.year, date.month, day⟩

theorem to_day_with_day (n day : Int) :
    ((dateOf n).withDay day).toDay = monthStart (dateOf n).monthIndex + day - 719469 := by
  obtain ⟨hpos, hle, -⟩ := date_of_spec n
  exact @to_day_eq ((dateOf n).withDay day) hpos hle

/-! ## The months after a date -/

/-- The date with months added and the day cut to the length of the month. -/
def Date.addMonths (date : Date) (months : Int) : Date :=
  let index := 12 * date.year + (date.month - 1) + months
  let year := index / 12
  let month := index % 12 + 1
  ⟨year, month, min date.day (daysInMonth year month)⟩

theorem add_months_index (date : Date) (months : Int) :
    (date.addMonths months).monthIndex = date.monthIndex + months := by
  unfold Date.addMonths Date.monthIndex
  dsimp only
  omega

theorem to_day_add_month {n day : Int} (hday : day ≤ 28) :
    (((dateOf n).withDay day).addMonths 1).toDay =
      monthStart ((dateOf n).monthIndex + 1) + day - 719469 := by
  have hindex := add_months_index ((dateOf n).withDay day) 1
  have hmonth : 1 ≤ (((dateOf n).withDay day).addMonths 1).month ∧
      (((dateOf n).withDay day).addMonths 1).month ≤ 12 := by
    unfold Date.addMonths
    dsimp only
    omega
  have hlength := @days_in_month_eq (((dateOf n).withDay day).addMonths 1).year _
    hmonth.1 hmonth.2
  have hstep := month_step (((dateOf n).withDay day).addMonths 1).monthIndex
  have hcut : (((dateOf n).withDay day).addMonths 1).day =
      min day (daysInMonth (((dateOf n).withDay day).addMonths 1).year
        (((dateOf n).withDay day).addMonths 1).month) := rfl
  rw [to_day_eq hmonth.1 hmonth.2, hindex, hcut, hlength]
  rw [show 12 * (((dateOf n).withDay day).addMonths 1).year +
    (((dateOf n).withDay day).addMonths 1).month - 3 =
      (((dateOf n).withDay day).addMonths 1).monthIndex from rfl]
  rw [show (dateOf n).monthIndex = ((dateOf n).withDay day).monthIndex from rfl]
  omega

theorem add_month_day {date : Date} (h : date.Valid) :
    date.toDay + 28 ≤ (date.addMonths 1).toDay ∧ (date.addMonths 1).toDay ≤ date.toDay + 31 := by
  have hindex := add_months_index date 1
  have hmonth : 1 ≤ (date.addMonths 1).month ∧ (date.addMonths 1).month ≤ 12 := by
    unfold Date.addMonths
    dsimp only
    omega
  have hlength := @days_in_month_eq (date.addMonths 1).year _ hmonth.1 hmonth.2
  have hthis := @days_in_month_eq date.year _ h.month_pos h.month_le
  have hday : (date.addMonths 1).day =
      min date.day (daysInMonth (date.addMonths 1).year (date.addMonths 1).month) := rfl
  have hpos := h.day_pos
  have hle := h.day_le
  have hstep := month_step date.monthIndex
  have hnext := month_step (date.monthIndex + 1)
  rw [to_day_eq h.month_pos h.month_le, to_day_eq hmonth.1 hmonth.2, hindex, hday, hlength]
  rw [hthis] at hle
  rw [show 12 * (date.addMonths 1).year + (date.addMonths 1).month - 3 = date.monthIndex + 1
    from hindex]
  rw [show 12 * date.year + date.month - 3 = date.monthIndex from rfl] at hle
  omega

end AwsOps.Calendar

import Mathlib.Data.List.Chain
import AwsOps.Diagnosis.Schedule
import AwsOps.Foundation.Runs

/-!
# The two next runs agree

Both computations are compared with one rule on instants in microseconds: the interval, the Korean
day it falls on, or the first matching Korean day whose hour is still to come. `next_run_agreement`
states the agreement and what the rule promises about the next run.
-/

namespace AwsOps.Diagnosis

open Option Calendar ScheduleDetail

open Calendar (Date dateOf dayMicros dayStart dayOf checked)

/-! ## The rule -/

/-- The Korean day of an instant. -/
def kstDay (t : Int) : Int :=
  dayOf (t + kstOffset)

/-- The instant of an hour of a Korean day. -/
def atHour (day h : Int) : Int :=
  dayStart day + h * hourMicros - kstOffset

/-- The weekday of a day, with Sunday as 0. -/
def dayOfWeek (day : Int) : Int :=
  (day + 4) % 7

/-- The first of two instants, if it is later than `t`, and else the second. -/
def laterOf (t first second : Int) : Int :=
  if first ≤ t then second else first

/-- The next run by weekday. -/
def weekdayRule (biweekly : Bool) (t target h : Int) : Int :=
  let day := kstDay t + (target - dayOfWeek (kstDay t)) % 7
  laterOf t (atHour day h) (atHour (day + 7) h) + if biweekly then 7 * dayMicros else 0

/-- The next run by day of the month. -/
def monthDayRule (t target h : Int) : Int :=
  let date := (dateOf (kstDay t)).withDay target
  laterOf t (atHour date.toDay h) (atHour (date.addMonths 1).toDay h)

/-- The rule that both computations follow. -/
def nextRunRule (type : ScheduleFreq) (t : Int) (detail : ScheduleDetail) : Int :=
  match detail.partner type, detail.usableHour with
  | none, none => claimNextRun type t
  | none, some h => atHour (kstDay (claimNextRun type t)) h
  | some target, hour =>
    if type = .monthly then monthDayRule t target (hour.getD 0)
    else weekdayRule (type = .biweekly) t target (hour.getD 0)

/-- The instants of the years 100 to 9998. -/
def Supported (t : Int) : Prop :=
  dayStart (Date.toDay ⟨100, 1, 1⟩) ≤ t ∧ t < dayStart (Date.toDay ⟨9999, 1, 1⟩)

/-- The bounds on an instant can be checked. -/
instance (t : Int) : Decidable (Supported t) :=
  inferInstanceAs (Decidable (_ ∧ _))

section Bounds

variable {t day h low high : Int} {value : Option Int}

theorem in_range_eq_some {n : Int} (hvalue : inRange low high value = some n) :
    low ≤ n ∧ n ≤ high := by
  obtain ⟨-, hn⟩ := filter_eq_some_iff.mp hvalue
  exact of_decide_eq_true hn

theorem supported_day (ht : Supported t) : -683003 ≤ dayOf t ∧ dayOf t ≤ 2932531 := by
  have h0 : dayStart (Date.toDay ⟨100, 1, 1⟩) = -683003 * dayMicros := by decide
  have h1 : dayStart (Date.toDay ⟨9999, 1, 1⟩) = 2932532 * dayMicros := by decide
  unfold Supported at ht
  rw [h0, h1] at ht
  unfold dayMicros at ht
  unfold dayOf dayMicros
  omega

theorem kst_day_bounds (t : Int) : dayOf t ≤ kstDay t ∧ kstDay t ≤ dayOf t + 1 := by
  unfold kstDay kstOffset hourMicros dayOf dayMicros
  omega

/-- The years of the days that a next run may fall on are those of the calendar, and later than the
first century. -/
theorem year_bounds (h0 : -683003 ≤ day) (h1 : day ≤ 2932896) :
    100 ≤ (dateOf day).year ∧ (dateOf day).year ≤ 9999 := by
  have hlow := month_index_mono h0
  have hhigh := month_index_mono h1
  rw [show dateOf (-683003) = ⟨100, 1, 1⟩ by decide] at hlow
  rw [show dateOf 2932896 = ⟨9999, 12, 31⟩ by decide] at hhigh
  have hvalid := date_of_valid day
  have hpos := hvalid.month_pos
  have hle := hvalid.month_le
  unfold Date.monthIndex at hlow hhigh
  dsimp only at hlow hhigh
  omega

end Bounds

/-! ## The dispatcher follows the rule -/

section Dispatcher

variable {t h : Int}

theorem claim_bounds (type : ScheduleFreq) (t : Int) :
    t + 7 * dayMicros ≤ claimNextRun type t ∧ claimNextRun type t ≤ t + 31 * dayMicros := by
  cases type with
  | weekly =>
    unfold claimNextRun dayMicros
    dsimp only
    omega
  | biweekly =>
    unfold claimNextRun dayMicros
    dsimp only
    omega
  | monthly =>
    have hmonth := add_month_day (date_of_valid (dayOf t))
    rw [to_day_date_of] at hmonth
    unfold claimNextRun dayStart
    dsimp only
    unfold dayOf dayMicros at *
    omega

theorem replace_hour_eq (time h : Int) : replaceHour time h - kstOffset = atHour (dayOf time) h :=
  rfl

theorem add_days_eq {time days : Int} (h0 : firstDay ≤ dayOf time + days)
    (h1 : dayOf time + days ≤ lastDay) : addDays time days = some (time + days * dayMicros) := by
  unfold addDays checked
  rw [if_pos ⟨h0, h1⟩]
  rfl

theorem weekday_distance (time dow : Int) :
    ((dow + 6) % 7 - weekday time) % 7 = (dow - dayOfWeek (dayOf time)) % 7 := by
  unfold weekday dayOfWeek
  omega

theorem at_hour_add (day k h : Int) : atHour (day + k) h = atHour day h + k * dayMicros := by
  unfold atHour dayStart
  rw [Int.add_mul]
  omega

theorem day_of_at_hour (day : Int) (h0 : 0 ≤ h) (h1 : h ≤ 23) :
    dayOf (atHour day h + kstOffset) = day := by
  unfold atHour dayStart dayOf dayMicros hourMicros
  omega

theorem precise_weekday_eq (ht : Supported t) (h0 : 0 ≤ h) (h1 : h ≤ 23) (biweekly : Bool)
    (dow : Int) :
    preciseWeekday biweekly dow h (t + kstOffset) =
      some (weekdayRule biweekly t dow h + kstOffset) := by
  have hday := supported_day ht
  have hkst := kst_day_bounds t
  have hfirst : firstDay = -719162 := rfl
  have hlast : lastDay = 2932896 := rfl
  have hreplaced : replaceHour (t + kstOffset) h = atHour (kstDay t) h + kstOffset := by
    have := replace_hour_eq (t + kstOffset) h
    unfold kstDay
    omega
  unfold preciseWeekday weekdayRule
  dsimp only
  rw [weekday_distance, hreplaced]
  rw [show dayOf (t + kstOffset) = kstDay t from rfl]
  generalize hk : (dow - dayOfWeek (kstDay t)) % 7 = k
  have hbound : 0 ≤ k ∧ k ≤ 6 := by omega
  have hplus (day k : Int) (hd0 : -683003 ≤ day) (hd1 : day ≤ 2932546) (hk0 : 0 ≤ k)
      (hk1 : k ≤ 7) :
      addDays (atHour day h + kstOffset) k = some (atHour (day + k) h + kstOffset) := by
    have hsame := day_of_at_hour day h0 h1
    rw [add_days_eq (by omega) (by omega), at_hour_add]
    congr 1
    omega
  have htail (day : Int) (hd0 : -683003 ≤ day) (hd1 : day ≤ 2932546) :
      (if biweekly = true then addDays (atHour day h + kstOffset) 7
        else some (atHour day h + kstOffset)) =
        some (atHour day h + (if biweekly = true then 7 * dayMicros else 0) + kstOffset) := by
    split
    · rw [hplus day 7 hd0 hd1 (by omega) (by omega), at_hour_add]
    · rw [Int.add_zero]
  rw [hplus _ k (by omega) (by omega) hbound.1 (by omega)]
  simp only [bind_eq_bind, bind_some]
  have hcompare : atHour (kstDay t + k) h + kstOffset ≤ t + kstOffset ↔
      atHour (kstDay t + k) h ≤ t := by omega
  unfold laterOf
  by_cases hpast : atHour (kstDay t + k) h ≤ t
  · rw [if_pos (hcompare.mpr hpast), if_pos hpast,
      hplus (kstDay t + k) 7 (by omega) (by omega) (by omega) (by omega), bind_some]
    exact htail _ (by omega) (by omega)
  · rw [if_neg (fun hle => hpast (hcompare.mp hle)), if_neg hpast]
    exact htail _ (by omega) (by omega)

theorem month_of_with_day {day target : Int} (h0 : 1 ≤ target) (h1 : target ≤ 28) :
    (dateOf ((dateOf day).withDay target).toDay).monthIndex = (dateOf day).monthIndex := by
  have hday := to_day_with_day day target
  have hstep := month_step (dateOf day).monthIndex
  exact (date_of_month (by omega) (by omega)).1

theorem month_of_hop (day : Int) :
    (dateOf (((dateOf day).withDay 1).toDay + 32)).monthIndex = (dateOf day).monthIndex + 1 := by
  have hday := to_day_with_day day 1
  have hstep := month_step (dateOf day).monthIndex
  have hnext := month_step ((dateOf day).monthIndex + 1)
  exact (date_of_month (by omega) (by omega)).1

theorem replace_day_at_hour (day target : Int) (h0 : 0 ≤ h) (h1 : h ≤ 23) :
    replaceDay (atHour day h + kstOffset) target =
      atHour ((dateOf day).withDay target).toDay h + kstOffset := by
  unfold replaceDay
  rw [day_of_at_hour day h0 h1]
  have htime : (atHour day h + kstOffset) % dayMicros = h * hourMicros := by
    unfold atHour dayStart dayMicros hourMicros
    omega
  rw [htime]
  unfold atHour
  omega

theorem precise_month_day_eq {dom : Int} (ht : Supported t) (h0 : 0 ≤ h) (h1 : h ≤ 23)
    (hd0 : 1 ≤ dom) (hd1 : dom ≤ 28) :
    preciseMonthDay dom h (t + kstOffset) = some (monthDayRule t dom h + kstOffset) := by
  have hday := supported_day ht
  have hkst := kst_day_bounds t
  have hfirst : firstDay = -719162 := rfl
  have hlast : lastDay = 2932896 := rfl
  obtain ⟨-, -, hlow, hhigh, -⟩ := date_of_spec (kstDay t)
  have hstep := month_step (dateOf (kstDay t)).monthIndex
  have hreplaced : replaceHour (replaceDay (t + kstOffset) dom) h =
      atHour ((dateOf (kstDay t)).withDay dom).toDay h + kstOffset := by
    have hsame : dayOf (replaceDay (t + kstOffset) dom) = ((dateOf (kstDay t)).withDay dom).toDay := by
      unfold replaceDay
      rw [show dayOf (t + kstOffset) = kstDay t from rfl]
      unfold dayStart dayOf dayMicros
      omega
    have := replace_hour_eq (replaceDay (t + kstOffset) dom) h
    rw [hsame] at this
    omega
  have hone := to_day_with_day (kstDay t) 1
  unfold preciseMonthDay monthDayRule laterOf
  dsimp only
  rw [hreplaced]
  by_cases hpast : atHour ((dateOf (kstDay t)).withDay dom).toDay h ≤ t
  · rw [if_pos (by omega), if_pos hpast, replace_day_at_hour _ 1 h0 h1]
    have hback : ((dateOf ((dateOf (kstDay t)).withDay dom).toDay).withDay 1).toDay =
        ((dateOf (kstDay t)).withDay 1).toDay := by
      rw [to_day_with_day, month_of_with_day hd0 hd1, hone]
    have hhop : addDays (atHour ((dateOf (kstDay t)).withDay 1).toDay h + kstOffset) 32 =
        some (atHour (((dateOf (kstDay t)).withDay 1).toDay + 32) h + kstOffset) := by
      have hsame := day_of_at_hour ((dateOf (kstDay t)).withDay 1).toDay h0 h1
      rw [add_days_eq (by omega) (by omega), at_hour_add]
      congr 1
      omega
    rw [hback, hhop, bind_eq_bind, bind_some, replace_day_at_hour _ dom h0 h1,
      to_day_with_day, month_of_hop, to_day_add_month hd1]
    rfl
  · rw [if_neg (by omega), if_neg hpast]

/-- What the update that follows a claim stores, when it is made at a later time. -/
def refinedNextRun (type : ScheduleFreq) (detail : ScheduleDetail) (claimedAt now : Int) : Int :=
  let claimed := claimNextRun type claimedAt
  match preciseNextRun type detail (now + kstOffset)
      ((checked (dayOf claimed)).map fun _ => claimed) with
  | some (some time) => time - kstOffset
  | _ => claimed

theorem refined_next_run_eq (type : ScheduleFreq) (detail : ScheduleDetail) (ht : Supported t)
    {now : Int} (hnow : Supported now) : refinedNextRun type detail t now =
      nextRunRule type (if detail.partner type = none then t else now) detail := by
  have hday := supported_day ht
  have hfirst : firstDay = -719162 := rfl
  have hlast : lastDay = 2932896 := rfl
  have hclaim := claim_bounds type t
  have hclaimDay : dayOf t ≤ dayOf (claimNextRun type t) ∧
      dayOf (claimNextRun type t) ≤ dayOf t + 31 ∧
      dayOf t ≤ dayOf (claimNextRun type t + kstOffset) ∧
      dayOf (claimNextRun type t + kstOffset) ≤ dayOf t + 32 := by
    unfold dayOf kstOffset hourMicros dayMicros at *
    omega
  have hhour : ∀ h, detail.usableHour = some h → 0 ≤ h ∧ h ≤ 23 := fun h heq => in_range_eq_some heq
  have hgetD : 0 ≤ detail.usableHour.getD 0 ∧ detail.usableHour.getD 0 ≤ 23 := by
    cases heq : detail.usableHour with
    | none => exact ⟨le_refl 0, by decide⟩
    | some h => exact hhour h heq
  have hchecked : checked (dayOf (claimNextRun type t)) = some (dayOf (claimNextRun type t)) :=
    if_pos (by omega)
  unfold refinedNextRun preciseNextRun nextRunRule
  dsimp only
  rw [hchecked]
  cases hpartner : detail.partner type with
  | none =>
    cases hh : detail.usableHour with
    | none => rfl
    | some h =>
      have hcheckedKst : checked (dayOf (claimNextRun type t + kstOffset)) =
          some (dayOf (claimNextRun type t + kstOffset)) := if_pos (by omega)
      simp only [preciseHour, map_some, hcheckedKst, bind_eq_bind, bind_some]
      exact replace_hour_eq _ h
  | some target =>
    rw [if_neg (some_ne_none target)]
    dsimp only
    by_cases hmonthly : type = .monthly
    · have hrange : 1 ≤ target ∧ target ≤ 28 := by
        unfold partner at hpartner
        rw [if_pos hmonthly] at hpartner
        exact in_range_eq_some hpartner
      rw [if_pos hmonthly, if_pos hmonthly,
        precise_month_day_eq hnow hgetD.1 hgetD.2 hrange.1 hrange.2]
      show _ + kstOffset - kstOffset = _
      omega
    · rw [if_neg hmonthly, if_neg hmonthly, precise_weekday_eq hnow hgetD.1 hgetD.2]
      show _ + kstOffset - kstOffset = _
      omega

theorem stored_next_run_eq (type : ScheduleFreq) (detail : ScheduleDetail) (ht : Supported t) :
    storedNextRun type detail t = nextRunRule type t detail :=
  (refined_next_run_eq type detail ht ht).trans (by rw [ite_self])

end Dispatcher

/-! ## The web application follows the rule -/

section Bff

open JsDate (timeClip makeDay utc msPerDay msPerHour utcFullYear utcMonth utcDate utcDay)

variable {t h x : Int}

theorem js_day_of (t : Int) : JsDate.dayOf (t / 1000) = dayOf t := by
  unfold JsDate.dayOf msPerDay dayOf dayMicros
  omega

theorem make_day_later (x months day : Int) : makeDay (utcFullYear x) (utcMonth x + months) day =
      monthStart ((dateOf (JsDate.dayOf x)).monthIndex + months) + day - 719469 := by
  have hindex := JsDate.fields_index x
  rw [JsDate.make_day_eq]
  rw [show 12 * utcFullYear x + (utcMonth x + months) - 2 =
    (dateOf (JsDate.dayOf x)).monthIndex + months by omega]

theorem time_clip_day {day time : Int} (h0 : -690000 ≤ day) (h1 : day ≤ 2940000)
    (ht0 : -msPerDay ≤ time) (ht1 : time ≤ 2 * msPerDay) :
    timeClip (day * msPerDay + time) = some (day * msPerDay + time) := by
  refine JsDate.time_clip_eq ?_ ?_ <;>
  · unfold msPerDay at *
    omega

theorem kst_parts_eq (h0 : -690000 ≤ dayOf t) (h1 : dayOf t ≤ 2940000) :
    kstParts (t / 1000) = some ((t + kstOffset) / 1000) := by
  have hclip := @time_clip_day (dayOf t) (t / 1000 % msPerDay + kstOffsetMs) h0 h1
    (by unfold msPerDay kstOffsetMs; omega) (by unfold msPerDay kstOffsetMs; omega)
  unfold kstParts
  rw [show t / 1000 + kstOffsetMs = dayOf t * msPerDay + (t / 1000 % msPerDay + kstOffsetMs) by
    unfold dayOf dayMicros msPerDay; omega, hclip]
  congr 1
  unfold dayOf dayMicros msPerDay kstOffsetMs kstOffset hourMicros
  omega

theorem utc_at_hour {year month day : Int} (hyear : 100 ≤ year)
    (h0 : -690000 ≤ makeDay year month day) (h1 : makeDay year month day ≤ 2940000)
    (hh0 : 0 ≤ h) (hh1 : h ≤ 23) :
    utc year month day h = some ((atHour (makeDay year month day) h + kstOffset) / 1000) := by
  unfold utc
  rw [JsDate.full_year_eq hyear, time_clip_day h0 h1 (by unfold msPerHour msPerDay; omega)
    (by unfold msPerHour msPerDay; omega)]
  congr 1
  unfold atHour dayStart dayMicros hourMicros kstOffset hourMicros msPerHour msPerDay
  omega

theorem clip_at_hour {day : Int} (h0 : -690000 ≤ day) (h1 : day ≤ 2940000) (hh0 : 0 ≤ h)
    (hh1 : h ≤ 23) :
    timeClip ((atHour day h + kstOffset) / 1000 - kstOffsetMs) = some (atHour day h / 1000) := by
  rw [show (atHour day h + kstOffset) / 1000 - kstOffsetMs =
    day * msPerDay + (h * msPerHour - kstOffsetMs) by
      unfold atHour dayStart dayMicros kstOffset hourMicros kstOffsetMs msPerDay msPerHour
      omega]
  rw [time_clip_day h0 h1 (by unfold msPerHour kstOffsetMs msPerDay; omega)
    (by unfold msPerHour kstOffsetMs msPerDay; omega)]
  congr 1
  unfold atHour dayStart dayMicros kstOffset hourMicros kstOffsetMs msPerDay msPerHour
  omega

theorem set_utc_date_later {days : Int} (ht : Supported t) (h0 : 0 ≤ days) (h1 : days ≤ 14) :
    JsDate.setUtcDate (t / 1000) (utcDate (t / 1000) + days) =
      some ((t + days * dayMicros) / 1000) := by
  have hday := supported_day ht
  unfold JsDate.setUtcDate
  rw [JsDate.make_day_shift, JsDate.make_day_fields, js_day_of,
    time_clip_day (by omega) (by omega) (by unfold msPerDay; omega) (by unfold msPerDay; omega)]
  congr 1
  unfold dayOf dayMicros msPerDay
  omega

theorem js_day_of_time {day time : Int} (h0 : 0 ≤ time) (h1 : time < msPerDay) :
    JsDate.dayOf (day * msPerDay + time) = day ∧ (day * msPerDay + time) % msPerDay = time := by
  unfold JsDate.dayOf msPerDay at *
  omega

theorem date_of_month_start (k : Int) : (dateOf (monthStart k - 719468)).monthIndex = k ∧
      (dateOf (monthStart k - 719468)).day = 1 := by
  have hstep := month_step k
  obtain ⟨hindex, hday⟩ := @date_of_month k (monthStart k - 719468) (by omega)
    (by omega)
  exact ⟨hindex, by omega⟩

theorem date_of_month_end (k : Int) : (dateOf (monthStart (k + 1) - 719469)).day =
      monthStart (k + 1) - monthStart k := by
  have hstep := month_step k
  have hday := (@date_of_month k (monthStart (k + 1) - 719469) (by omega) (by omega)).2
  omega

theorem add_month_clamped_eq (ht : Supported t) :
    addMonthClamped (t / 1000) = some (claimNextRun .monthly t / 1000) := by
  have hday := supported_day ht
  obtain ⟨hpos, hle, hlow, hhigh, hdate⟩ := date_of_spec (dayOf t)
  generalize hk : (dateOf (dayOf t)).monthIndex = k at *
  have hstep := month_step k
  have hnext := month_step (k + 1)
  have htime : 0 ≤ t / 1000 % msPerDay ∧ t / 1000 % msPerDay < msPerDay := by
    unfold msPerDay
    omega
  -- The first of this month.
  have hfirst : JsDate.setUtcDate (t / 1000) 1 =
      some ((monthStart k - 719468) * msPerDay + t / 1000 % msPerDay) := by
    have hmake := make_day_later (t / 1000) 0 1
    rw [Int.add_zero, js_day_of, hk, Int.add_zero] at hmake
    unfold JsDate.setUtcDate
    rw [hmake, show monthStart k + 1 - 719469 = monthStart k - 719468 by omega]
    exact time_clip_day (by omega) (by omega) (by omega) (by omega)
  generalize hd1 : (monthStart k - 719468) * msPerDay + t / 1000 % msPerDay = d1 at hfirst
  have hd1Day : JsDate.dayOf d1 = monthStart k - 719468 ∧ d1 % msPerDay = t / 1000 % msPerDay := by
    rw [← hd1]
    exact js_day_of_time htime.1 htime.2
  -- The first of the next month.
  have hsecond : JsDate.setUtcMonth d1 (utcMonth d1 + 1) =
      some ((monthStart (k + 1) - 719468) * msPerDay + t / 1000 % msPerDay) := by
    have hmake := make_day_later d1 1 (utcDate d1)
    rw [hd1Day.1, (date_of_month_start k).1] at hmake
    have hone : utcDate d1 = 1 := by
      unfold JsDate.utcDate
      rw [hd1Day.1]
      exact (date_of_month_start k).2
    unfold JsDate.setUtcMonth
    rw [hmake, hone, hd1Day.2,
      show monthStart (k + 1) + 1 - 719469 = monthStart (k + 1) - 719468 by omega]
    exact time_clip_day (by omega) (by omega) (by omega) (by omega)
  generalize hd2 : (monthStart (k + 1) - 719468) * msPerDay + t / 1000 % msPerDay = d2
    at hsecond
  have hd2Day : JsDate.dayOf d2 = monthStart (k + 1) - 719468 ∧
      d2 % msPerDay = t / 1000 % msPerDay := by
    rw [← hd2]
    exact js_day_of_time htime.1 htime.2
  -- The last of the next month.
  have hlast : utc (utcFullYear d2) (utcMonth d2 + 1) 0 0 =
      some ((monthStart (k + 1 + 1) - 719469) * msPerDay) := by
    have hmake := make_day_later d2 1 0
    rw [hd2Day.1, (date_of_month_start (k + 1)).1, Int.add_zero] at hmake
    have hfull : 100 ≤ utcFullYear d2 := by
      unfold JsDate.utcFullYear
      rw [hd2Day.1]
      exact (year_bounds (by omega) (by omega)).1
    unfold JsDate.utc
    rw [JsDate.full_year_eq hfull, hmake, Int.zero_mul]
    have hclip := @time_clip_day (monthStart (k + 1 + 1) - 719469) 0 (by omega) (by omega)
      (by unfold msPerDay; omega) (by unfold msPerDay; omega)
    rw [hclip, Int.add_zero]
  have hlastDate : utcDate ((monthStart (k + 1 + 1) - 719469) * msPerDay) =
      monthStart (k + 1 + 1) - monthStart (k + 1) := by
    have hdayOf : JsDate.dayOf ((monthStart (k + 1 + 1) - 719469) * msPerDay) =
        monthStart (k + 1 + 1) - 719469 := by
      unfold JsDate.dayOf msPerDay
      omega
    unfold JsDate.utcDate
    rw [hdayOf]
    exact date_of_month_end (k + 1)
  -- The day that is asked for, or the last one.
  have hclaim : ((dateOf (dayOf t)).addMonths 1).toDay = monthStart (k + 1) +
      min (dateOf (dayOf t)).day (monthStart (k + 1 + 1) - monthStart (k + 1)) -
        719469 := by
    have hindex := add_months_index (dateOf (dayOf t)) 1
    have hmonth : 1 ≤ ((dateOf (dayOf t)).addMonths 1).month ∧
        ((dateOf (dayOf t)).addMonths 1).month ≤ 12 := by
      unfold Calendar.Date.addMonths
      dsimp only
      omega
    have hlength := @days_in_month_eq ((dateOf (dayOf t)).addMonths 1).year _ hmonth.1
      hmonth.2
    rw [show 12 * ((dateOf (dayOf t)).addMonths 1).year + ((dateOf (dayOf t)).addMonths 1).month - 3 =
      ((dateOf (dayOf t)).addMonths 1).monthIndex from rfl, hindex, hk] at hlength
    rw [to_day_eq hmonth.1 hmonth.2, hindex, hk, ← hlength]
    rfl
  have hutcDate : utcDate (t / 1000) = (dateOf (dayOf t)).day := by
    unfold JsDate.utcDate
    rw [js_day_of]
  have hmake := make_day_later d2 0
    (min (utcDate (t / 1000)) (monthStart (k + 1 + 1) - monthStart (k + 1)))
  rw [Int.add_zero, hd2Day.1, (date_of_month_start (k + 1)).1, Int.add_zero, hutcDate, ← hclaim]
    at hmake
  unfold addMonthClamped claimNextRun
  simp only [hfirst, hsecond, hlast, hlastDate, bind_eq_bind, bind_some]
  unfold JsDate.setUtcDate
  rw [hutcDate, hmake, hd2Day.2, time_clip_day (by omega) (by omega) (by omega) (by omega)]
  congr 1
  unfold dayStart dayMicros msPerDay
  omega

theorem add_interval_eq (type : ScheduleFreq) (ht : Supported t) :
    addInterval type (t / 1000) = some (claimNextRun type t / 1000) := by
  cases type with
  | weekly => exact set_utc_date_later ht (by omega) (by omega)
  | biweekly => exact set_utc_date_later ht (by omega) (by omega)
  | monthly => exact add_month_clamped_eq ht

theorem compute_interval_eq (type : ScheduleFreq) (ht : Supported t) (hour : Option Int)
    (hrange : ∀ h, hour = some h → 0 ≤ h ∧ h ≤ 23) :
    computeInterval type (t / 1000) hour = some ((match hour with
      | none => claimNextRun type t
      | some h => atHour (kstDay (claimNextRun type t)) h) / 1000) := by
  have hday := supported_day ht
  have hclaim := claim_bounds type t
  have hclaimDay : dayOf t ≤ dayOf (claimNextRun type t) ∧
      dayOf (claimNextRun type t) ≤ dayOf t + 31 := by
    unfold dayOf dayMicros at *
    omega
  have hkst := kst_day_bounds (claimNextRun type t)
  unfold computeInterval
  rw [add_interval_eq type ht, bind_eq_bind, bind_some]
  cases hour with
  | none => rfl
  | some h =>
    obtain ⟨h0, h1⟩ := hrange h rfl
    have hmake := JsDate.make_day_fields ((claimNextRun type t + kstOffset) / 1000)
    rw [js_day_of] at hmake
    have hfull : 100 ≤ utcFullYear ((claimNextRun type t + kstOffset) / 1000) := by
      unfold JsDate.utcFullYear
      rw [js_day_of]
      exact (@year_bounds (kstDay (claimNextRun type t)) (by omega) (by omega)).1
    dsimp only
    rw [kst_parts_eq (by omega) (by omega), bind_some,
      utc_at_hour hfull (by rw [hmake]; unfold kstDay at hkst; omega)
        (by rw [hmake]; unfold kstDay at hkst; omega) h0 h1, bind_some, hmake]
    exact clip_at_hour (by unfold kstDay at hkst; omega) (by unfold kstDay at hkst; omega) h0 h1

theorem past_iff {day : Int} :
    (atHour day h + kstOffset) / 1000 - kstOffsetMs ≤ t / 1000 ↔ atHour day h ≤ t := by
  unfold atHour dayStart dayMicros kstOffset hourMicros kstOffsetMs
  omega

theorem week_later {day : Int} (h0 : -690000 ≤ day) (h1 : day ≤ 2930000 + 9900) (hh0 : 0 ≤ h)
    (hh1 : h ≤ 23) :
    timeClip ((atHour day h + kstOffset) / 1000 + 7 * msPerDay) =
      some ((atHour (day + 7) h + kstOffset) / 1000) := by
  rw [show (atHour day h + kstOffset) / 1000 + 7 * msPerDay = (day + 7) * msPerDay + h * msPerHour by
    unfold atHour dayStart dayMicros kstOffset hourMicros msPerDay msPerHour
    omega]
  rw [time_clip_day (by omega) (by omega) (by unfold msPerHour msPerDay; omega)
    (by unfold msPerHour msPerDay; omega)]
  congr 1
  unfold atHour dayStart dayMicros kstOffset hourMicros msPerDay msPerHour
  omega

theorem compute_weekday_eq (ht : Supported t) (h0 : 0 ≤ h) (h1 : h ≤ 23) (biweekly : Bool)
    (target : Int) :
    computeWeekday biweekly (t / 1000) target h = some (weekdayRule biweekly t target h / 1000) := by
  have hday := supported_day ht
  have hkst := kst_day_bounds t
  have hmake := JsDate.make_day_fields ((t + kstOffset) / 1000)
  have hfull : 100 ≤ utcFullYear ((t + kstOffset) / 1000) := by
    unfold JsDate.utcFullYear
    rw [js_day_of]
    exact (@year_bounds (kstDay t) (by omega) (by omega)).1
  have hutcDay : utcDay ((t + kstOffset) / 1000) = dayOfWeek (kstDay t) := by
    unfold JsDate.utcDay dayOfWeek
    rw [js_day_of]
    rfl
  have hdistance : (target - dayOfWeek (kstDay t) + 7) % 7 = (target - dayOfWeek (kstDay t)) % 7 := by
    omega
  rw [js_day_of, show dayOf (t + kstOffset) = kstDay t from rfl] at hmake
  unfold computeWeekday weekdayRule
  dsimp only
  rw [kst_parts_eq (by omega) (by omega), bind_eq_bind, bind_some, hutcDay, hdistance]
  generalize hk : (target - dayOfWeek (kstDay t)) % 7 = k
  have hcand : makeDay (utcFullYear ((t + kstOffset) / 1000)) (utcMonth ((t + kstOffset) / 1000))
      (utcDate ((t + kstOffset) / 1000) + k) = kstDay t + k := by
    rw [JsDate.make_day_shift, hmake]
  have htail (day : Int) (hd0 : -690000 ≤ day) (hd1 : day ≤ 2933000) : (if biweekly = true then
          (timeClip ((atHour day h + kstOffset) / 1000 + 7 * msPerDay)).bind fun cand =>
            timeClip (cand - kstOffsetMs)
        else (some ((atHour day h + kstOffset) / 1000)).bind fun cand =>
            timeClip (cand - kstOffsetMs)) =
        some ((atHour day h + if biweekly = true then 7 * dayMicros else 0) / 1000) := by
    split
    · rw [week_later hd0 (by omega) h0 h1, bind_some,
        clip_at_hour (by omega) (by omega) h0 h1, at_hour_add]
    · rw [bind_some, clip_at_hour (by omega) (by omega) h0 h1, Int.add_zero]
  rw [utc_at_hour hfull (by rw [hcand]; omega) (by rw [hcand]; omega) h0 h1, hcand, bind_some]
  unfold laterOf
  by_cases hpast : atHour (kstDay t + k) h ≤ t
  · rw [if_pos (past_iff.mpr hpast), if_pos hpast, week_later (by omega) (by omega) h0 h1,
      bind_some]
    exact htail (kstDay t + k + 7) (by omega) (by omega)
  · rw [if_neg (fun hle => hpast (past_iff.mp hle)), if_neg hpast, bind_some]
    exact htail (kstDay t + k) (by omega) (by omega)

theorem compute_month_day_eq (ht : Supported t) (h0 : 0 ≤ h) (h1 : h ≤ 23) {target : Int}
    (hd0 : 1 ≤ target) (hd1 : target ≤ 28) :
    computeMonthDay (t / 1000) target h = some (monthDayRule t target h / 1000) := by
  have hday := supported_day ht
  have hkst := kst_day_bounds t
  obtain ⟨-, -, hlow, hhigh, -⟩ := date_of_spec (kstDay t)
  have hstep := month_step (dateOf (kstDay t)).monthIndex
  have hfull : 100 ≤ utcFullYear ((t + kstOffset) / 1000) := by
    unfold JsDate.utcFullYear
    rw [js_day_of]
    exact (@year_bounds (kstDay t) (by omega) (by omega)).1
  have hthis : makeDay (utcFullYear ((t + kstOffset) / 1000)) (utcMonth ((t + kstOffset) / 1000))
      target = ((dateOf (kstDay t)).withDay target).toDay := by
    have hmake := make_day_later ((t + kstOffset) / 1000) 0 target
    rw [Int.add_zero, js_day_of, Int.add_zero] at hmake
    rw [hmake, to_day_with_day]
    rfl
  have hnext : makeDay (utcFullYear ((t + kstOffset) / 1000))
      (utcMonth ((t + kstOffset) / 1000) + 1) target =
        (((dateOf (kstDay t)).withDay target).addMonths 1).toDay := by
    have hmake := make_day_later ((t + kstOffset) / 1000) 1 target
    rw [js_day_of] at hmake
    rw [hmake, to_day_add_month hd1]
    rfl
  have hthisDay := to_day_with_day (kstDay t) target
  have hnextDay := @to_day_add_month (kstDay t) target hd1
  unfold computeMonthDay monthDayRule laterOf
  dsimp only
  rw [kst_parts_eq (by omega) (by omega), bind_eq_bind, bind_some,
    utc_at_hour hfull (by rw [hthis]; omega) (by rw [hthis]; omega) h0 h1, hthis, bind_some]
  by_cases hpast : atHour ((dateOf (kstDay t)).withDay target).toDay h ≤ t
  · rw [if_pos (past_iff.mpr hpast), if_pos hpast,
      utc_at_hour hfull (by rw [hnext]; omega) (by rw [hnext]; omega) h0 h1, hnext, bind_some]
    exact clip_at_hour (by omega) (by omega) h0 h1
  · rw [if_neg (fun hle => hpast (past_iff.mp hle)), if_neg hpast, bind_some]
    exact clip_at_hour (by omega) (by omega) h0 h1

theorem compute_next_run_eq (type : ScheduleFreq) (detail : ScheduleDetail) (ht : Supported t) :
    computeNextRun type (t / 1000) detail = some (nextRunRule type t detail / 1000) := by
  have hhour : ∀ h, detail.usableHour = some h → 0 ≤ h ∧ h ≤ 23 := fun h heq => in_range_eq_some heq
  have hgetD : 0 ≤ detail.usableHour.getD 0 ∧ detail.usableHour.getD 0 ≤ 23 := by
    cases heq : detail.usableHour with
    | none => exact ⟨le_refl 0, by decide⟩
    | some h => exact hhour h heq
  unfold computeNextRun nextRunRule
  cases hpartner : detail.partner type with
  | none =>
    dsimp only
    rw [compute_interval_eq type ht _ hhour]
    cases detail.usableHour <;> rfl
  | some target =>
    dsimp only
    unfold partner at hpartner
    by_cases hmonthly : type = .monthly
    · rw [if_pos hmonthly] at hpartner
      have hrange := in_range_eq_some hpartner
      rw [if_pos hmonthly, if_pos hmonthly,
        compute_month_day_eq ht hgetD.1 hgetD.2 hrange.1 hrange.2]
    · rw [if_neg hmonthly, if_neg hmonthly, compute_weekday_eq ht hgetD.1 hgetD.2]

end Bff

/-! ## What the rule promises -/

section Promise

variable {t h : Int}

theorem kst_day_at_hour (day : Int) (h0 : 0 ≤ h) (h1 : h ≤ 23) : kstDay (atHour day h) = day :=
  day_of_at_hour day h0 h1

theorem at_hour_bounds (day : Int) (h0 : 0 ≤ h) (h1 : h ≤ 23) :
    t + (day - kstDay t - 1) * 86400000000 < atHour day h ∧
      atHour day h < t + (day - kstDay t + 1) * 86400000000 := by
  unfold atHour kstDay kstOffset dayStart dayOf dayMicros hourMicros
  omega

/-- The next run by weekday is the first or second one to come, on that weekday and at the hour. -/
theorem weekday_rule_spec (biweekly : Bool) {target : Int} (h0 : 0 ≤ h) (h1 : h ≤ 23)
    (ht0 : 0 ≤ target) (ht1 : target ≤ 6) :
    ∃ day, weekdayRule biweekly t target h = atHour day h ∧ dayOfWeek day = target ∧
      t < atHour day h ∧ atHour day h ≤ t + (if biweekly then 14 else 7) * dayMicros := by
  unfold weekdayRule laterOf
  dsimp only
  generalize hk : (target - dayOfWeek (kstDay t)) % 7 = k
  have hweekday : dayOfWeek (kstDay t + k) = target := by
    unfold dayOfWeek at *
    omega
  have hfirst := @at_hour_bounds t h (kstDay t + k) h0 h1
  have hsecond := at_hour_add (kstDay t + k) 7 h
  have hweek (day : Int) (n : Int) : dayOfWeek (day + 7 * n) = dayOfWeek day := by
    unfold dayOfWeek
    omega
  have hmicros : dayMicros = 86400000000 := rfl
  by_cases hpast : atHour (kstDay t + k) h ≤ t
  · rw [if_pos hpast]
    cases biweekly with
    | false =>
      refine ⟨kstDay t + k + 7, by rw [if_neg Bool.false_ne_true, Int.add_zero], ?_, ?_, ?_⟩
      · rw [← hweekday]
        exact hweek _ 1
      · omega
      · rw [if_neg Bool.false_ne_true]
        omega
    | true =>
      have hthird := at_hour_add (kstDay t + k) 14 h
      refine ⟨kstDay t + k + 14, by rw [if_pos rfl]; omega, ?_, ?_, ?_⟩
      · rw [← hweekday]
        exact hweek _ 2
      · omega
      · rw [if_pos rfl]
        omega
  · rw [if_neg hpast]
    cases biweekly with
    | false =>
      refine ⟨kstDay t + k, by rw [if_neg Bool.false_ne_true, Int.add_zero], hweekday, ?_, ?_⟩
      · omega
      · rw [if_neg Bool.false_ne_true]
        omega
    | true =>
      refine ⟨kstDay t + k + 7, by rw [if_pos rfl]; omega, ?_, ?_, ?_⟩
      · rw [← hweekday]
        exact hweek _ 1
      · omega
      · rw [if_pos rfl]
        omega

theorem month_day_rule_spec {target : Int} (h0 : 0 ≤ h) (h1 : h ≤ 23) (hd0 : 1 ≤ target)
    (hd1 : target ≤ 28) :
    ∃ day, monthDayRule t target h = atHour day h ∧ (dateOf day).day = target ∧
      t < atHour day h ∧ atHour day h ≤ t + 62 * dayMicros := by
  obtain ⟨-, -, hlow, hhigh, -⟩ := date_of_spec (kstDay t)
  have hstep := month_step (dateOf (kstDay t)).monthIndex
  have hnext := month_step ((dateOf (kstDay t)).monthIndex + 1)
  have hthisDay := to_day_with_day (kstDay t) target
  have hnextDay := @to_day_add_month (kstDay t) target hd1
  have hmicros : dayMicros = 86400000000 := rfl
  unfold monthDayRule laterOf
  dsimp only
  by_cases hpast : atHour ((dateOf (kstDay t)).withDay target).toDay h ≤ t
  · have hbounds := @at_hour_bounds t h
      (((dateOf (kstDay t)).withDay target).addMonths 1).toDay h0 h1
    have hdate := (@date_of_month ((dateOf (kstDay t)).monthIndex + 1)
      (((dateOf (kstDay t)).withDay target).addMonths 1).toDay (by omega) (by omega)).2
    rw [if_pos hpast]
    exact ⟨_, rfl, by omega, by omega, by omega⟩
  · have hbounds := @at_hour_bounds t h ((dateOf (kstDay t)).withDay target).toDay h0 h1
    have hdate := (@date_of_month (dateOf (kstDay t)).monthIndex
      ((dateOf (kstDay t)).withDay target).toDay (by omega) (by omega)).2
    rw [if_neg hpast]
    exact ⟨_, rfl, by omega, by omega, by omega⟩

/-- The next run is on the Korean weekday or day of the month that was asked for, and at the hour. -/
structure FallsOn (type : ScheduleFreq) (detail : ScheduleDetail) (next : Int) : Prop where
  weekday : type ≠ .monthly → ∀ d, inRange 0 6 detail.dayOfWeek = some d →
    dayOfWeek (kstDay next) = d
  monthDay : type = .monthly → ∀ d, inRange 1 28 detail.dayOfMonth = some d →
    (dateOf (kstDay next)).day = d
  hour : ∀ h, detail.usableHour = some h → next = atHour (kstDay next) h

/-- The schedule has an hour and no weekday or day of the month. -/
def HourAlone (type : ScheduleFreq) (detail : ScheduleDetail) : Prop :=
  detail.partner type = none ∧ detail.usableHour ≠ none

/-- The bound on the time to the next run. -/
def WithinBound (type : ScheduleFreq) (detail : ScheduleDetail) (t next : Int) : Prop :=
  match type with
  | .weekly => next ≤ t + 14 * dayMicros
  | .biweekly => next ≤ t + 14 * dayMicros ∨
      HourAlone .biweekly detail ∧ next < t + 15 * dayMicros
  | .monthly => next ≤ t + 62 * dayMicros

/-- What the rule promises of the next run. -/
structure Promised (type : ScheduleFreq) (detail : ScheduleDetail) (t next : Int) : Prop where
  later : t < next
  bound : WithinBound type detail t next
  fallsOn : FallsOn type detail next

theorem at_hour_millis (day h : Int) : atHour day h % 1000 = 0 := by
  unfold atHour dayStart dayMicros hourMicros kstOffset hourMicros
  omega

theorem interval_hour_bounds (type : ScheduleFreq) (h0 : 0 ≤ h) (h1 : h ≤ 23) :
    claimNextRun type t - dayMicros < atHour (kstDay (claimNextRun type t)) h ∧
      atHour (kstDay (claimNextRun type t)) h < claimNextRun type t + dayMicros := by
  have hbounds := @at_hour_bounds (claimNextRun type t) h (kstDay (claimNextRun type t)) h0 h1
  unfold dayMicros
  omega

theorem hour_range (detail : ScheduleDetail) :
    0 ≤ detail.usableHour.getD 0 ∧ detail.usableHour.getD 0 ≤ 23 := by
  cases heq : detail.usableHour with
  | none => exact ⟨le_refl 0, by decide⟩
  | some h => exact in_range_eq_some heq

variable {type : ScheduleFreq} {detail : ScheduleDetail}

theorem partner_range {target : Int} (h : detail.partner type = some target) :
    (type = .monthly → inRange 1 28 detail.dayOfMonth = some target ∧ 1 ≤ target ∧ target ≤ 28) ∧
      (type ≠ .monthly → inRange 0 6 detail.dayOfWeek = some target ∧ 0 ≤ target ∧ target ≤ 6) := by
  unfold partner at h
  constructor
  · intro hmonthly
    rw [if_pos hmonthly] at h
    exact ⟨h, in_range_eq_some h⟩
  · intro hweekly
    rw [if_neg hweekly] at h
    exact ⟨h, in_range_eq_some h⟩

theorem falls_on_hour {next : Int} (hpartner : detail.partner type = none)
    (hhour : ∀ h, detail.usableHour = some h → next = atHour (kstDay next) h) :
    FallsOn type detail next := by
  unfold partner at hpartner
  refine ⟨fun hweekly d hd => ?_, fun hmonthly d hd => ?_, hhour⟩
  · rw [if_neg hweekly, hd] at hpartner
    cases hpartner
  · rw [if_pos hmonthly, hd] at hpartner
    cases hpartner

theorem next_run_rule_millis
    (hwhole : t % 1000 = 0 ∨ detail.partner type ≠ none ∨ detail.usableHour ≠ none) :
    nextRunRule type t detail % 1000 = 0 := by
  unfold nextRunRule
  cases hpartner : detail.partner type with
  | none =>
    cases hhour : detail.usableHour with
    | none =>
      simp only [hpartner, hhour, ne_eq, not_true_eq_false, or_false] at hwhole
      unfold claimNextRun dayStart dayMicros
      cases type <;>
      · dsimp only
        omega
    | some h => exact at_hour_millis _ h
  | some target =>
    dsimp only
    unfold monthDayRule weekdayRule laterOf
    dsimp only
    have hmillis (day : Int) := at_hour_millis day (detail.usableHour.getD 0)
    split
    · split <;> exact hmillis _
    · have hweek : (if decide (type = .biweekly) = true then 7 * dayMicros else 0) % 1000 = 0 := by
        split <;> rfl
      split
      · rw [Int.add_emod, hmillis, hweek]
        rfl
      · rw [Int.add_emod, hmillis, hweek]
        rfl

theorem next_run_rule_promised (type : ScheduleFreq) (t : Int) (detail : ScheduleDetail) :
    Promised type detail t (nextRunRule type t detail) := by
  have hclaim := claim_bounds type t
  have hmicros : dayMicros = 86400000000 := rfl
  unfold nextRunRule
  cases hpartner : detail.partner type with
  | none =>
    cases hhour : detail.usableHour with
    | none =>
      refine ⟨by dsimp only; omega, ?_, falls_on_hour hpartner fun h hh => ?_⟩
      · cases type with
        | weekly =>
          show t + 7 * dayMicros ≤ _
          omega
        | biweekly => exact Or.inl (le_refl _)
        | monthly =>
          show claimNextRun .monthly t ≤ _
          omega
      · rw [hhour] at hh
        cases hh
    | some h =>
      obtain ⟨h0, h1⟩ := in_range_eq_some hhour
      have hbounds := @interval_hour_bounds t h type h0 h1
      refine ⟨by dsimp only; omega, ?_, falls_on_hour hpartner fun h' hh => ?_⟩
      · cases type with
        | weekly =>
          have hweek : claimNextRun .weekly t = t + 7 * dayMicros := rfl
          show atHour _ h ≤ _
          omega
        | biweekly =>
          have hweeks : claimNextRun .biweekly t = t + 14 * dayMicros := rfl
          refine Or.inr ⟨⟨hpartner, by rw [hhour]; exact some_ne_none h⟩, ?_⟩
          show atHour _ h < _
          omega
        | monthly =>
          show atHour _ h ≤ _
          omega
      · rw [hhour] at hh
        cases hh
        rw [kst_day_at_hour _ h0 h1]
  | some target =>
    have hrange := hour_range detail
    have hhour (day : Int) : ∀ h, detail.usableHour = some h →
        atHour day (detail.usableHour.getD 0) =
          atHour (kstDay (atHour day (detail.usableHour.getD 0))) h := fun h hh => by
      rw [kst_day_at_hour _ hrange.1 hrange.2, hh]
      rfl
    obtain ⟨hmonth, hweek⟩ := partner_range hpartner
    dsimp only
    by_cases hmonthly : type = .monthly
    · obtain ⟨hdetail, hd0, hd1⟩ := hmonth hmonthly
      obtain ⟨day, hrule, hday, hlater, hbound⟩ :=
        @month_day_rule_spec t _ target hrange.1 hrange.2 hd0 hd1
      rw [if_pos hmonthly, hrule]
      refine ⟨hlater, ?_, ⟨fun hne => absurd hmonthly hne, fun _ d hd => ?_, hhour day⟩⟩
      · subst hmonthly
        exact hbound
      · rw [hdetail] at hd
        cases hd
        rw [kst_day_at_hour _ hrange.1 hrange.2, hday]
    · obtain ⟨hdetail, hd0, hd1⟩ := hweek hmonthly
      obtain ⟨day, hrule, hday, hlater, hbound⟩ :=
        @weekday_rule_spec t _ (decide (type = .biweekly)) target hrange.1 hrange.2 hd0 hd1
      rw [if_neg hmonthly, hrule]
      refine ⟨hlater, ?_, ⟨fun _ d hd => ?_, fun heq => absurd heq hmonthly, hhour day⟩⟩
      · cases type with
        | weekly =>
          rw [if_neg (by decide)] at hbound
          show atHour _ _ ≤ _
          omega
        | biweekly =>
          rw [if_pos (by decide)] at hbound
          exact Or.inl hbound
        | monthly => exact absurd rfl hmonthly
      · rw [hdetail] at hd
        cases hd
        rw [kst_day_at_hour _ hrange.1 hrange.2, hday]

end Promise

/-- The two next runs agree at every instant of the years 100 to 9998, for every frequency and
detail: the web application's is the dispatcher's in milliseconds, without a rest where a detail is
used or the instant has none. It is later than the instant, within the bound of its frequency, and
falls on what was asked for. -/
theorem next_run_agreement (type : ScheduleFreq) (detail : ScheduleDetail) {t : Int}
    (ht : Supported t) :
    computeNextRun type (t / 1000) detail = some (storedNextRun type detail t / 1000) ∧
      (t % 1000 = 0 ∨ detail.partner type ≠ none ∨ detail.usableHour ≠ none →
        storedNextRun type detail t % 1000 = 0) ∧
      Promised type detail t (storedNextRun type detail t) := by
  rw [stored_next_run_eq type detail ht]
  exact ⟨compute_next_run_eq type detail ht, next_run_rule_millis,
    next_run_rule_promised type t detail⟩

/-- The two next runs of a monthly schedule with an hour alone, at the end of January. -/
theorem next_run_agreement_january :
    computeNextRun .monthly 1769871600000 ⟨none, none, some 9⟩ = some 1772323200000 ∧
      storedNextRun .monthly ⟨none, none, some 9⟩ 1769871600000000 = 1772323200000000 := by
  have ht : Supported 1769871600000000 := by decide +kernel
  have hagree := next_run_agreement .monthly ⟨none, none, some 9⟩ ht
  have hstored : storedNextRun .monthly ⟨none, none, some 9⟩ 1769871600000000 = 1772323200000000 := by
    decide +kernel
  refine ⟨?_, hstored⟩
  have hbff := hagree.1
  rw [hstored] at hbff
  exact hbff

/-- A biweekly schedule with the hour 23 alone, computed at the start of a Korean day, runs 14 days
and 23 hours later. -/
theorem biweekly_hour_exceeds :
    computeNextRun .biweekly 1767193200000 ⟨none, none, some 23⟩ = some 1768485600000 ∧
      storedNextRun .biweekly ⟨none, none, some 23⟩ 1767193200000000 = 1768485600000000 ∧
      (1768485600000000 : Int) = 1767193200000000 + 14 * dayMicros + 23 * hourMicros := by
  decide +kernel

/-! ## Concurrent invocations -/

section Dispatch

open Runs

/-- A row of `report_schedules` that its user leaves alone, with the times of the claims on it,
latest first, and the clock. -/
structure Dispatch where
  type : ScheduleFreq
  detail : ScheduleDetail
  enabled : Bool
  nextRunAt : Int
  claims : List Int
  clock : Int

/-- What an invocation of the dispatcher does: it claims the row if it is due, or makes the update
that follows its claim. It may die in between. -/
inductive DispatchAction
  | claim
  | refine (claimedAt : Int)
  deriving DecidableEq

/-- An action at a time. The update that follows a claim needs what the claim has stored. -/
def Dispatch.step (s : Dispatch) (a : DispatchAction × Int) : Option Dispatch :=
  let now := a.2
  if now < s.clock then none
  else
    match a.1 with
    | .claim =>
      if s.enabled && decide (s.nextRunAt ≤ now) then
        some { s with
          nextRunAt := claimNextRun s.type now
          claims := now :: s.claims
          clock := now }
      else some { s with clock := now }
    | .refine claimedAt =>
      if claimedAt ∈ s.claims then
        some { s with
          nextRunAt :=
            if s.nextRunAt = claimNextRun s.type claimedAt then
              refinedNextRun s.type s.detail claimedAt now
            else s.nextRunAt
          clock := now }
      else none

variable {type : ScheduleFreq} {detail : ScheduleDetail} {last next now : Int} {s t : Dispatch}

/-- A next run after a claim: one interval later, or on what was asked for. -/
def DueAfter (type : ScheduleFreq) (detail : ScheduleDetail) (last due : Int) : Prop :=
  last < due ∧ (due = claimNextRun type last ∨ FallsOn type detail due)

/-- Every claim was made at a time at which the row was due after the claim before. -/
structure Dispatch.Spaced (s : Dispatch) : Prop where
  claims : s.claims.IsChain fun later earlier =>
    ∃ due ≤ later, DueAfter s.type s.detail earlier due
  next : ∀ last ∈ s.claims.head?, DueAfter s.type s.detail last s.nextRunAt ∧ last ≤ s.clock
  supported : ∀ claimedAt ∈ s.claims, Supported claimedAt

theorem DueAfter.refine (h : DueAfter type detail last next) {claimedAt : Int}
    (hclaimed : Supported claimedAt) (hnow : Supported now) (hlast : last ≤ now)
    (hnext : next = claimNextRun type claimedAt) :
    DueAfter type detail last (refinedNextRun type detail claimedAt now) := by
  rw [refined_next_run_eq type detail hclaimed hnow]
  by_cases hpartner : detail.partner type = none
  · rw [if_pos hpartner]
    cases hhour : detail.usableHour with
    | none => simpa [nextRunRule, hpartner, hhour, ← hnext] using h
    | some hour =>
      have hrule : nextRunRule type claimedAt detail = atHour (kstDay next) hour := by
        simp [nextRunRule, hpartner, hhour, hnext]
      rw [hrule]
      rcases h.2 with hcoarse | hfalls
      · -- the stored time is the interval after the last claim, whoever refines it
        have hlastRule : nextRunRule type last detail = atHour (kstDay next) hour := by
          simp [nextRunRule, hpartner, hhour, hcoarse]
        have hpromised := next_run_rule_promised type last detail
        rw [hlastRule] at hpromised
        exact ⟨hpromised.later, .inr hpromised.fallsOn⟩
      · rw [← hfalls.hour hour hhour]
        exact h
  · rw [if_neg hpartner]
    have hpromised := next_run_rule_promised type now detail
    exact ⟨Int.lt_of_le_of_lt hlast hpromised.later, .inr hpromised.fallsOn⟩

theorem Dispatch.Spaced.step {a : DispatchAction × Int} (h : s.Spaced) (hnow : Supported a.2)
    (hstep : s.step a = some t) : t.Spaced := by
  obtain ⟨action, now⟩ := a
  simp only [Dispatch.step] at hstep
  split at hstep
  · cases hstep
  · rename_i hclock
    have hlater : ∀ last ∈ s.claims.head?, last ≤ now := fun last hlast =>
      Int.le_trans (h.next last hlast).2 (Int.not_lt.mp hclock)
    cases action with
    | claim =>
      dsimp only at hstep
      split at hstep <;> cases hstep
      · rename_i hdue
        rw [Bool.and_eq_true, decide_eq_true_eq] at hdue
        refine ⟨h.claims.cons fun last hlast => ⟨_, hdue.2, (h.next last hlast).1⟩,
          fun last hlast => ?_, List.forall_mem_cons.mpr ⟨hnow, h.supported⟩⟩
        cases hlast
        have hbounds := claim_bounds s.type now
        unfold dayMicros at hbounds
        exact ⟨⟨by dsimp only; omega, .inl rfl⟩, Int.le_refl _⟩
      · exact ⟨h.claims, fun last hlast => ⟨(h.next last hlast).1, hlater last hlast⟩,
          h.supported⟩
    | refine claimedAt =>
      dsimp only at hstep
      split at hstep <;> cases hstep
      rename_i hclaimed
      refine ⟨h.claims, fun last hlast => ⟨?_, hlater last hlast⟩, h.supported⟩
      dsimp only
      split
      · rename_i hsame
        exact (h.next last hlast).1.refine (h.supported _ hclaimed) hnow (hlater last hlast) hsame
      · exact (h.next last hlast).1

end Dispatch

end AwsOps.Diagnosis

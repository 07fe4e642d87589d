import AwsOps.Foundation.JsDate

/-!
# Scheduled diagnoses

The next run of a schedule is computed twice: `computeNextRun` of the web application, with dates of
JavaScript, for the first run, and the claim statement of the dispatcher with
`_precise_next_run`, with datetimes of Python, for those that follow. Both may be given a weekday, a
day of the month and an hour, in Korean time, nine hours ahead of UTC. An instant is a number of
milliseconds since the epoch in the web application, and of microseconds in the dispatcher.
-/

namespace AwsOps.Diagnosis

open Calendar (Date dateOf dayMicros dayStart dayOf checked)

inductive ScheduleFreq
  | weekly | biweekly | monthly
  deriving DecidableEq

/-- `ScheduleDetail`: a weekday with Sunday as 0, a day of the month, and an hour. -/
structure ScheduleDetail where
  dayOfWeek : Option Int
  dayOfMonth : Option Int
  hour : Option Int
  deriving DecidableEq

/-- A detail that is present and in its range. -/
def inRange (low high : Int) (value : Option Int) : Option Int :=
  value.filter fun n => decide (low ≤ n ∧ n ≤ high)

/-- The hour of a detail, if it can be used. -/
def ScheduleDetail.usableHour (detail : ScheduleDetail) : Option Int :=
  inRange 0 23 detail.hour

/-- The detail that goes with a frequency, if it can be used: the day of the month, or the
weekday. -/
def ScheduleDetail.partner (detail : ScheduleDetail) (type : ScheduleFreq) : Option Int :=
  if type = .monthly then inRange 1 28 detail.dayOfMonth else inRange 0 6 detail.dayOfWeek

/-! ## The web application -/

section Bff

open JsDate

def kstOffsetMs : Int := 9 * 3600000

/-- `kstParts`: the date whose UTC fields are the Korean ones of the instant. -/
def kstParts (utcMs : Int) : Option Int :=
  timeClip (utcMs + kstOffsetMs)

/-- A month later, on the last day of that month where the day is cut. -/
def addMonthClamped (d : Int) : Option Int := do
  let day := utcDate d
  let first ← setUtcDate d 1
  let next ← setUtcMonth first (utcMonth first + 1)
  let last ← utc (utcFullYear next) (utcMonth next + 1) 0 0
  setUtcDate next (min day (utcDate last))

/-- The instant plus one interval. -/
def addInterval (type : ScheduleFreq) (d : Int) : Option Int :=
  match type with
  | .weekly => setUtcDate d (utcDate d + 7)
  | .biweekly => setUtcDate d (utcDate d + 14)
  | .monthly => addMonthClamped d

/-- The branch of `computeNextRun` without a weekday or a day of the month. -/
def computeInterval (type : ScheduleFreq) (start : Int) (hour : Option Int) : Option Int := do
  let d ← addInterval type start
  match hour with
  | none => pure d
  | some h => do
      let k ← kstParts d
      let pinned ← utc (utcFullYear k) (utcMonth k) (utcDate k) h
      timeClip (pinned - kstOffsetMs)

/-- The branch of `computeNextRun` for a weekday. -/
def computeWeekday (biweekly : Bool) (nowMs target hh : Int) : Option Int := do
  let now ← kstParts nowMs
  let cand ← utc (utcFullYear now) (utcMonth now) (utcDate now + ((target - utcDay now) + 7) % 7) hh
  let cand ← if cand - kstOffsetMs ≤ nowMs then timeClip (cand + 7 * msPerDay) else some cand
  let cand ← if biweekly then timeClip (cand + 7 * msPerDay) else some cand
  timeClip (cand - kstOffsetMs)

/-- The branch of `computeNextRun` for a day of the month. -/
def computeMonthDay (nowMs target hh : Int) : Option Int := do
  let now ← kstParts nowMs
  let cand ← utc (utcFullYear now) (utcMonth now) target hh
  let cand ← if cand - kstOffsetMs ≤ nowMs then
      utc (utcFullYear now) (utcMonth now + 1) target hh
    else some cand
  timeClip (cand - kstOffsetMs)

/-- `computeNextRun`. There is no value where `toISOString` throws, on an invalid date. -/
def computeNextRun (type : ScheduleFreq) (start : Int) (detail : ScheduleDetail) : Option Int :=
  match detail.partner type with
  | none => computeInterval type start detail.usableHour
  | some target =>
    let hh := detail.usableHour.getD 0
    if type = .monthly then computeMonthDay start target hh
    else computeWeekday (type = .biweekly) start target hh

end Bff

/-! ## The dispatcher -/

section Dispatcher

def hourMicros : Int := 3600000000

/-- The offset of `_KST`. -/
def kstOffset : Int := 9 * hourMicros

/-- `_CLAIM_SQL`: the time of the claim plus the interval of the schedule, in UTC. A month ends on
its last day. -/
def claimNextRun (type : ScheduleFreq) (now : Int) : Int :=
  match type with
  | .weekly => now + 7 * dayMicros
  | .biweekly => now + 14 * dayMicros
  | .monthly => dayStart ((dateOf (dayOf now)).addMonths 1).toDay + now % dayMicros

/-- `replace(hour=h, minute=0, second=0, microsecond=0)` on a local time. -/
def replaceHour (time h : Int) : Int :=
  dayStart (dayOf time) + h * hourMicros

/-- `replace(day=day)` on a local time. -/
def replaceDay (time day : Int) : Int :=
  dayStart ((dateOf (dayOf time)).withDay day).toDay + time % dayMicros

/-- `time + timedelta(days=days)`. There is no value where it leaves the calendar. -/
def addDays (time days : Int) : Option Int :=
  (checked (dayOf time + days)).map fun _ => time + days * dayMicros

/-- `weekday()`: Monday is 0. -/
def weekday (time : Int) : Int :=
  (dayOf time + 3) % 7

/-- The branch of `_precise_next_run` with an hour alone. -/
def preciseHour (type : ScheduleFreq) (h now : Int) (claimedNext : Option Int) :
    Option (Option Int) :=
  match claimedNext with
  | some claimed => do
      let base ← (checked (dayOf (claimed + kstOffset))).map fun _ => claimed + kstOffset
      pure (some (replaceHour base h))
  | none =>
    if type = .monthly then some none
    else do
      let cand ← addDays now (if type = .weekly then 7 else 14)
      pure (some (replaceHour cand h))

/-- The branch of `_precise_next_run` for a weekday. -/
def preciseWeekday (biweekly : Bool) (dow h now : Int) : Option Int := do
  let target := (dow + 6) % 7
  let cand ← addDays (replaceHour now h) ((target - weekday now) % 7)
  let cand ← if cand ≤ now then addDays cand 7 else some cand
  if biweekly then addDays cand 7 else some cand

/-- The branch of `_precise_next_run` for a day of the month. -/
def preciseMonthDay (dom h now : Int) : Option Int :=
  let cand := replaceHour (replaceDay now dom) h
  if cand ≤ now then do
    let hop ← addDays (replaceDay cand 1) 32
    pure (replaceDay hop dom)
  else some cand

/-- `_precise_next_run`, at a local time: the refined local time, if the configuration has a detail
to refine with. There is no outer value where the function raises. -/
def preciseNextRun (type : ScheduleFreq) (detail : ScheduleDetail) (now : Int)
    (claimedNext : Option Int) : Option (Option Int) :=
  match detail.partner type, detail.usableHour with
  | none, none => some none
  | none, some h => preciseHour type h now claimedNext
  | some target, hour =>
    let h := hour.getD 0
    if type = .monthly then some <$> preciseMonthDay target h now
    else some <$> preciseWeekday (type = .biweekly) target h now

/-- What the dispatcher stores for a claim: the coarse interval, and over it the refined time, if
there is one. The claimed value is a datetime as far as the calendar goes. -/
def storedNextRun (type : ScheduleFreq) (detail : ScheduleDetail) (now : Int) : Int :=
  let claimed := claimNextRun type now
  let claimedNext := (checked (dayOf claimed)).map fun _ => claimed
  match preciseNextRun type detail (now + kstOffset) claimedNext with
  | some (some time) => time - kstOffset
  | _ => claimed

end Dispatcher

end AwsOps.Diagnosis

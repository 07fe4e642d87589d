import AwsOps.SgRules.Source

/-!
# Partition projection ranges

The values that a projected partition key may take are declared as a pair of bounds in the
parameters of the table. Validating a source and scanning a day both read them: the first asks
whether the upper bound has passed, the second whether the bounds cover the partitions of the day.
-/

namespace AwsOps.SgRules

open AwsOps.Text AwsOps.Calendar

/-- What a declared range says about a value: outside it, inside it, or nothing, when a bound does
not resolve. -/
inductive RangeStatus where
  | outside
  | inside
  | unresolved
  deriving DecidableEq

/-- `datetime.strptime(text, "%Y-%m-%d").date()`, where `none` is the `ValueError`: four digits, a
month of one or two digits and a day of one or two digits or of a space and a digit. -/
def strptimeIso (U : Unicode) (text : List Char) : Option Int :=
  let digit := U.digit
  let month : List Char → Option Nat
    | ['1', c] => if c == '0' || c == '1' || c == '2' then digit c |>.map (10 + ·) else none
    | ['0', c] => if c.isDigit && c != '0' then digit c else none
    | [c] => if c.isDigit && c != '0' then digit c else none
    | _ => none
  let day : List Char → Option Nat
    | ['3', c] => if c == '0' || c == '1' then digit c |>.map (30 + ·) else none
    | ['1', c] => digit c |>.map (10 + ·)
    | ['2', c] => digit c |>.map (20 + ·)
    | ['0', c] => if c.isDigit && c != '0' then digit c else none
    | [' ', c] => if c.isDigit && c != '0' then digit c else none
    | [c] => if c.isDigit && c != '0' then digit c else none
    | _ => none
  match split ['-'] text with
  | [y, m, d] => do
      let ys ← y.mapM digit
      if ys.length ≠ 4 then none
      else
        let mo ← month m
        let dd ← day d
        Date.check { year := (ofDigits 10 ys : Nat), month := (mo : Nat), day := (dd : Nat) }
  | _ => none

/-- `_projection_range_upper_bound_expired`: whether the upper bound lies before today, if it is a
plain date or `NOW`. -/
def projectionRangeUpperBoundExpired (U : Unicode) (range : Option String) (now : Clock) :
    Option Bool :=
  match split [','] (range.getD "").toList with
  | [_] => none
  | parts =>
    let upper := strip (parts.getLast?.getD [])
    if U.upper upper = "NOW".toList then some false
    else (strptimeIso U upper).map fun day => decide (day < now.day)

/-- A Python exception that computing a date raises: the digits of an offset are too many for
`int`, or the date leaves the calendar. -/
inductive DateError where
  | valueError
  | overflowError
  deriving DecidableEq

/-- `date - timedelta(days)`. -/
def shiftDays (day days : Int) : Except DateError Int :=
  match checked (day - days) with
  | some day => .ok day
  | none => .error .overflowError

/-- `_shift_date`: back by years and months, to the last day of a shorter month, then by days. -/
def shiftDate (day years months days : Int) : Except DateError Int :=
  let date := dateOf day
  let totalMonths := date.year * 12 + (date.month - 1) - months - years * 12
  let year := totalMonths / 12
  let month := totalMonths % 12 + 1
  let last := min date.day (daysInMonth year month)
  match ({ year := year, month := month, day := last } : Date).check with
  | some replaced => shiftDays replaced days
  | none => .error .valueError

/-- `(now + timedelta(…)).date()`. -/
def shiftInstant (now : Clock) (micros : Int) : Except DateError Int :=
  match checked (dayOf (now.instant + micros)) with
  | some day => .ok day
  | none => .error .overflowError

def offsetUnits : List String :=
  ["YEAR", "MONTH", "WEEK", "DAY", "HOUR", "MINUTE", "SECOND"]

/-- The text agrees with a word, or with the word and an `S`, up to case. -/
def matchesUnit (text : List Char) (word : String) : Bool :=
  let folded := text.map foldCase
  folded == word.toList || folded == word.toList ++ ['S']

/-- `_NOW_OFFSET_RE`: the sign, the digits and the unit of `NOW ± N unit`. -/
def nowOffset (U : Unicode) (text : List Char) : Option (Int × List Char × List Char) :=
  if (text.take 3).map foldCase ≠ "NOW".toList then none
  else
    match (text.drop 3).dropWhile isSpace with
    | [] => none
    | sign :: rest =>
      let isDecimal (c : Char) : Bool := (U.digit c).isSome
      let number := rest.dropWhile isSpace
      let digits := number.takeWhile isDecimal
      let unit := (number.dropWhile isDecimal).dropWhile isSpace
      if (sign ≠ '+' ∧ sign ≠ '-') ∨ digits.isEmpty ∨ !offsetUnits.any (matchesUnit unit) then
        none
      else some (if sign = '+' then 1 else -1, digits, unit)

/-- `_projection_range_bound_date`: the day of a bound, if it is of one of the forms that resolve
without guessing. -/
def projectionRangeBoundDate (U : Unicode) (value : List Char) (now : Clock) :
    Except DateError (Option Int) :=
  let value := strip value
  if value.isEmpty then .ok none
  else if U.upper value = "NOW".toList then .ok (some now.day)
  else
    match nowOffset U value with
    | some (sign, digits, unit) =>
      match magnitude U digits with
      | none => .error .valueError
      | some n =>
        let starts (word : String) : Bool := word.toList.isPrefixOf (U.upper unit)
        if starts "YEAR" then (shiftDate now.day (-sign * n) 0 0).map some
        else if starts "MONTH" then (shiftDate now.day 0 (-sign * n) 0).map some
        else if starts "WEEK" then (shiftDate now.day 0 0 (-sign * n * 7)).map some
        else if starts "DAY" then (shiftDate now.day 0 0 (-sign * n)).map some
        else if starts "HOUR" then (shiftInstant now (sign * n * 3600000000)).map some
        else if starts "MINUTE" then (shiftInstant now (sign * n * 60000000)).map some
        else (shiftInstant now (sign * n * 1000000)).map some
    | none => .ok (strptimeIso U value)

/-- What two bounds, of which each may be unresolved, say about a value. -/
def rangeStatus (lower upper : Option Int) (value : Int) : RangeStatus :=
  if lower.any fun bound => value < bound then .outside
  else if upper.any fun bound => bound < value then .outside
  else if lower.isNone || upper.isNone then .unresolved
  else .inside

def projectionRangeDayStatus (U : Unicode) (range : String) (day : Int) (now : Clock) :
    Except DateError RangeStatus :=
  match cutFirst ',' range.toList with
  | none => .ok .unresolved
  | some (lower, upper) => do
      let lowerDate ← projectionRangeBoundDate U lower now
      let upperDate ← projectionRangeBoundDate U upper now
      pure (rangeStatus lowerDate upperDate day)

def projectionIntegerRangeExcludes (U : Unicode) (range : String) (value : Int) : RangeStatus :=
  match cutFirst ',' range.toList with
  | none => .unresolved
  | some (lower, upper) => rangeStatus (int U lower) (int U upper) value

/-- The parameter of a projected column, where an empty one counts as absent. -/
def projectionRange (params : List (String × String)) (column : String) : Option String :=
  (params.lookup ("projection." ++ column ++ ".range")).filter (· ≠ "")

/-- What several ranges say together: one that excludes decides, then one that is unresolved. -/
def RangeStatus.all (statuses : List RangeStatus) : RangeStatus :=
  if statuses.contains .outside then .outside
  else if statuses.contains .unresolved then .unresolved
  else .inside

/-- The components of a date under their names. -/
def dateComponents (date : Date) : List (String × Int) :=
  [("year", date.year), ("month", date.month), ("day", date.day)]

/-- `_hive_day_excluded`: the ranges that the three keys declare against the parts of the date. -/
def hiveDayExcluded (U : Unicode) (keys : List String) (params : List (String × String))
    (day : Int) : RangeStatus :=
  RangeStatus.all <| (dateComponents (dateOf day)).filterMap fun (name, value) => do
    let key ← keyByLower U keys name
    let range ← projectionRange params key
    pure (projectionIntegerRangeExcludes U range value)

/-- `_projection_day_out_of_range` against the parameters of the table: whether the declared ranges
cover the day and the day after, into which its records may be delivered. -/
def projectionDayOutOfRange (U : Unicode) (params : List (String × String)) (v : Validation)
    (day : Int) (now : Clock) : Except DateError RangeStatus := do
  let next ← shiftDays day (-1)
  match dateKey U v with
  | none =>
    let remaining := partitionKeysExcludingScope U v
    if isHiveStyle U remaining then
      pure (RangeStatus.all
        [hiveDayExcluded U remaining params day, hiveDayExcluded U remaining params next])
    else pure .inside
  | some key =>
    match projectionRange params key with
    | none => pure .inside
    | some range =>
      let status ← projectionRangeDayStatus U range day now
      let statusNext ← projectionRangeDayStatus U range next now
      pure (RangeStatus.all [status, statusNext])

end AwsOps.SgRules

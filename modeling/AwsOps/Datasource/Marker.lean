import AwsOps.Foundation.Text

/-!
# The weekly budget marker of the signal generator

The bookkeeping row of an integration carries a marker `<hash>:<state><attempts>w<week>[s<streak>]`.
The index worker parses it with a Python regular expression, and the statement that stores a
marker takes the stored one apart again with PostgreSQL ones. Texts are lists of characters, and
an ISO week is the number that `%G%V` writes.
-/

namespace AwsOps.Datasource

open Text (Unicode magnitude search)

/-- An ISO week, as the number `%G%V`. Later weeks have larger numbers. -/
abbrev IsoWeek := Nat

/-- The decimal digits of a number. -/
def digits (n : Nat) : List Char :=
  Nat.toDigits 10 n

theorem digits_inj {m n : Nat} (h : digits m = digits n) : m = n := by
  have hread := congrArg (fun ds => Nat.ofDigitChars 10 ds 0) h
  simpa [digits] using hread

def maxGenerationAttempts : Nat := 3

def maxSpentWeeks : Nat := 3

/-- `_PEND`, `_DONE` and `_CONC`. -/
inductive MarkerState
  | pend | done | conc
  deriving DecidableEq

/-- How a marker spells its state. -/
def MarkerState.text : MarkerState → List Char
  | pend => "pend".toList
  | done => "done".toList
  | conc => "conc".toList

/-- `_MARKER_STATE_RANK`. -/
def MarkerState.rank : MarkerState → Int
  | pend => 0
  | done => 1
  | conc => 2

/-- The state at the front of a text: `(pend|done|conc)`. -/
def stateAtFront (s : List Char) : Option (MarkerState × List Char) :=
  let states := [MarkerState.pend, MarkerState.done, MarkerState.conc]
  states.findSome? fun state =>
    if state.text.isPrefixOf s then some (state, s.drop state.text.length) else none

/-! ## The marker in Python -/

/-- The groups of a match of `_MARKER_RE`, and the text before it. -/
structure MarkerMatch where
  base : List Char
  state : MarkerState
  attempts : List Char
  week : List Char
  streak : Option (List Char)
  deriving DecidableEq

/-- `$` matches at the end and before a newline at the end. -/
def atEnd (s : List Char) : Bool :=
  s == [] || s == ['\n']

/-- `w(\d{5,8})(?:s(\d+))?$`, for a text whose digits are given by `digit` and which is over where
`finished` says so. The digits are read greedily: no character that may follow them is a digit. -/
def weekAtFront (digit : Char → Bool) (finished : List Char → Bool) :
    List Char → Option (List Char × Option (List Char))
  | 'w' :: rest =>
    let (week, rest) := rest.span digit
    if week.length < 5 || 8 < week.length then none
    else if finished rest then some (week, none)
    else
      match rest with
      | 's' :: rest =>
        let (streak, rest) := rest.span digit
        if streak != [] && finished rest then some (week, some streak) else none
      | _ => none
  | _ => none

/-- `_MARKER_RE.search`. -/
def searchMarker (U : Unicode) (s : List Char) : Option MarkerMatch := do
  let digit (c : Char) : Bool := (U.digit c).isSome
  let (base, state, attempts, week, streak) ← search (fun
    | ':' :: rest => do
        let (state, rest) ← stateAtFront rest
        let (attempts, rest) := rest.span digit
        let (week, streak) ← weekAtFront digit atEnd rest
        if attempts == [] then none else pure (state, attempts, week, streak)
    | _ => none) s
  pure ⟨base, state, attempts, week, streak⟩

/-- What a worker reads off a marker: the hash, the attempts used this week, whether the budget is
settled, and the streak of spent weeks. -/
structure MarkerReading where
  base : List Char
  attempts : Nat
  settled : Bool
  streak : Nat
  deriving DecidableEq

/-- The part of `_marker_state` for a text that is no marker: a plain hash is settled. -/
def readPlain (s : List Char) : MarkerReading :=
  let (base, marker) := (Text.cutFirst ':' s).getD (s, [])
  ⟨base, 0, base != [] && marker == [], 0⟩

/-- The part of `_marker_state` for a marker, with the numbers it carries, in the given week. A
`conc` marker is settled for its own schema in every week, a marker of this week as its state
says, and a marker of another week is settled only at the cap on spent weeks. -/
def MarkerMatch.read (m : MarkerMatch) (version : List Char) (attempts streak : Nat)
    (week : IsoWeek) : MarkerReading :=
  let sameWeek := m.week == digits week
  if m.state = .conc then ⟨m.base, if sameWeek then attempts else 0, m.base == version, streak⟩
  else if sameWeek then ⟨m.base, attempts, m.state == .done, streak⟩
  else if maxSpentWeeks ≤ streak then
    if m.base ≠ version then ⟨m.base, 0, false, 0⟩
    else ⟨m.base, maxGenerationAttempts, true, streak⟩
  else ⟨m.base, 0, false, streak⟩

/-- `_marker`, in the given week. -/
def marker (week : IsoWeek) (version : List Char) (attempts : Nat) (state : MarkerState)
    (streak : Nat) : List Char :=
  let tail := if streak = 0 then [] else 's' :: digits streak
  version ++ ':' :: (state.text ++ digits attempts ++ 'w' :: (digits week ++ tail))

/-- `int(group or 0)`. There is no value where `int` raises, on more digits than it converts. -/
def groupValue (U : Unicode) (group : Option (List Char)) : Option Nat :=
  match group with
  | none => some 0
  | some s => magnitude U s

/-! ## The marker in PostgreSQL -/

/-- `_LIVE_STATE`: `substring(budget from '(pend|done|conc)[0-9]+w')`. -/
def liveState (budget : List Char) : Option MarkerState :=
  (search (fun s => do
    let (state, rest) ← stateAtFront s
    match rest.span Char.isDigit with
    | (_ :: _, 'w' :: _) => some state
    | _ => none) budget).map Prod.snd

/-- `_LIVE_WEEK`: `substring(budget from 'w([0-9]{5,8})(s[0-9]+)?$')`. -/
def liveWeek (budget : List Char) : Option (List Char) :=
  (search (fun s => (weekAtFront Char.isDigit (· == []) s).map Prod.fst) budget).map Prod.snd

/-- `_LIVE_STREAK`: `coalesce(substring(budget from 's([0-9]+)$')::int, 0)`. There is no value where
the cast raises. -/
def liveStreak (budget : List Char) : Option Nat :=
  let found := search (fun
    | 's' :: rest => if rest != [] && rest.all Char.isDigit then some rest else none
    | _ => none) budget
  match found with
  | none => some 0
  | some (_, ds) =>
    let value := Nat.ofDigitChars 10 ds 0
    if value < 2 ^ 31 then some value else none

/-- `_LIVE_RANK`: the rank of the stored state where it counts for this version, and −1 otherwise.
A stored `conc` counts in every week, the other states only in their own. -/
def liveRank (version : List Char) (week : IsoWeek) (budget : Option (List Char)) : Int :=
  match budget with
  | none => -1
  | some budget =>
    let base := ((Text.cutFirst ':' budget).map Prod.fst).getD budget
    let state := liveState budget
    if base = version ∧ (state = some .conc ∨ liveWeek budget = some (digits week)) then
      (state.map MarkerState.rank).getD (-1)
    else -1

/-- The streak that goes with the state of the higher rank, and the larger streak on a tie. -/
def mergedStreak (live rank : Int) (stored : Option (List Char)) (streak : Nat) : Option Nat :=
  let storedStreak := (stored.map liveStreak).getD (some 0)
  if live > rank then storedStreak
  else if live < rank then some streak
  else storedStreak.map (max · streak)

/-- `live_marker`: what `write_diag_signal_budget` proposes. -/
structure LiveMarker where
  version : List Char
  state : MarkerState
  streak : Nat
  week : IsoWeek
  floor : Nat
  deriving DecidableEq

/-- The marker that `write_diag_signal_budget` stores over the stored one: the state of the higher
rank with its streak, and the larger number of attempts. There is no value where a cast raises. -/
def LiveMarker.merge (proposal : LiveMarker) (stored : Option (List Char)) (charge : Nat) :
    Option (List Char) :=
  let rank := proposal.state.rank
  let live := liveRank proposal.version proposal.week stored
  let state := if max rank live = 2 then MarkerState.conc
    else if max rank live = 1 then MarkerState.done else MarkerState.pend
  (mergedStreak live rank stored proposal.streak).map
    (marker proposal.week proposal.version (max charge proposal.floor) state)

example : searchMarker .ascii "9f:pend2w202617s1".toList =
    some ⟨"9f".toList, .pend, ['2'], "202617".toList, some ['1']⟩ := by decide +kernel

end AwsOps.Datasource

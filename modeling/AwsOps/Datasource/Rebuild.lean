import AwsOps.Datasource.Statements

/-!
# The rebuild of the diagnostic signals

`_rebuild_diag_signals` of the index worker, as a program over its statements: it reads the stored
version and budget, skips a fresh and settled build, reserves an attempt before it calls the
model, carries the last good generated row, decides what marker to store, and writes and sweeps
the rows in one transaction. What the catalog, the model, the gates and the connector answer are
inputs of the worker.
-/

namespace AwsOps.Datasource

open Text (Unicode)
open Program (forEach)

/-- How the model's answer fared: the row that passed every gate, a rejection, or an error. -/
inductive Generation
  | generated (title : String) (exprs : List String)
  | rejected
  | transient
  deriving DecidableEq

/-- The outcome of `still_relevant_live` on an expression that is still relevant. -/
inductive DryRun
  | passed | rejected | transient
  deriving DecidableEq

/-- What a worker gets from outside the database: the version of its schema, the rows of the
catalog, the flag, the outcome of a generation, the lexical check of an expression, and the dry run
of the `n`-th expression of a row. -/
structure Input where
  version : List Char
  catalogRows : List Signal
  queryGenEnabled : Bool
  generation : Generation
  stillRelevant : String → Bool
  dryRun : SignalKey → Nat → DryRun

/-- `DISABLED`, `GENERATED`, `REJECTED` and `TRANSIENT`. -/
inductive GenStatus
  | disabled | generated | rejected | transient
  deriving DecidableEq

/-- What a rebuild returns, or that it raised. -/
inductive Outcome
  | skipped (version : Option (List Char))
  | built (built ready : Nat) (version : List Char) (retry : Bool)
  | raised
  deriving DecidableEq

/-- A rebuild or a part of it. -/
abbrev Rebuild (α : Type) := Program Statement Answer α

def issue (c : Statement) : Rebuild (Answer c) :=
  Program.command c

def anyReady (rows : List Signal) : Bool :=
  rows.any (·.content.ready)

/-! ## Carrying the last good row -/

/-- `still_relevant_live` on the expressions of a row from the `n`-th on, up to the first that
fails. -/
def Input.liveCheck (input : Input) (key : SignalKey) : Nat → List String → DryRun
  | _, [] => .passed
  | n, expr :: rest =>
    let verdict := if input.stillRelevant expr then input.dryRun key n else .rejected
    if verdict = .passed then input.liveCheck key (n + 1) rest else verdict

/-- The check of one row: live, or lexical only. -/
def Input.check (input : Input) (live : Bool) (key : SignalKey) (exprs : List String) : DryRun :=
  if live then input.liveCheck key 0 exprs
  else if exprs.all input.stillRelevant then .passed else .rejected

/-- The ready generated rows of a list that pass the check. There is no list when one of them
cannot be checked. -/
def Input.keptRows (input : Input) (live : Bool) :
    List (SignalKey × SignalRow) → Option (List Signal)
  | [] => some []
  | (key, row) :: rest =>
    let content := row.content
    if !content.generated || !content.ready || content.exprs == [] || content.exprs.contains ""
    then input.keptRows live rest
    else
      match input.check live key content.exprs with
      | .transient => none
      | .rejected => input.keptRows live rest
      | .passed => (input.keptRows live rest).map (⟨key, content⟩ :: ·)

/-- `_keep_last_good_generated`: the rows and the generated rows that are carried over, unless the
table cannot be read or a row cannot be checked. -/
def keepLastGoodGenerated (input : Input) (rows : List Signal) (live : Bool) :
    Rebuild (Option (List Signal)) := do
  let existing ← issue .listSignals
  pure ((existing.bind (input.keptRows live)).map (rows ++ ·))

/-! ## Reading the budget -/

/-- The marker for a row without one, when the version of the rows is an old marker itself: its
streak, and its attempts if they are of this week. There is no value where `int` raises. -/
def legacyBudget (U : Unicode) (version : List Char) (legacy : MarkerMatch) :
    Rebuild (Option (List Char)) :=
  match groupValue U legacy.streak with
  | none => pure none
  | some streak => do
      let week ← issue .isoWeek
      let attempts := if legacy.week = digits week then Text.magnitude U legacy.attempts else some 0
      match attempts with
      | none => pure none
      | some attempts => do
          let week ← issue .isoWeek
          pure (some (marker week version attempts .pend streak))

/-- The marker for a row without one, when an attempt was reserved and never accounted for. -/
def reservedBudget (version : List Char) : Rebuild (Option (List Char)) := do
  match ← issue .readReservation with
  | none => pure none
  | some (reservedWeek, reservedAttempts) => do
      let week ← issue .isoWeek
      let attempts := if reservedWeek = digits week then reservedAttempts else 0
      let week ← issue .isoWeek
      pure (some (marker week version attempts .pend 0))

/-- `existing_budget`: the stored marker, or the one that stands in for it. The outer option is
empty where `int` raises. -/
def existingBudget (U : Unicode) (version : List Char) (contentVersion stored : Option (List Char)) :
    Rebuild (Option (Option (List Char))) :=
  match stored with
  | some text => pure (some (some text))
  | none =>
    match searchMarker U (contentVersion.getD []) with
    | some legacy => (fun found => found.map some) <$> legacyBudget U version legacy
    | none => some <$> reservedBudget version

/-- `_marker_state`. There is no value where `int` raises. -/
def markerState (U : Unicode) (existing : Option (List Char)) (version : List Char) :
    Rebuild (Option MarkerReading) :=
  let text := existing.getD []
  match searchMarker U text with
  | none => pure (some (readPlain text))
  | some m =>
    match Text.magnitude U m.attempts, groupValue U m.streak with
    | some attempts, some streak => do
        let week ← issue .isoWeek
        pure (some (m.read version attempts streak week))
    | _, _ => pure none

/-! ## Generating and carrying -/

/-- How far a rebuild got: the rows, the attempts it knows of, the count it was charged, the status
of the generation, and what became of the carry-over. -/
structure Progress where
  rows : List Signal
  attempts : Nat
  reserved : Option Nat
  genStatus : Option GenStatus
  carryAttempted : Bool
  generatedKeyUnverified : Bool
  deriving DecidableEq

/-- The model is called, and the answer goes through the gates. -/
def Input.tryGenerate (input : Input) : Rebuild (Option Signal × GenStatus) :=
  if input.queryGenEnabled then do
    issue .generate
    match input.generation with
    | .generated title exprs => pure (some ⟨.generated, ⟨title, true, exprs, true⟩⟩, .generated)
    | .rejected => pure (none, .rejected)
    | .transient => pure (none, .transient)
  else pure (none, .disabled)

/-- The generation after an attempt was reserved. With the flag off the attempt is handed back. -/
def generateReserved (input : Input) (progress : Progress) (count : Nat) : Rebuild Progress := do
  let (generated, status) ← input.tryGenerate
  if status = .disabled then do
    let week ← issue .isoWeek
    issue (.release week)
    pure { progress with genStatus := some status }
  else
    pure { progress with
      rows := progress.rows ++ generated.toList
      reserved := some count
      genStatus := some status }

/-- Reserve an attempt and generate, unless the budget is used up. Losing the race for the last
attempt counts as a budget that is used up. -/
def generate (input : Input) (progress : Progress) : Rebuild Progress :=
  if maxGenerationAttempts ≤ progress.attempts then pure progress
  else do
    let week ← issue .isoWeek
    match ← issue (.reserve week maxGenerationAttempts input.version progress.attempts) with
    | none => pure { progress with attempts := maxGenerationAttempts }
    | some count => generateReserved input progress count

/-- Carry the last good generated row, with the flag on and nothing ready. -/
def carry (input : Input) (progress : Progress) : Rebuild Progress :=
  if input.queryGenEnabled && !anyReady progress.rows then do
    match ← keepLastGoodGenerated input progress.rows true with
    | none => pure { progress with carryAttempted := true, generatedKeyUnverified := true }
    | some rows => pure { progress with carryAttempted := true, rows }
  else pure progress

/-! ## The marker to store -/

/-- The count the marker proposes: the charged one, or what was known before. -/
def Progress.spent (progress : Progress) : Nat :=
  progress.reserved.getD progress.attempts

/-- Another attempt is owed this week. -/
def Progress.retryNeeded (progress : Progress) : Bool :=
  (progress.genStatus == some .transient || progress.genStatus == some .rejected) &&
    !anyReady progress.rows && !decide (maxGenerationAttempts ≤ progress.spent)

/-- `new_streak`: the consecutive weeks that were spent without a ready signal. -/
def Progress.newStreak (progress : Progress) (streak : Nat) : Nat :=
  if anyReady progress.rows then 0
  else if !progress.retryNeeded && maxGenerationAttempts ≤ progress.spent &&
      progress.attempts < maxGenerationAttempts then streak + 1
  else streak

def Progress.state (progress : Progress) : MarkerState :=
  if anyReady progress.rows || progress.genStatus == some .disabled then .conc
  else if progress.retryNeeded then .pend else .done

/-- What is stored of the budget: no marker at all after a conclusive build with nothing to
remember, the marker as it was for a schema that the budget does not belong to, and else the
proposal. -/
def storedBudget (version : List Char) (existing : Option (List Char)) (reading : MarkerReading)
    (progress : Progress) : Rebuild (Option (List Char) × Option LiveMarker) :=
  let streak := progress.newStreak reading.streak
  let spent := progress.spent
  let state := progress.state
  if state = .conc ∧ spent = 0 ∧ streak = 0 then pure (none, none)
  else if state = .done ∧ progress.reserved = none ∧ progress.genStatus = none ∧
      reading.base ≠ [] ∧ reading.base ≠ version then pure (existing, none)
  else do
    let markerWeek ← issue .isoWeek
    let liveWeek ← issue .isoWeek
    pure (some (marker markerWeek version spent state streak),
      some ⟨version, state, streak, liveWeek, spent⟩)

/-! ## Storing and sweeping -/

/-- `upsert_diag_signals`: an empty build writes the sentinel row. The keys that were written. -/
def upsertDiagSignals (rows : List Signal) (version : List Char) : Rebuild (List Key) := do
  let sentinel : Signal := ⟨.sentinel, ⟨"(no signals for this schema)", false, [], false⟩⟩
  let rows := if rows = [] then [sentinel] else rows
  forEach (fun signal => issue (.upsert signal version)) rows
  pure (rows.map fun signal => Key.signal signal.key)

/-- `write_diag_signal_budget`, if there is a marker to store. The keys that were written so far. -/
def writeStored (version : List Char) (written : List Key) (stored : Option (List Char))
    (live : Option LiveMarker) : Rebuild (List Key) :=
  match stored with
  | none => pure written
  | some text => do
      issue (.writeBudget text version live)
      pure (written ++ [.budget])

/-- The generated rows that showed up since the carry-over and are spared from the sweep. -/
def lateRows (input : Input) (progress : Progress) (keep : List Key) : Rebuild (List Key) :=
  if progress.carryAttempted && !progress.generatedKeyUnverified then do
    let found ← keepLastGoodGenerated input [] false
    pure (((found.getD []).map fun signal => Key.signal signal.key).filter (· ∉ keep))
  else pure []

def sweepDiagSignals (keep : List Key) : Rebuild Unit := do
  let unkept ← issue (.findUnkept keep)
  forEach (fun key => issue (.delete key)) unkept

/-- The transaction that writes the rows and the budget and sweeps the others. -/
def store (input : Input) (progress : Progress) (stored : Option (List Char))
    (live : Option LiveMarker) : Rebuild Unit := do
  issue .begin
  let written ← upsertDiagSignals progress.rows input.version
  let written ← writeStored input.version written stored live
  let keep := if progress.generatedKeyUnverified then written ++ [.signal .generated] else written
  let late ← lateRows input progress keep
  sweepDiagSignals (keep ++ late)
  if progress.generatedKeyUnverified || late ≠ [] then issue (.touchGenerated input.version)
  else pure ()
  issue .commit

/-- The rows to write: those of the catalog, and, with none of them ready, a generated one or one
that is carried over. -/
def produce (input : Input) (reading : MarkerReading) : Rebuild Progress :=
  let start : Progress := ⟨input.catalogRows, reading.attempts, none, none, false, false⟩
  if anyReady input.catalogRows then pure start
  else do
    let generated ← generate input start
    carry input generated

/-- The rebuild once it is known that it cannot be skipped. -/
def build (input : Input) (existing : Option (List Char)) (reading : MarkerReading) :
    Rebuild Outcome := do
  let progress ← produce input reading
  let (stored, live) ← storedBudget input.version existing reading progress
  store input progress stored live
  pure (.built progress.rows.length (progress.rows.countP (·.content.ready)) input.version
    progress.retryNeeded)

/-- The build is fresh and the budget is settled for its schema. -/
def upToDate (version : List Char) (contentVersion existing : Option (List Char))
    (reading : MarkerReading) : Bool :=
  contentVersion == some version &&
    (existing == none || (reading.base == version && reading.settled))

def rebuildDiagSignals (U : Unicode) (input : Input) : Rebuild Outcome := do
  let contentVersion ← issue .readVersion
  let stored ← issue .readBudget
  match ← existingBudget U input.version contentVersion stored with
  | none => pure .raised
  | some existing =>
    match ← markerState U existing input.version with
    | none => pure .raised
    | some reading =>
      if upToDate input.version contentVersion existing reading then
        pure (.skipped contentVersion)
      else build input existing reading

/-- The machine of the index workers: any number of them, on one integration. -/
def workers (U : Unicode) : Machine Statement Answer Store Input IsoWeek Outcome where
  worker := rebuildDiagSignals U
  exec := Store.exec
  caught := Store.caught
  abort i s := s.leave i
  environment := Store.tick

end AwsOps.Datasource

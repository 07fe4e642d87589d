import AwsOps.Datasource.Marker
import AwsOps.Foundation.Threads
import Mathlib.Data.List.AList

/-!
# The statements of the signal index

The table of one integration holds the signal rows and the bookkeeping row with the week's counter
and the budget marker. A statement outside a transaction commits on its own. Between `BEGIN` and
`COMMIT` a worker sees its own writes, the other workers see the committed rows, and a row that
was written stays locked: a statement of another worker that changes it waits. A statement gives
no answer while it waits, and none when a cast in it raises. The sweep's `DELETE` finds its rows
first and then takes them one by one, each when its lock is free.
-/

namespace AwsOps.Datasource

/-- The key of a signal row: one of the catalog's, `GENERATED_SIGNAL_KEY` or
`SCHEMA_VERSION_SENTINEL_KEY`. -/
inductive SignalKey
  | catalog (name : String) | generated | sentinel
  deriving DecidableEq

/-- The key of a row. The bookkeeping row has the key `BUDGET_KEY`. -/
inductive Key
  | signal (key : SignalKey) | budget
  deriving DecidableEq

/-- What a build produces for a key: the title, the status, the expressions of the query (the empty
text where there is none), and whether the provenance is `generated`. -/
structure Content where
  title : String
  ready : Bool
  exprs : List String
  generated : Bool
  deriving DecidableEq

/-- A signal as a build produces it. -/
structure Signal where
  key : SignalKey
  content : Content
  deriving DecidableEq

/-- A signal row: the content and the version it was built for. -/
structure SignalRow where
  content : Content
  schemaVersion : List Char
  deriving DecidableEq

/-- The bookkeeping row: the counter `meta.week` and `meta.attempts`, the marker `meta.budget`, and
the version. -/
structure BudgetRow where
  week : Option (List Char)
  attempts : Option Nat
  budget : Option (List Char)
  schemaVersion : List Char
  deriving DecidableEq

/-- The attempts that the row charges to a week: `meta.attempts` if `meta.week` is that week. -/
def BudgetRow.charge (row : BudgetRow) (week : IsoWeek) : Nat :=
  if row.week = some (digits week) then row.attempts.getD 0 else 0

/-- The attempts charged to a week, with or without a bookkeeping row. -/
def charge (budget : Option BudgetRow) (week : IsoWeek) : Nat :=
  (budget.map (·.charge week)).getD 0

abbrev SignalTable := AList fun _ : SignalKey => SignalRow

/-- The rows that the statements see. -/
structure Table where
  signals : SignalTable
  budget : Option BudgetRow

/-- A statement, a reading of the clock, or a call of the model. -/
inductive Statement
  | isoWeek
  | generate
  | readVersion
  | readBudget
  | readReservation
  | listSignals
  | reserve (week : IsoWeek) (cap : Nat) (version : List Char) (known : Nat)
  | release (week : IsoWeek)
  | begin
  | upsert (signal : Signal) (version : List Char)
  | writeBudget (marker version : List Char) (live : Option LiveMarker)
  | findUnkept (keep : List Key)
  | delete (key : Key)
  | touchGenerated (version : List Char)
  | commit
  deriving DecidableEq

/-- What a statement returns. -/
abbrev Answer : Statement → Type
  | .isoWeek => IsoWeek
  | .readVersion => Option (List Char)
  | .readBudget => Option (List Char)
  | .readReservation => Option (List Char × Nat)
  | .listSignals => Option (List (SignalKey × SignalRow))
  | .reserve .. => Option Nat
  | .findUnkept _ => List Key
  | _ => Unit

/-! ## The statements on the rows they see -/

/-- `read_signal_schema_version`: the version that all rows agree on, the bookkeeping row
included. -/
def Table.readVersion (t : Table) : Option (List Char) :=
  let versions := t.signals.entries.map (fun row => row.2.schemaVersion) ++
    (t.budget.map BudgetRow.schemaVersion).toList
  match versions with
  | [] => none
  | version :: others =>
    if others.all (· == version) && version != [] then some version else none

/-- `read_diag_signal_budget`. -/
def Table.readBudget (t : Table) : Option (List Char) :=
  t.budget.bind BudgetRow.budget

/-- `read_diag_signal_reservation`. -/
def Table.readReservation (t : Table) : Option (List Char × Nat) := do
  let row ← t.budget
  let week ← row.week
  if week == [] then none else pure (week, row.attempts.getD 0)

/-- `list_diag_signals`. The bookkeeping row is left out: it is never ready. -/
def Table.listSignals (t : Table) : List (SignalKey × SignalRow) :=
  t.signals.entries.map fun row => (row.1, row.2)

/-- `reserve_diag_signal_attempt`: the new count and row, unless the cap is reached. Without a row
the `INSERT` path applies, which does not look at the cap. -/
def reserve (budget : Option BudgetRow) (week : IsoWeek) (cap : Nat) (version : List Char)
    (known : Nat) : Option (Nat × BudgetRow) :=
  match budget with
  | none => some (known + 1, ⟨some (digits week), some (known + 1), none, version⟩)
  | some row =>
    let used := max (row.charge week) known
    if used < cap then
      some (used + 1, { row with week := some (digits week), attempts := some (used + 1) })
    else none

/-- `release_diag_signal_attempt`, on the row of the same week. -/
def BudgetRow.release (row : BudgetRow) : BudgetRow :=
  { row with attempts := some (row.attempts.getD 1 - 1) }

/-- The marker that `write_diag_signal_budget` stores: without a row the given one, and over a row
the merged one, if the caller allows that. There is no value where a cast raises. -/
def writtenMarker (budget : Option BudgetRow) (marker : List Char) (live : Option LiveMarker) :
    Option (List Char) :=
  match budget, live with
  | some row, some proposal => proposal.merge row.budget (row.charge proposal.week)
  | _, _ => some marker

/-- The rows that `sweep_diag_signals` finds: those whose key is not kept. -/
def Table.findUnkept (t : Table) (keep : List Key) : List Key :=
  (t.signals.keys.map Key.signal ++ (t.budget.map fun _ => Key.budget).toList).filter (· ∉ keep)

/-! ## Transactions and locks -/

/-- A signal row that a worker has written or deleted in its transaction. -/
structure SignalWrite where
  worker : Nat
  key : SignalKey
  row : Option SignalRow

/-- A write of the bookkeeping row in a transaction. Storing a marker inserts a row without a
counter, or leaves the counter of the row. -/
inductive BudgetWrite
  | store (marker version : List Char)
  | delete
  deriving DecidableEq

/-- The database, the clock and the calls of the model so far. Uncommitted writes are in order;
those of the bookkeeping row stand with the worker that holds its lock. -/
structure Store where
  signals : SignalTable
  budget : Option BudgetRow
  inTransaction : List Nat
  signalWrites : List SignalWrite
  budgetWrites : Option (Nat × List BudgetWrite)
  week : IsoWeek
  calls : List IsoWeek

/-- The database with the given rows, before any worker and any call. -/
def Store.initial (signals : SignalTable) (budget : Option BudgetRow) (week : IsoWeek) : Store :=
  ⟨signals, budget, [], [], none, week, []⟩

def SignalWrite.apply (signals : SignalTable) (write : SignalWrite) : SignalTable :=
  match write.row with
  | some row => signals.insert write.key row
  | none => signals.erase write.key

def BudgetWrite.apply (budget : Option BudgetRow) : BudgetWrite → Option BudgetRow
  | store marker version =>
    match budget with
    | none => some ⟨none, none, some marker, version⟩
    | some row => some { row with budget := some marker, schemaVersion := version }
  | delete => none

/-- The writes of the bookkeeping row in the transaction of a worker. -/
def Store.ownWrites (s : Store) (i : Nat) : List BudgetWrite :=
  match s.budgetWrites with
  | some (j, writes) => if j = i then writes else []
  | none => []

/-- The rows that a worker sees: the committed ones under its own writes. -/
def Store.view (s : Store) (i : Nat) : Table where
  signals := (s.signalWrites.filter (·.worker == i)).foldl SignalWrite.apply s.signals
  budget := (s.ownWrites i).foldl BudgetWrite.apply s.budget

/-- Another worker holds the lock of a row. -/
def Store.locked (s : Store) (i : Nat) : Key → Bool
  | .signal key => s.signalWrites.any fun write => write.key == key && write.worker != i
  | .budget => s.budgetWrites.any fun writes => writes.1 != i

/-- A worker in a transaction writes a signal row, once its lock is free. -/
def Store.writeSignal (s : Store) (i : Nat) (key : SignalKey) (row : Option SignalRow) :
    Option Store :=
  if i ∈ s.inTransaction ∧ ¬ s.locked i (.signal key) then
    some { s with signalWrites := s.signalWrites ++ [⟨i, key, row⟩] }
  else none

/-- A worker in a transaction writes the bookkeeping row, once its lock is free. -/
def Store.writeBudget (s : Store) (i : Nat) (write : BudgetWrite) : Option Store :=
  if i ∈ s.inTransaction ∧ ¬ s.locked i .budget then
    some { s with budgetWrites := some (i, s.ownWrites i ++ [write]) }
  else none

/-- `reserve_diag_signal_attempt`, which commits on its own. -/
def Store.reserve (s : Store) (i : Nat) (week : IsoWeek) (cap : Nat) (version : List Char)
    (known : Nat) : Option (Option Nat × Store) :=
  if i ∈ s.inTransaction ∨ s.budgetWrites.isSome then none
  else
    match Datasource.reserve s.budget week cap version known with
    | some (count, row) => some (some count, { s with budget := some row })
    | none => some (none, s)

/-- `release_diag_signal_attempt`, which commits on its own. It waits only for a row of its week. -/
def Store.release (s : Store) (i : Nat) (week : IsoWeek) : Option Store :=
  match s.budget with
  | none => some s
  | some row =>
    if row.week ≠ some (digits week) then some s
    else if i ∈ s.inTransaction ∨ s.budgetWrites.isSome then none
    else some { s with budget := some row.release }

/-- `DELETE` of one row that the sweep has found, unless it is gone by now. -/
def Store.delete (s : Store) (i : Nat) : Key → Option Store
  | .signal key => s.writeSignal i key none
  | .budget => if (s.view i).budget.isSome then s.writeBudget i .delete else some s

/-- `touch_generated_signal_version`. -/
def Store.touchGenerated (s : Store) (i : Nat) (version : List Char) : Option Store :=
  match (s.view i).signals.lookup .generated with
  | some row => s.writeSignal i .generated (some { row with schemaVersion := version })
  | none => some s

/-- A worker leaves its transaction, and its locks are free. -/
def Store.leave (s : Store) (i : Nat) : Store :=
  { s with
    inTransaction := s.inTransaction.filter (· != i)
    signalWrites := s.signalWrites.filter (·.worker != i)
    budgetWrites := s.budgetWrites.filter (·.1 != i) }

/-- `COMMIT`: what the worker saw is what everyone sees. -/
def Store.commit (s : Store) (i : Nat) : Store :=
  { s.leave i with signals := (s.view i).signals, budget := (s.view i).budget }

/-- Execute a statement of a worker. -/
def Store.exec (i : Nat) (c : Statement) (s : Store) : Option (Answer c × Store) :=
  match c with
  | .isoWeek => some (s.week, s)
  | .generate => some ((), { s with calls := s.calls ++ [s.week] })
  | .readVersion => some ((s.view i).readVersion, s)
  | .readBudget => some ((s.view i).readBudget, s)
  | .readReservation => some ((s.view i).readReservation, s)
  | .listSignals => some (some (s.view i).listSignals, s)
  | .reserve week cap version known => s.reserve i week cap version known
  | .release week => (s.release i week).map ((), ·)
  | .begin => some ((), { s with inTransaction := i :: s.inTransaction })
  | .upsert signal version =>
    (s.writeSignal i signal.key (some ⟨signal.content, version⟩)).map ((), ·)
  | .writeBudget marker version live => do
      let text ← writtenMarker (s.view i).budget marker live
      (s.writeBudget i (.store text version)).map ((), ·)
  | .findUnkept keep => some ((s.view i).findUnkept keep, s)
  | .delete key => (s.delete i key).map ((), ·)
  | .touchGenerated version => (s.touchGenerated i version).map ((), ·)
  | .commit => if i ∈ s.inTransaction then some ((), s.commit i) else none

/-- The one statement whose error the worker catches: the read of the last good row, which then
counts as unreadable. In a transaction the error dooms what follows. -/
def Store.caught (i : Nat) (c : Statement) (s : Store) : Option (Answer c) :=
  match c with
  | .listSignals => if i ∈ s.inTransaction then none else some none
  | _ => none

/-- The clock moves on to a later week. -/
def Store.tick (week : IsoWeek) (s : Store) : Store :=
  if s.week < week then { s with week } else s

end AwsOps.Datasource

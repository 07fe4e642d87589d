import AwsOps.Foundation.Threads
import AwsOps.Migrate.Files

/-!
# The ledger of migrations and the sessions on it

The database as far as the migration runner reads and writes it: the table `schema_migrations`,
the statements of one session with its transaction, and the session-level advisory lock. The
effect of a migration is the history of executions, which a rolled back transaction leaves out.
A statement that is executed and whose answer is lost is one after which the runner dies: a pg
client does not connect again, and the server ends the session.
-/

namespace AwsOps.Migrate

/-- The types of `schema_migrations.version`. -/
inductive VersionType where
  | integer | text
  deriving DecidableEq

/-- A row of `schema_migrations`, with the text of the file that a run stamped it for. -/
structure Row where
  version : String
  description : String
  checksum : Option String
  appVersion : Option String
  source : Option String

/-- The table `schema_migrations`. -/
structure Ledger where
  versionType : VersionType
  hasChecksum : Bool
  hasAppVersion : Bool
  rows : List Row

/-- The recorded versions. -/
def Ledger.versions (l : Ledger) : List String :=
  l.rows.map Row.version

/-- An execution of a migration by a runner. -/
structure Execution where
  runner : Nat
  migration : Migration
  transactional : Bool

/-- The database: the ledger, unless it is missing, and the history of committed executions. -/
structure Database where
  ledger : Option Ledger
  executions : List Execution

/-- The recorded versions. -/
def Database.versions (d : Database) : List String :=
  d.ledger.elim [] Ledger.versions

/-- A statement that changes the database. -/
inductive Change where
  | versionToText
  | addChecksum
  | addAppVersion
  | insertMarker (appVersion : String)
  | migration (m : Migration)
  | stamp (row : Row)

/-- The version of the baseline marker. -/
def baseline : String :=
  "baseline"

/-- The baseline marker. -/
def marker (appVersion : String) : Row :=
  ⟨baseline, "schema.sql baseline; future migrations are ULID files", none, some appVersion, none⟩

/-- What a change makes of the ledger, unless it raises: a text is no integer, a missing column
cannot be written and a version is recorded once. -/
def Ledger.change (l : Ledger) : Change → Option Ledger
  | .versionToText => some { l with versionType := .text }
  | .addChecksum => some { l with hasChecksum := true }
  | .addAppVersion => some { l with hasAppVersion := true }
  | .insertMarker appVersion =>
    if l.versionType = .text ∧ l.hasAppVersion = true then
      -- ON CONFLICT (version) DO NOTHING
      some (if baseline ∈ l.versions then l else { l with rows := l.rows ++ [marker appVersion] })
    else none
  | .migration _ => some l
  | .stamp row =>
    if l.versionType = .text ∧ l.hasChecksum = true ∧ l.hasAppVersion = true ∧
        row.version ∉ l.versions then
      some { l with rows := l.rows ++ [row] }
    else none

/-- What a change by a runner makes of the database, unless it raises. -/
def Database.change (runner : Nat) (transactional : Bool) (d : Database) :
    Change → Option Database
  | .migration m =>
    some { d with executions := d.executions ++ [⟨runner, m, transactional⟩] }
  | c => d.ledger.bind fun l => (l.change c).map fun l => { d with ledger := some l }

def Database.transaction (runner : Nat) (d : Database) : List Change → Option Database
  | [] => some d
  | c :: rest => (d.change runner true c).bind fun d => d.transaction runner rest

/-- The attributes of a role that a migration cannot revoke. -/
structure RoleAttributes where
  rolsuper : Bool
  rolreplication : Bool
  rolbypassrls : Bool

/-- The database, who holds the advisory lock, the open transaction of each session, the checkout
that each runner reads its files from, the role of the SQL reader and the text of the next error.
The history `seen` is the ledger that each runner read. -/
structure Store where
  database : Database
  holder : Option Nat
  sessions : Nat → Option (List Change)
  checkout : Nat → Option (List File)
  role : Option RoleAttributes
  error : String
  seen : Nat → Option Ledger

def Store.setSession (s : Store) (i : Nat) (open? : Option (List Change)) : Store :=
  { s with sessions := fun k => if k = i then open? else s.sessions k }

/-- The end of a session rolls its transaction back and gives up its lock. -/
def Store.disconnect (s : Store) (i : Nat) : Store :=
  { s.setSession i none with holder := if s.holder = some i then none else s.holder }

/-- A statement of a runner, or the loading of its files. -/
inductive Statement where
  | readDirectory
  | connect
  | lock
  | readVersionType
  | readHasChecksum
  | readRows (hasChecksum : Bool)
  | begin
  | change (c : Change)
  | commit
  | rollback
  | unlock
  | disconnect
  | roleExists
  | roleAttributes
  | alterRole (password : String)

/-- What a statement returns. -/
abbrev Statement.Result : Statement → Type
  | readDirectory => Option (List File)
  | readVersionType => Option VersionType
  | readHasChecksum => Bool
  | readRows _ => List (String × Option String)
  | roleExists => Bool
  | roleAttributes => Option RoleAttributes
  | _ => Unit

/-- The answer to a statement: what it returns, or an error. -/
abbrev Statement.Answer (c : Statement) : Type :=
  Except String c.Result

/-- The rows as `SELECT version, checksum` gives them, or `NULL AS checksum`. -/
def Ledger.read (l : Ledger) (hasChecksum : Bool) : List (String × Option String) :=
  l.rows.map fun row => (row.version, if hasChecksum then row.checksum else none)

/-- Execute a statement of a session. -/
def Store.exec (i : Nat) : (c : Statement) → Store → Option (c.Answer × Store)
  | .readDirectory, s => some (.ok (s.checkout i), s)
  | .connect, s => some (.ok (), s)
  | .lock, s =>
    if s.holder = none ∨ s.holder = some i then some (.ok (), { s with holder := some i })
    else none
  | .readVersionType, s => some (.ok (s.database.ledger.map Ledger.versionType), s)
  | .readHasChecksum, s => some (.ok (s.database.ledger.any Ledger.hasChecksum), s)
  | .readRows hasChecksum, s =>
    match s.database.ledger with
    | none => some (.error "relation \"schema_migrations\" does not exist", s)
    | some l =>
      if hasChecksum = true ∧ l.hasChecksum = false then
        some (.error "column \"checksum\" does not exist", s)
      else some (.ok (l.read hasChecksum),
        { s with seen := fun k => if k = i then some l else s.seen k })
  | .begin, s => some (.ok (), s.setSession i (some ((s.sessions i).getD [])))
  | .change c, s =>
    match s.sessions i with
    | none =>
      match s.database.change i false c with
      | none => some (.error s.error, s)
      | some database => some (.ok (), { s with database })
    | some changes =>
      match s.database.transaction i (changes ++ [c]) with
      | none => some (.error s.error, s)
      | some _ => some (.ok (), s.setSession i (some (changes ++ [c])))
  | .commit, s =>
    match s.sessions i with
    | none => some (.ok (), s)
    | some changes =>
      match s.database.transaction i changes with
      | none => some (.error s.error, s.setSession i none)
      | some database => some (.ok (), { s.setSession i none with database })
  | .rollback, s => some (.ok (), s.setSession i none)
  | .unlock, s => some (.ok (), { s with holder := if s.holder = some i then none else s.holder })
  | .disconnect, s => some (.ok (), s.disconnect i)
  | .roleExists, s => some (.ok s.role.isSome, s)
  | .roleAttributes, s => some (.ok s.role, s)
  | .alterRole _, s => some (.ok (), s)

end AwsOps.Migrate

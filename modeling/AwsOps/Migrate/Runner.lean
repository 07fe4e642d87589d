import AwsOps.Foundation.Entries
import AwsOps.Migrate.Ledger

/-!
# The migration runner

`make migrate` as a program over the statements of its session: it loads the files, takes the
advisory lock, reads the ledger, bootstraps an integer ledger, checks for drift and applies the
pending migrations, one transaction for each file that does not opt out. An error inside of a
transaction ends the process at once; other errors release the lock first.
-/

namespace AwsOps.Migrate

structure ReaderSecret where
  username : Option String
  host : Option String
  password : Option String

/-- The environment of a run: its switches, the release that it stamps, the migrations directory,
and where the secret of the SQL reader and the database context of the CI come from. -/
structure Config where
  dry : Bool
  bootstrap : Bool
  status : Bool
  offline : Bool
  appVersion : String
  directory : String
  readerSecretArn : Except String String
  readerSecret : Except String ReaderSecret
  ciEndpoint : Option String

/-- How a run ends. -/
inductive Outcome where
  | listed
  | nothingToDo
  | upToDate
  | previewed (count : Nat)
  | applied (count : Nat)
  | died (message : String)
  deriving DecidableEq

/-- The programs of runners. -/
abbrev Handler (α : Type) : Type :=
  Program Statement Statement.Answer α

def run (c : Statement) : Handler c.Answer :=
  Program.command c

/-- Run a statement and continue with its result, or handle its error. -/
def attempt (c : Statement) (handler : String → Handler Outcome)
    (next : c.Result → Handler Outcome) : Handler Outcome := do
  match ← run c with
  | .error e => handler e
  | .ok r => next r

/-- `process.exit`, which skips the `finally` block: the connection breaks. -/
def die (message : String) : Handler Outcome := do
  let _ ← run .disconnect
  pure (.died message)

/-- An error that leaves `main` through the `finally` block. -/
def fail (locked : Bool) (e : String) : Handler Outcome := do
  if locked then
    let _ ← run .unlock
    die e
  else die e

/-- `main` returns through the `finally` block. -/
def finish (outcome : Outcome) : Handler Outcome := do
  let _ ← run .unlock
  let _ ← run .disconnect
  pure outcome

/-! ## The password of the SQL reader -/

/-- A migration cannot revoke one of the attributes. -/
def RoleAttributes.elevated (role : RoleAttributes) : Bool :=
  role.rolsuper || role.rolreplication || role.rolbypassrls

/-- The secret is for another role, or another database than the CI context names. -/
def ReaderSecret.foreign (secret : ReaderSecret) (ciEndpoint : Option String) : Bool :=
  ciEndpoint.any fun endpoint =>
    secret.username != some "awsops_sql_reader" ||
      secret.host.any fun host => host != "" && host != endpoint

/-- Set the password of the SQL reader to that of its secret, and return. -/
def syncSqlReaderPassword (config : Config) (outcome : Outcome) : Handler Outcome :=
  match config.readerSecretArn with
  | .error e => fail true e
  | .ok arn =>
    if arn = "" then finish outcome
    else
      attempt .roleExists (fail true) fun found =>
        if found then
          attempt .roleAttributes (fail true) fun role =>
            match role with
            | none => fail true "Cannot read properties of undefined (reading 'rolsuper')"
            | some role =>
              if role.elevated then
                die ("sql-reader: awsops_sql_reader has an elevated attribute this project's " ++
                  s!"migrations cannot revoke (rolsuper={role.rolsuper}, " ++
                  s!"rolreplication={role.rolreplication}, " ++
                  s!"rolbypassrls={role.rolbypassrls}); the Aurora master user is not a real " ++
                  "superuser and cannot clear SUPERUSER/REPLICATION/BYPASSRLS. See " ++
                  "docs/runbooks/agent-sql-reader.md for the repair-migration procedure.")
              else
                match config.readerSecret with
                | .error e => fail true e
                | .ok secret =>
                  match secret.password with
                  | none => die "sql-reader secret has no password field"
                  | some password =>
                    if password = "" then die "sql-reader secret has no password field"
                    else if secret.foreign config.ciEndpoint then
                      die "sql-reader secret does not match the CI database context"
                    else
                      attempt (.alterRole password) (fail true) fun _ => finish outcome
        else finish outcome

/-! ## Applying migrations -/

/-- What a run knows once it has read the ledger. -/
structure Reading where
  migrations : List Migration
  versionType : VersionType
  rows : List (String × Option String)

/-- The map of applied versions to their checksums. -/
def Reading.applied (r : Reading) : List (String × Option String) :=
  Entries.ofList r.rows

/-- The pending ids. -/
def Reading.pending (r : Reading) : List String :=
  computePending (r.migrations.map Migration.id) (Entries.keys r.applied)

/-- The migration was applied with another text. -/
def Reading.drifted (r : Reading) (m : Migration) : Bool :=
  match Entries.get r.applied m.id with
  | some (some checksum) => checksum != sha256 m.sql
  | _ => false

def Migration.row (m : Migration) (appVersion : String) : Row :=
  ⟨m.id, m.name, some (sha256 m.sql), some (m.since.getD appVersion), some m.sql⟩

/-- A migration failed outside of a transaction. -/
def migrationFailed (m : Migration) (e : String) : Handler Outcome :=
  die s!"migration {m.file} failed (rolled back): {e}"

/-- A migration failed inside of its transaction. -/
def rollbackMigration (m : Migration) (e : String) : Handler Outcome := do
  let _ ← run .rollback
  migrationFailed m e

/-- Execute a migration and record it, each statement on its own. -/
def applyAutocommit (config : Config) (m : Migration) (next : Handler Outcome) : Handler Outcome :=
  attempt (.change (.migration m)) (migrationFailed m) fun _ =>
    attempt (.change (.stamp (m.row config.appVersion))) (migrationFailed m) fun _ => next

/-- Execute a migration and record it in one transaction. -/
def applyTransaction (config : Config) (m : Migration) (next : Handler Outcome) :
    Handler Outcome :=
  attempt .begin (rollbackMigration m) fun _ =>
    attempt (.change (.migration m)) (rollbackMigration m) fun _ =>
      attempt (.change (.stamp (m.row config.appVersion))) (rollbackMigration m) fun _ =>
        attempt .commit (rollbackMigration m) fun _ => next

/-- Apply the pending migrations one after the other. -/
def applyPending (config : Config) (r : Reading) : List String → Handler Outcome
  | [] =>
    if config.dry then finish (.previewed r.pending.length)
    else syncSqlReaderPassword config (.applied r.pending.length)
  | id :: rest =>
    match r.migrations.find? fun m => m.id == id with
    | none => fail true "Cannot read properties of undefined (reading 'sql')"
    | some m =>
      if config.dry then applyPending config r rest
      else if hasNoTxnFlag m.sql then applyAutocommit config m (applyPending config r rest)
      else applyTransaction config m (applyPending config r rest)

/-- The drift check, and what follows it. -/
def checkAndApply (config : Config) (r : Reading) : Handler Outcome :=
  match r.migrations.find? r.drifted with
  | some m =>
    die (s!"checksum drift: applied migration {m.id} ({m.file}) was edited after apply — " ++
      "migrations are immutable")
  | none =>
    if r.pending = [] then
      if config.dry then finish .upToDate else syncSqlReaderPassword config .upToDate
    else applyPending config r r.pending

def bootstrapFailed (e : String) : Handler Outcome := do
  let _ ← run .rollback
  die s!"bootstrap failed (rolled back to INTEGER): {e}"

def bootstrapChanges (appVersion : String) : List Change :=
  [.versionToText, .addChecksum, .addAppVersion, .insertMarker appVersion]

def makeChanges (handler : String → Handler Outcome) (next : Handler Outcome) :
    List Change → Handler Outcome
  | [] => next
  | c :: rest => attempt (.change c) handler fun _ => makeChanges handler next rest

/-- Turn an integer ledger into a text ledger, in one transaction. -/
def bootstrapLedger (config : Config) (next : Handler Outcome) : Handler Outcome :=
  attempt .begin bootstrapFailed fun _ =>
    makeChanges bootstrapFailed (attempt .commit bootstrapFailed fun _ => next)
      (bootstrapChanges config.appVersion)

/-- The part of `main` after the ledger was read. -/
def migrate (config : Config) (r : Reading) : Handler Outcome :=
  if r.versionType = .integer ∧ r.pending ≠ [] then
    if config.bootstrap then
      if config.dry then checkAndApply config r
      else bootstrapLedger config (checkAndApply config r)
    else
      die ("schema_migrations.version is INTEGER but ULID migrations are pending.\n  Bootstrap " ++
        "required (controller-confirmed, run during a coordinated quiet window):\n    " ++
        "BOOTSTRAP=1 make migrate")
  else if config.dry = false ∧ r.pending ≠ [] then
    attempt (.change .addChecksum) (fail true) fun _ =>
      attempt (.change .addAppVersion) (fail true) fun _ => checkAndApply config r
  else checkAndApply config r

def main (config : Config) (migrations : List Migration) : Handler Outcome :=
  attempt .connect (fun e => pure (.died e)) fun _ =>
    attempt .lock (fail false) fun _ =>
      attempt .readVersionType (fail true) fun versionType =>
        attempt .readHasChecksum (fail true) fun hasChecksum =>
          attempt (.readRows hasChecksum) (fail true) fun rows =>
            migrate config ⟨migrations, versionType.getD .text, rows⟩

/-- The whole process. -/
def runner (config : Config) : Handler Outcome :=
  attempt .readDirectory (fun e => pure (.died e)) fun directory =>
    match directory with
    | none => pure (.died s!"migrations dir not found: {config.directory}")
    | some files =>
      match loadMigrations files with
      | .error message => pure (.died message)
      | .ok migrations =>
        if config.status then pure .listed
        else if migrations.isEmpty then pure .nothingToDo
        else if config.dry && config.offline then pure .listed
        else main config migrations

/-- Runners on the database. The death of a runner ends its session; the environment decides what
the next error says. -/
def machine : Machine Statement Statement.Answer Store Config String Outcome where
  worker := runner
  exec := Store.exec
  caught _ c s :=
    match c with
    | .disconnect => none
    | _ => some (.error s.error)
  abort i s := s.disconnect i
  environment e s := { s with error := e }

end AwsOps.Migrate

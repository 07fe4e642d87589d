import AwsOps.Migrate.Runner

/-!
# The protocol of a migration run

How far a run has come, with what it has learned: which files it loaded, what it read of the ledger
under the lock, which pending ids are left and what its open transaction has done. A migration is
executed only as the first pending id that is left, after the drift check, and nothing but the
rollback and the end of the session follows an error inside of a migration.
-/

namespace AwsOps.Migrate

open Follows

/-- How far a run has come. -/
inductive Stage where
  | start
  | loaded (migrations : List Migration)
  | locked (migrations : List Migration)
  | typed (migrations : List Migration) (versionType : Option VersionType)
  | columns (migrations : List Migration) (versionType : Option VersionType) (hasChecksum : Bool)
  | read (r : Reading)
  | extending (r : Reading)
  | bootstrapping (r : Reading) (changes : List Change)
  | ready (r : Reading) (rest : List String)
  | within (r : Reading) (rest : List String) (changes : List Change)
  | stamping (r : Reading) (m : Migration) (rest : List String)
  | ended

/-- No applied migration has another text than it was applied with. -/
def Reading.Unchanged (r : Reading) : Prop :=
  ∀ m ∈ r.migrations, r.drifted m = false

structure Reading.Next (r : Reading) (rest : List String) (m : Migration) : Prop where
  unchanged : r.Unchanged
  file : m ∈ r.migrations
  first : rest.head? = some m.id

structure Row.Records (row : Row) (m : Migration) : Prop where
  version : row.version = m.id
  checksum : row.checksum = some (sha256 m.sql)
  source : row.source = some m.sql

/-- The run holds the lock and no transaction is open. -/
def Stage.idle : Stage → Bool
  | .locked _ | .typed .. | .columns .. | .read _ | .extending _ | .ready .. => true
  | _ => false

/-- The statement changes no table. -/
def Statement.idle : Statement → Bool
  | .roleExists | .roleAttributes | .alterRole _ | .unlock | .disconnect => true
  | _ => false

/-- The changes that a bootstrap may make next. -/
def BootstrapChanges (changes : List Change) : Prop :=
  ∃ appVersion, changes <+: bootstrapChanges appVersion

/-- The changes that the transaction of a migration may make next. -/
inductive MigrationChanges (r : Reading) (rest : List String) : List Change → Prop where
  | none : MigrationChanges r rest []
  | executed {m : Migration} : r.Next rest m → hasNoTxnFlag m.sql = false →
      MigrationChanges r rest [.migration m]
  | stamped {m : Migration} {row : Row} : r.Next rest m → hasNoTxnFlag m.sql = false →
      row.Records m → MigrationChanges r rest [.migration m, .stamp row]

/-- The statements that take a run to another stage. -/
def Stage.mayIssue : Stage → Statement → Prop
  | .start, .readDirectory => True
  | .loaded _, .connect | .loaded _, .lock | .loaded _, .disconnect => True
  | .locked _, .readVersionType => True
  | .typed .., .readHasChecksum => True
  | .columns _ _ hasChecksum, .readRows hasChecksum' => hasChecksum' = hasChecksum
  | .read r, .change .addChecksum => r.versionType = .text
  | .read r, .begin => r.versionType = .integer
  | .extending _, .change .addAppVersion => True
  | .bootstrapping _ changes, .change c => BootstrapChanges (changes ++ [c])
  | .bootstrapping _ changes, .commit => ∃ appVersion, changes = bootstrapChanges appVersion
  | .ready .., .begin => True
  | .ready r rest, .change (.migration m) => r.Next rest m ∧ hasNoTxnFlag m.sql = true
  | .within r rest changes, .change c => MigrationChanges r rest (changes ++ [c])
  | .within _ _ changes, .commit => changes.length = 2
  | .stamping _ m _, .change (.stamp row) => row.Records m
  | .ended, .rollback | .ended, .disconnect => True
  | _, _ => False

/-- The stage after the answer to a statement that changes it. -/
def Stage.advance : Stage → (c : Statement) → c.Answer → Stage
  | .start, .readDirectory, .ok (some files) =>
    match loadMigrations files with
    | .ok migrations => .loaded migrations
    | .error _ => .ended
  | .start, .readDirectory, _ => .ended
  | .loaded migrations, .lock, .ok _ => .locked migrations
  | .locked migrations, .readVersionType, .ok versionType => .typed migrations versionType
  | .typed migrations versionType, .readHasChecksum, .ok hasChecksum =>
    .columns migrations versionType hasChecksum
  | .columns migrations versionType _, .readRows _, .ok rows =>
    .read ⟨migrations, versionType.getD .text, rows⟩
  | .read r, .change .addChecksum, .ok _ => .extending r
  | .read r, .begin, .ok _ => .bootstrapping r []
  | .read _, .begin, .error _ => .ended
  | .extending r, .change .addAppVersion, .ok _ => .ready r r.pending
  | .bootstrapping r changes, .change c, .ok _ => .bootstrapping r (changes ++ [c])
  | .bootstrapping r _, .commit, .ok _ => .ready r r.pending
  | .bootstrapping .., _, .error _ => .ended
  | .ready r rest, .begin, .ok _ => .within r rest []
  | .ready r rest, .change (.migration m), .ok _ => .stamping r m rest.tail
  | .ready .., _, .error _ => .ended
  | .within r rest changes, .change c, .ok _ => .within r rest (changes ++ [c])
  | .within r rest _, .commit, .ok _ => .ready r rest.tail
  | .within .., _, .error _ => .ended
  | .stamping r _ rest, .change (.stamp _), .ok _ => .ready r rest
  | .stamping .., _, .error _ => .ended
  | stage, _, _ => stage

/-- The statements that a run may issue at each stage, and the stage after their answers. -/
def protocol : Protocol Statement Statement.Answer Stage where
  initial := .start
  allowed stage c := stage.mayIssue c ∨ stage.idle = true ∧ c.idle = true
  after stage c answer :=
    match c, answer with
    | .unlock, _ | .disconnect, _ => .ended
    | .roleExists, _ | .roleAttributes, _ | .alterRole _, _ => stage
    | c, answer => stage.advance c answer

/-! ## The programs keep to it -/

/-- The run keeps to the protocol from the stage on. -/
abbrev Keeps (stage : Stage) (p : Handler Outcome) : Prop :=
  Follows protocol stage p fun _ _ => True

theorem attempt_keeps {stage : Stage} {c : Statement} {handler : String → Handler Outcome}
    {next : c.Result → Handler Outcome} (hallowed : protocol.allowed stage c)
    (herror : ∀ e, Keeps (protocol.after stage c (.error e)) (handler e))
    (hok : ∀ r, Keeps (protocol.after stage c (.ok r)) (next r)) :
    Keeps stage (attempt c handler next) := by
  refine command_bind hallowed fun answer => ?_
  cases answer with
  | error e => exact herror e
  | ok r => exact hok r

section Idle

variable {stage : Stage} (hidle : stage.idle = true)
include hidle

theorem die_keeps (message : String) : Keeps stage (die message) :=
  command_bind (.inr ⟨hidle, rfl⟩) fun _ => trivial

theorem fail_keeps (e : String) : Keeps stage (fail true e) := by
  refine command_bind (.inr ⟨hidle, rfl⟩) fun _ => ?_
  exact command_bind (.inl trivial) fun _ => trivial

theorem finish_keeps (outcome : Outcome) : Keeps stage (finish outcome) := by
  refine command_bind (.inr ⟨hidle, rfl⟩) fun _ => ?_
  exact command_bind (.inl trivial) fun _ => trivial

theorem sync_sql_reader_password_keeps (config : Config) (outcome : Outcome) :
    Keeps stage (syncSqlReaderPassword config outcome) := by
  have hfail : ∀ e, Keeps stage (fail true e) := fail_keeps hidle
  unfold syncSqlReaderPassword
  split
  · exact hfail _
  · split
    · exact finish_keeps hidle outcome
    · refine attempt_keeps (.inr ⟨hidle, rfl⟩) hfail fun found => ?_
      split
      · refine attempt_keeps (.inr ⟨hidle, rfl⟩) hfail fun role => ?_
        split
        · exact hfail _
        · split
          · exact die_keeps hidle _
          · split
            · exact hfail _
            · split
              · exact die_keeps hidle _
              · split
                · exact die_keeps hidle _
                · split
                  · exact die_keeps hidle _
                  · refine attempt_keeps (.inr ⟨hidle, rfl⟩) hfail fun _ => ?_
                    exact finish_keeps hidle outcome
      · exact finish_keeps hidle outcome

/-- A dry run issues nothing that changes a table. -/
theorem apply_pending_dry_keeps {config : Config} (hdry : config.dry = true) (r : Reading)
    (rest : List String) : Keeps stage (applyPending config r rest) := by
  induction rest with
  | nil =>
    rw [applyPending, if_pos hdry]
    exact finish_keeps hidle _
  | cons id rest ih =>
    rw [applyPending]
    split
    · exact fail_keeps hidle _
    · rw [if_pos hdry]
      exact ih

end Idle

theorem die_ended_keeps (message : String) : Keeps .ended (die message) :=
  command_bind (.inl trivial) fun _ => trivial

theorem rollback_ended_keeps (message : String) : Keeps .ended (do
      let _ ← run .rollback
      die message) :=
  command_bind (.inl trivial) fun _ => die_ended_keeps message

variable {r : Reading}

variable {rest : List String} {config : Config}

theorem apply_autocommit_keeps (config : Config) {m : Migration} {next : Handler Outcome}
    (hnext : r.Next rest m) (hflag : hasNoTxnFlag m.sql = true)
    (hrest : Keeps (.ready r rest.tail) next) :
    Keeps (.ready r rest) (applyAutocommit config m next) := by
  refine attempt_keeps (.inl ⟨hnext, hflag⟩) (fun e => die_ended_keeps _) fun _ => ?_
  exact attempt_keeps (.inl ⟨rfl, rfl, rfl⟩) (fun e => die_ended_keeps _) fun _ => hrest

theorem apply_transaction_keeps (config : Config) {m : Migration} {next : Handler Outcome}
    (hnext : r.Next rest m) (hflag : hasNoTxnFlag m.sql = false)
    (hrest : Keeps (.ready r rest.tail) next) :
    Keeps (.ready r rest) (applyTransaction config m next) := by
  refine attempt_keeps (.inl trivial) (fun e => rollback_ended_keeps _) fun _ => ?_
  refine @attempt_keeps (.within r rest []) _ _ _ (.inl (.executed hnext hflag))
    (fun e => rollback_ended_keeps _) fun _ => ?_
  refine @attempt_keeps (.within r rest _) _ _ _ (.inl (.stamped hnext hflag ⟨rfl, rfl, rfl⟩))
    (fun e => rollback_ended_keeps _) fun _ => ?_
  exact attempt_keeps (.inl rfl) (fun e => rollback_ended_keeps _) fun _ => hrest

theorem apply_pending_keeps (hdry : config.dry = false) (hunchanged : r.Unchanged)
    (rest : List String) :
    Keeps (.ready r rest) (applyPending config r rest) := by
  induction rest with
  | nil =>
    rw [applyPending, if_neg (by simp [hdry])]
    exact sync_sql_reader_password_keeps rfl config _
  | cons id rest ih =>
    rw [applyPending]
    split
    · exact fail_keeps rfl _
    · rename_i m hfind
      have hid : m.id = id := by simpa using List.find?_some hfind
      have hnext : r.Next (id :: rest) m :=
        ⟨hunchanged, List.mem_of_find?_eq_some hfind, by rw [List.head?_cons, hid]⟩
      rw [if_neg (by simp [hdry])]
      split
      · rename_i hflag
        exact apply_autocommit_keeps config hnext hflag ih
      · rename_i hflag
        exact apply_transaction_keeps config hnext (Bool.not_eq_true _ ▸ hflag) ih

theorem check_and_apply_keeps {stage : Stage} (hidle : stage.idle = true)
    (hready : config.dry = false → r.pending ≠ [] → stage = .ready r r.pending) :
    Keeps stage (checkAndApply config r) := by
  unfold checkAndApply
  split
  · exact die_keeps hidle _
  · rename_i hfind
    have hunchanged : r.Unchanged := by
      intro m hm
      exact Bool.not_eq_true _ ▸ List.find?_eq_none.mp hfind m hm
    cases hdry : config.dry with
    | true =>
      split
      · exact finish_keeps hidle _
      · exact apply_pending_dry_keeps hidle hdry r _
    | false =>
      split
      · exact sync_sql_reader_password_keeps hidle config _
      · rename_i hpending
        rw [hready hdry hpending]
        exact apply_pending_keeps hdry hunchanged _

theorem make_changes_keeps {appVersion : String} {next : Handler Outcome}
    (hnext : Keeps (.bootstrapping r (bootstrapChanges appVersion)) next) {done left : List Change}
    (h : done ++ left = bootstrapChanges appVersion) :
    Keeps (.bootstrapping r done) (makeChanges bootstrapFailed next left) := by
  induction left generalizing done with
  | nil =>
    rw [List.append_nil] at h
    exact h ▸ hnext
  | cons c left ih =>
    have happend : (done ++ [c]) ++ left = bootstrapChanges appVersion := by
      rw [List.append_assoc]
      exact h
    refine attempt_keeps (.inl ⟨appVersion, left, happend⟩) (fun e => rollback_ended_keeps _) ?_
    exact fun _ => ih happend

theorem migrate_keeps (config : Config) (r : Reading) : Keeps (.read r) (migrate config r) := by
  unfold migrate
  split
  · rename_i hinteger
    split
    · split
      · rename_i hdry
        refine check_and_apply_keeps rfl fun hwet => ?_
        rw [hdry] at hwet
        cases hwet
      · refine attempt_keeps (.inl hinteger.1) (fun e => rollback_ended_keeps _) fun _ => ?_
        refine @make_changes_keeps _ config.appVersion _ ?_ _ _ rfl
        refine attempt_keeps (.inl ⟨_, rfl⟩) (fun e => rollback_ended_keeps _) fun _ => ?_
        exact check_and_apply_keeps rfl fun _ _ => rfl
    · exact die_keeps rfl _
  · rename_i hinteger
    split
    · rename_i hpending
      have htext : r.versionType = .text := by
        cases hversion : r.versionType with
        | integer => exact absurd ⟨hversion, hpending.2⟩ hinteger
        | text => rfl
      refine attempt_keeps (.inl htext) (fail_keeps rfl) fun _ => ?_
      refine @attempt_keeps (.extending r) _ _ _ (.inl trivial) (fail_keeps rfl) fun _ => ?_
      exact check_and_apply_keeps rfl fun _ _ => rfl
    · rename_i hpending
      exact check_and_apply_keeps rfl fun hdry hsome => absurd ⟨hdry, hsome⟩ hpending

theorem main_keeps (config : Config) (migrations : List Migration) :
    Keeps (.loaded migrations) (main config migrations) := by
  refine attempt_keeps (.inl trivial) (fun e => trivial) fun _ => ?_
  refine @attempt_keeps (.loaded migrations) _ _ _ (.inl trivial) ?_ fun _ => ?_
  · exact fun e => command_bind (.inl trivial) fun _ => trivial
  · refine @attempt_keeps (.locked _) _ _ _ (.inl trivial) (fail_keeps rfl) fun _ => ?_
    refine @attempt_keeps (.typed ..) _ _ _ (.inl trivial) (fail_keeps rfl) fun _ => ?_
    refine @attempt_keeps (.columns ..) _ _ _ (.inl rfl) (fail_keeps rfl) fun _ => ?_
    exact migrate_keeps config _

theorem runner_keeps (config : Config) : Keeps .start (runner config) := by
  refine attempt_keeps (.inl trivial) (fun e => trivial) fun directory => ?_
  cases directory with
  | none => trivial
  | some files =>
    cases hload : loadMigrations files with
    | error message =>
      dsimp only
      rw [hload]
      trivial
    | ok migrations =>
      have hstage : protocol.after .start .readDirectory (.ok (some files)) =
          .loaded migrations := by
        show (match loadMigrations files with
          | .ok migrations => Stage.loaded migrations
          | .error _ => .ended) = _
        rw [hload]
      rw [hstage]
      dsimp only
      rw [hload]
      dsimp only
      split
      · trivial
      · split
        · trivial
        · split
          · trivial
          · exact main_keeps config migrations

end AwsOps.Migrate

import AwsOps.Migrate.Protocol

/-!
# What the holder of the lock knows

Only the session that holds the advisory lock changes the database, so what a run read under the
lock stays true of the database until its own statements change it. `Knows` says what that is at
each stage, and `Sound` what holds of the database whoever runs.
-/

namespace AwsOps.Migrate

/-- The run has not executed anything. -/
def Fresh (i : Nat) (s : Store) : Prop :=
  ∀ e ∈ s.database.executions, e.runner ≠ i

/-- The session is outside of the lock and of transactions. -/
def Free (i : Nat) (s : Store) : Prop :=
  s.holder ≠ some i ∧ s.sessions i = none

/-- The session holds the lock and this transaction is open. -/
def Holds (i : Nat) (open? : Option (List Change)) (s : Store) : Prop :=
  s.holder = some i ∧ s.sessions i = open?

/-- The files that the run loaded. -/
def Loaded (i : Nat) (migrations : List Migration) (s : Store) : Prop :=
  ∃ files, s.checkout i = some files ∧ loadMigrations files = .ok migrations

/-- The checksums of the rows that were stamped for a text are those of the text, and versions are
recorded once. -/
structure Ledger.Genuine (l : Ledger) : Prop where
  unique : l.versions.Nodup
  checksums : ∀ row ∈ l.rows, ∀ sql, row.source = some sql →
    l.hasChecksum = true ∧ row.checksum = some (sha256 sql)

structure Reading.Of (r : Reading) (l : Ledger) : Prop where
  genuine : l.Genuine
  versionType : r.versionType = l.versionType
  rows : r.rows = l.read l.hasChecksum

/-- The run read this ledger under the lock. -/
def Saw (i : Nat) (r : Reading) (s : Store) (l : Ledger) : Prop :=
  Loaded i r.migrations s ∧ s.seen i = some l ∧ r.Of l

/-- What is left to do for the run, and what is done. -/
structure Ahead (i : Nat) (r : Reading) (todo : List String) (s : Store) : Prop where
  saw : ∃ l, Saw i r s l ∧ ∀ id ∈ todo, id ∉ l.versions
  ascending : todo.Pairwise (· < ·)
  missing : ∀ id ∈ todo, id ∉ s.database.versions
  recorded : ∀ m ∈ r.migrations, m.id ∉ todo → m.id ∈ s.database.versions

/-- What the run executed comes before what is left. -/
def Past (i : Nat) (rest : List String) (s : Store) : Prop :=
  ∀ e ∈ s.database.executions, e.runner = i → ∀ id ∈ rest, e.migration.id < id

def Knows (i : Nat) (stage : Stage) (s : Store) : Prop :=
  match stage with
  | .start => Free i s ∧ Fresh i s
  | .loaded migrations => Free i s ∧ Fresh i s ∧ Loaded i migrations s
  | .locked migrations => Holds i none s ∧ Fresh i s ∧ Loaded i migrations s
  | .typed migrations versionType =>
    Holds i none s ∧ Fresh i s ∧ Loaded i migrations s ∧
      versionType = s.database.ledger.map Ledger.versionType
  | .columns migrations versionType hasChecksum =>
    Holds i none s ∧ Fresh i s ∧ Loaded i migrations s ∧
      versionType = s.database.ledger.map Ledger.versionType ∧
      hasChecksum = s.database.ledger.any Ledger.hasChecksum
  | .read r => Holds i none s ∧ Fresh i s ∧ ∃ l, s.database.ledger = some l ∧ Saw i r s l
  | .extending r =>
    Holds i none s ∧ Fresh i s ∧ ∃ l l', Saw i r s l ∧ s.database.ledger = some l' ∧
      l'.versionType = .text ∧ l'.versions = l.versions
  | .bootstrapping r changes =>
    Holds i (some changes) s ∧ Fresh i s ∧ BootstrapChanges changes ∧
      ∃ l, s.database.ledger = some l ∧ Saw i r s l
  | .ready r rest => Holds i none s ∧ Ahead i r rest s ∧ Past i rest s
  | .within r rest changes =>
    Holds i (some changes) s ∧ Ahead i r rest s ∧ Past i rest s ∧
      MigrationChanges r rest changes
  | .stamping r m rest =>
    Holds i none s ∧ Ahead i r (m.id :: rest) s ∧ Past i rest s ∧
      ∃ e ∈ s.database.executions, e.migration.id = m.id
  | .ended => True

variable {s s' : Store}

theorem Knows.outside {k : Nat} {stage : Stage} (h : Knows k stage s) (hfree : s.holder ≠ some k)
    (hstill : s'.holder ≠ some k) (hsession : s'.sessions k = s.sessions k)
    (hcheckout : s'.checkout = s.checkout) (hfresh : Fresh k s → Fresh k s') :
    Knows k stage s' := by
  have hloaded : ∀ migrations, Loaded k migrations s → Loaded k migrations s' := by
    intro migrations hloaded
    rwa [Loaded, hcheckout]
  cases stage with
  | start => exact ⟨⟨hstill, hsession.trans h.1.2⟩, hfresh h.2⟩
  | loaded migrations => exact ⟨⟨hstill, hsession.trans h.1.2⟩, hfresh h.2.1, hloaded _ h.2.2⟩
  | ended => trivial
  | _ => exact absurd h.1.1 hfree

/-- What a run knows does not depend on the sessions of others, and not on the lock while it stays
with it or with others. -/
theorem Knows.congr {k : Nat} {stage : Stage} (h : Knows k stage s)
    (hdatabase : s'.database = s.database) (hcheckout : s'.checkout = s.checkout)
    (hseen : s'.seen k = s.seen k) (hsession : s'.sessions k = s.sessions k)
    (hholder : s'.holder = some k ↔ s.holder = some k) : Knows k stage s' := by
  have hfree : Free k s → Free k s' := fun hfree => ⟨hholder.not.mpr hfree.1, hsession.trans hfree.2⟩
  have hholds : ∀ changes, Holds k changes s → Holds k changes s' :=
    fun changes hholds => ⟨hholder.mpr hholds.1, hsession.trans hholds.2⟩
  have hfresh : Fresh k s → Fresh k s' := by
    intro hfresh
    rwa [Fresh, hdatabase]
  have hloaded : ∀ migrations, Loaded k migrations s → Loaded k migrations s' := by
    intro migrations hloaded
    rwa [Loaded, hcheckout]
  have hsaw : ∀ r l, Saw k r s l → Saw k r s' l :=
    fun r l hsaw => ⟨hloaded _ hsaw.1, hseen.trans hsaw.2.1, hsaw.2.2⟩
  have hahead : ∀ r todo, Ahead k r todo s → Ahead k r todo s' := by
    intro r todo hahead
    obtain ⟨l, hl, hnew⟩ := hahead.saw
    exact ⟨⟨l, hsaw r l hl, hnew⟩, hahead.ascending, hdatabase ▸ hahead.missing,
      hdatabase ▸ hahead.recorded⟩
  have hpast : ∀ rest, Past k rest s → Past k rest s' := by
    intro rest hpast
    rwa [Past, hdatabase]
  cases stage with
  | start => exact ⟨hfree h.1, hfresh h.2⟩
  | loaded migrations => exact ⟨hfree h.1, hfresh h.2.1, hloaded _ h.2.2⟩
  | locked migrations => exact ⟨hholds _ h.1, hfresh h.2.1, hloaded _ h.2.2⟩
  | typed migrations versionType =>
    obtain ⟨h1, h2, h3, h4⟩ := h
    exact ⟨hholds _ h1, hfresh h2, hloaded _ h3, hdatabase ▸ h4⟩
  | columns migrations versionType hasChecksum =>
    obtain ⟨h1, h2, h3, h4⟩ := h
    exact ⟨hholds _ h1, hfresh h2, hloaded _ h3, hdatabase ▸ h4⟩
  | read r =>
    obtain ⟨h1, h2, l, hl, h3⟩ := h
    exact ⟨hholds _ h1, hfresh h2, l, hdatabase ▸ hl, hsaw r l h3⟩
  | extending r =>
    obtain ⟨h1, h2, l, l', h3, hl', h4⟩ := h
    exact ⟨hholds _ h1, hfresh h2, l, l', hsaw r l h3, hdatabase ▸ hl', h4⟩
  | bootstrapping r changes =>
    obtain ⟨h1, h2, h3, l, hl, h4⟩ := h
    exact ⟨hholds _ h1, hfresh h2, h3, l, hdatabase ▸ hl, hsaw r l h4⟩
  | ready r rest => exact ⟨hholds _ h.1, hahead _ _ h.2.1, hpast _ h.2.2⟩
  | within r rest changes =>
    exact ⟨hholds _ h.1, hahead _ _ h.2.1, hpast _ h.2.2.1, h.2.2.2⟩
  | stamping r m rest =>
    exact ⟨hholds _ h.1, hahead _ _ h.2.1, hpast _ h.2.2.1, hdatabase ▸ h.2.2.2⟩
  | ended => trivial

/-! ## The database -/

structure Ledger.Bootstrapped (l : Ledger) : Prop where
  versionType : l.versionType = .text
  hasChecksum : l.hasChecksum = true
  hasAppVersion : l.hasAppVersion = true
  marked : baseline ∈ l.versions

/-- An integer ledger is as it was, or bootstrapped. -/
def Whole (initial now : Option Ledger) : Prop :=
  ∀ l, initial = some l → l.versionType = .integer →
    now = initial ∨ ∃ l', now = some l' ∧ l'.Bootstrapped

/-- The run read a ledger in which the migration was not recorded, and in which each of its files
that was stamped was stamped for a text with the same checksum. -/
def Faithful (e : Execution) (s : Store) : Prop :=
  ∃ l, s.seen e.runner = some l ∧ e.migration.id ∉ l.versions ∧
    ∃ migrations, Loaded e.runner migrations s ∧ e.migration ∈ migrations ∧
      ∀ m ∈ migrations, ∀ row ∈ l.rows, row.version = m.id → ∀ sql, row.source = some sql →
        sha256 sql = sha256 m.sql

/-- What holds of the database, whoever runs. -/
structure Recorded (initial : Database) (s : Store) : Prop where
  flagged : ∀ e ∈ s.database.executions, e.transactional = !hasNoTxnFlag e.migration.sql
  stamped : ∀ e ∈ s.database.executions, e.transactional = true →
    e.migration.id ∈ s.database.versions
  once : ((s.database.executions.filter Execution.transactional).map
    fun e => e.migration.id).Nodup
  origin : ∀ v ∈ s.database.versions, v ∈ initial.versions ∨ v = baseline ∨
    ∃ e ∈ s.database.executions, e.migration.id = v
  ascending : ∀ i, (s.database.executions.filter fun e => e.runner == i).Pairwise
    fun a b => a.migration.id < b.migration.id
  stops : ∀ e ∈ s.database.executions, ∀ migrations, Loaded e.runner migrations s →
    ∀ m ∈ migrations, m.id < e.migration.id → m.id ∈ s.database.versions
  faithful : ∀ e ∈ s.database.executions, Faithful e s
  genuine : ∀ l, s.database.ledger = some l → l.Genuine
  whole : Whole initial.ledger s.database.ledger

/-- What holds after some runs have started. -/
structure Sound (initial : Database) (n : Nat) (s : Store) : Prop where
  later : ∀ k, n ≤ k → Free k s ∧ Fresh k s
  recorded : Recorded initial s

end AwsOps.Migrate

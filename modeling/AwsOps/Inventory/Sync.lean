import AwsOps.Foundation.Attempts
import Mathlib.Data.List.AList

/-!
# The inventory sync of one resource type

`sync` takes the advisory lock of the type, marks its ledger row as running under a fresh token,
collects the records, upserts them one by one, prunes what is gone, unlocks, and writes the end of
the run into the ledger row on a connection of its own, if the row still carries its token. Every
statement commits on its own. The server knows a session for each run: it may end at any time and
take the lock with it, a statement may be executed without the run learning of it, and it may be
executed only after the run has gone on.
-/

namespace AwsOps.Inventory

/-! ## Records and rows -/

/-- The key of an `inventory_resources` row of the type. -/
structure Key where
  accountId : String
  region : String
  resourceId : String
  deriving DecidableEq

/-- A collected record: the columns that the sync reads, and its JSON text. -/
structure Record where
  accountId : Option String
  region : Option String
  resourceId : Option String
  ownerId : Option String
  data : String

/-- `str(value)`. -/
def textOf (value : Option String) : String :=
  value.getD "None"

/-- `_rec_account`, where `host` is the caller's account. -/
def Record.account (host : String) (record : Record) : String :=
  match record.accountId with
  | some id => if id = "" ∨ id = host then "self" else id
  | none => "self"

/-- The identity of a record. -/
def Record.key (host : String) (record : Record) : Key :=
  ⟨record.account host, record.region.getD "", textOf record.resourceId⟩

def Record.owned (record : Record) : Bool :=
  textOf record.ownerId == textOf record.accountId

/-- `by_identity[key] = data`. A key keeps its place. -/
def setIdentity (key : Key) (data : String) : List (Key × String) → List (Key × String)
  | [] => [(key, data)]
  | entry :: rest =>
    if entry.1 = key then (key, data) :: rest else entry :: setIdentity key data rest

/-- `by_identity`. The last record of an identity wins. -/
def identities (host : String) (records : List Record) : List (Key × String) :=
  records.foldl (fun ids record => setIdentity (record.key host) record.data ids) []

/-- The `inventory_resources` rows of the type by key. -/
abbrev Resources := AList fun _ : Key => String

/-- An `accounts` row. -/
structure Account where
  accountId : String
  enabled : Bool
  allRegions : Bool

/-- The rows of `accounts` and of `account_regions`, the latter with their flag `enabled`. -/
structure Registry where
  accounts : List Account
  regions : List (String × Bool)

/-- An account that is enabled, with all regions or at least one. -/
def Registry.scans (registry : Registry) (account : Account) : Bool :=
  account.enabled &&
    (account.allRegions || registry.regions.any fun region => region.1 = account.accountId && region.2)

/-- The accounts in scan scope. -/
def Registry.scope (registry : Registry) : List String :=
  (registry.accounts.filter registry.scans).map Account.accountId

/-- The statement `PHASE1_PRUNE_SQL` on the rows of the type. -/
def phase1Prune (registry : Registry) (resources : Resources) : Resources :=
  ⟨resources.entries.filter fun row =>
      row.1.accountId = "self" || registry.scope.contains row.1.accountId,
    resources.nodupKeys.sublist List.filter_sublist⟩

/-- How a sync run ends. -/
inductive Outcome
  | succeeded | partially | failed
  deriving DecidableEq

inductive SyncStatus
  | running | terminal (outcome : Outcome)
  deriving DecidableEq

/-- The `inventory_sync_runs` row of the type. -/
structure SyncRow where
  status : SyncStatus
  runToken : Nat
  startedAt : Nat
  finishedAt : Option Nat
  rowCount : Option Nat
  error : Option String
  unknownAttributeCount : Option Nat
  lastSuccessAt : Option Nat
  lastSuccessRowCount : Option Nat
  deriving DecidableEq

/-- What the runs have done: run `i` took the lock, marked its row, wrote or deleted resource rows,
unlocked, or set the status at its end. -/
inductive Entry
  | acquired (i : Nat) | began (i : Nat) | wrote (i : Nat) | released (i : Nat)
  | ended (i : Nat) (outcome : Outcome)
  deriving DecidableEq

/-- The tables of the type, the holder of its advisory lock, the clock, and what has happened to
them, the last first. -/
structure Tables where
  lock : Option Nat
  ledger : Option SyncRow
  resources : Resources
  registry : Registry
  clock : Nat
  history : List Entry

/-! ## The statements -/

structure SdkCollection where
  records : List Record
  failureCount : Nat
  unknownAttributeCount : Nat

/-- What a run writes into the ledger when it ends. -/
structure Pending where
  status : Outcome
  rowCount : Option Nat
  error : Option String
  unknownAttributeCount : Nat
  deriving DecidableEq

/-- A statement, a collection, a probe of an account, or the opening or closing of the work
connection. `finalize` is `_finalize_sync_ledger`, with its own connection. -/
inductive Statement
  | newRunToken
  | aurora
  | tryLock
  | upsertRunning (token : Nat)
  | targetAccounts
  | collectSdk
  | runQuery
  | upsertResource (key : Key) (data : String)
  | phase1Prune
  | probe (accountId : String)
  | listResources
  | deleteResource (key : Key)
  | writeSnapshot (accountId : String) (count : Nat)
  | unlock
  | close
  | finalize (token : Nat) (pending : Pending)
  deriving DecidableEq

/-- What a statement returns. -/
abbrev Reply : Statement → Type
  | .newRunToken => Nat
  | .tryLock => Bool
  | .targetAccounts => List String
  | .collectSdk => SdkCollection
  | .runQuery => List Record × Bool
  | .probe _ => Bool
  | .listResources => List Key
  | .finalize .. => Bool
  | _ => Unit

/-- The answer to a statement: a value or the name of an exception. -/
abbrev Answer (c : Statement) : Type := Except String (Reply c)

/-- The statement goes over the work connection. -/
def Statement.onWork : Statement → Bool
  | .tryLock | .upsertRunning _ | .targetAccounts | .upsertResource .. | .phase1Prune
  | .listResources | .deleteResource _ | .writeSnapshot .. | .unlock => true
  | .newRunToken | .aurora | .collectSdk | .runQuery | .probe _ | .close | .finalize .. => false

/-! ## The program -/

/-- `[0-9]{12}` on the whole text. -/
def isAccountId (text : String) : Bool :=
  text.toList.length = 12 && text.toList.all Char.isDigit

/-- What comes from outside: whether the type has an SDK collector, its name, the caller's account,
what the collector or Steampipe returns in a run, which accounts answer the probe of a run, and the
names of the exceptions. -/
structure World where
  sdk : Bool
  resourceType : String
  host : String
  host_id : isAccountId host
  collectSdk : Nat → Except String SdkCollection
  runQuery : Nat → Except String (List Record × Bool)
  reachable : Nat → String → Bool
  exception : Nat → Statement → String

/-- A part of a run that stops at an exception. -/
abbrev Work (α : Type) := Attempt Statement Reply α

/-- Issue one statement of such a part. -/
abbrev send (c : Statement) : Work (Reply c) :=
  attempt c

/-- What a run has collected. -/
structure Collected where
  records : List Record
  failureCount : Nat
  unknownAttributeCount : Nat

def SdkCollection.collected (collection : SdkCollection) : Collected :=
  ⟨collection.records, collection.failureCount, collection.unknownAttributeCount⟩

/-- What a query has collected. After a fallback an attribute of every row is unknown. -/
def queried (rows : List Record) (fallback : Bool) : Collected :=
  ⟨rows, 0, if fallback then rows.length else 0⟩

/-- The records that are kept: of shared EBS snapshots only the owned ones. -/
def World.kept (world : World) (records : List Record) : List Record :=
  if world.resourceType = "ebs_snapshot" then records.filter Record.owned else records

def World.identities (world : World) (collected : Collected) : List (Key × String) :=
  Inventory.identities world.host (world.kept collected.records)

/-- `_enabled_target_accounts`, which SDK types do not need. -/
def expectedTargets (world : World) : Work (List String) :=
  if world.sdk then pure [] else send .targetAccounts

def collect (world : World) : Work Collected :=
  if world.sdk then do
    let collection ← send .collectSdk
    pure collection.collected
  else do
    let found ← send .runQuery
    pure (queried found.1 found.2)

/-- The loop over the identities. -/
def upsertAll (ids : List (Key × String)) : Work Unit :=
  Attempt.forEach (fun id => send (.upsertResource id.1 id.2)) ids

def accountReachable (accountId : String) : Work Bool :=
  if isAccountId accountId then send (.probe accountId) else pure false

/-- The accounts that are vouched for, and the unreachable ones. -/
structure Reached where
  present : List String
  unreachable : List String

/-- The account is present, or the verdict on it is noted. -/
def Reached.note (reached : Reached) (accountId : String) (reachable : Bool) : Reached :=
  if reachable then { reached with present := accountId :: reached.present }
  else { reached with unreachable := accountId :: reached.unreachable }

/-- The host, which SDK collectors vouch for. -/
def probeHost (world : World) (reached : Reached) : Work Reached :=
  if reached.present.contains "self" then pure reached
  else if world.sdk then pure (reached.note "self" true)
  else do
    let reachable ← accountReachable world.host
    pure (reached.note "self" reachable)

/-- The loop over the expected accounts. -/
def probeTargets : List String → Reached → Work Reached
  | [], reached => pure reached
  | accountId :: rest, reached =>
    if reached.present.contains accountId then probeTargets rest reached
    else do
      let reachable ← accountReachable accountId
      probeTargets rest (reached.note accountId reachable)

/-- The expected accounts, of which SDK types have none. -/
def probeExpected (world : World) (targets : List String) (reached : Reached) : Work Reached :=
  if world.sdk then pure reached else probeTargets targets reached

/-- The row is stale: its account is vouched for and did not return it. -/
def staleKey (present : List String) (seen : List Key) (key : Key) : Bool :=
  present.contains key.accountId && !seen.contains key

/-- The loop over the existing rows. -/
def deleteStale (present : List String) (seen : List Key) (existing : List Key) : Work Unit :=
  Attempt.forEach
    (fun key => if staleKey present seen key then send (.deleteResource key) else pure ()) existing

/-- Both phases of the prune. -/
def prune (world : World) (targets : List String) (seen : List Key) : Work Reached := do
  send .phase1Prune
  let hosted ← probeHost world ⟨seen.map Key.accountId, []⟩
  let reached ← probeExpected world targets hosted
  let existing ← send .listResources
  deleteStale reached.present seen existing
  pure reached

/-- The status that the accounts decide. -/
def Reached.status (reached : Reached) : Outcome :=
  if reached.unreachable = [] then .succeeded else .partially

/-- What the collection and the prune come to: the pending end of the run, and the accounts for
which snapshots are written. -/
structure Swept where
  pending : Pending
  present : List String
  ids : List (Key × String)

/-- The run from the running row to the prune. An SDK collection with failures prunes nothing. -/
def sweep (world : World) (token : Nat) : Work Swept := do
  send (.upsertRunning token)
  let targets ← expectedTargets world
  let collected ← collect world
  let ids := world.identities collected
  upsertAll ids
  if 0 < collected.failureCount then
    pure ⟨⟨.partially, some ids.length, none, collected.unknownAttributeCount⟩, [], ids⟩
  else do
    let reached ← prune world targets (ids.map Prod.fst)
    pure ⟨⟨reached.status, some ids.length, none, collected.unknownAttributeCount⟩,
      reached.present, ids⟩

/-- The daily snapshot rows of the accounts. The rows are not modelled. -/
def writeSnapshots (swept : Swept) : Work Unit :=
  Attempt.forEach
    (fun accountId => send (.writeSnapshot accountId
      (swept.ids.countP fun id => id.1.accountId = accountId)))
    swept.present.dedup

/-- The end of a run that raised. -/
def failedEnd (rowCount : Option Nat) (name : String) : Pending :=
  ⟨.failed, rowCount, some ("sync failed: " ++ name), 0⟩

/-- The work of a run that holds the lock, and its pending end. -/
def work (world : World) (token : Nat) : Program Statement Answer Pending := do
  match ← (sweep world token).run with
  | .error name => pure (failedEnd none name)
  | .ok swept =>
    match ← (writeSnapshots swept).run with
    | .error name => pure (failedEnd swept.pending.rowCount name)
    | .ok _ => pure swept.pending

/-- What a run returns. -/
inductive Result
  | busy
  | ended (pending : Pending)
  | failed (error : String)
  deriving DecidableEq

/-- A statement of the lifecycle. -/
def issue (c : Statement) : Program Statement Answer (Answer c) :=
  Program.command c

/-- The pending end of the run after the cleanup of the work connection. -/
def afterCleanup (pending : Pending) (unlocked closed : Except String Unit) : Pending :=
  match unlocked, closed with
  | .ok _, .ok _ => pending
  | _, _ => ⟨.failed, pending.rowCount, some "inventory sync cleanup failed", 0⟩

/-- What the run returns when it could not write its end. -/
def Pending.unwritten (pending : Pending) : Result :=
  match pending.status, pending.error with
  | .failed, some error => .failed error
  | _, _ => .failed "inventory sync failed"

/-- The end of a run that held the lock: unlock, close, and write the end. -/
def finish (token : Nat) (pending : Pending) : Program Statement Answer Result := do
  let unlocked ← issue .unlock
  let closed ← issue .close
  let final := afterCleanup pending unlocked closed
  match ← issue (.finalize token final) with
  | .ok true => pure (.ended final)
  | .ok false => pure (.failed "inventory sync superseded")
  | .error _ => pure final.unwritten

/-- The end of a run that did not get the lock. -/
def leave (result : Result) : Program Statement Answer Result := do
  match ← issue .close with
  | .ok _ => pure result
  | .error _ => pure (.failed "inventory sync cleanup failed")

def sync (world : World) : Program Statement Answer Result := do
  match ← issue .newRunToken with
  | .error _ => pure (.failed "inventory sync failed")
  | .ok token =>
    match ← issue .aurora with
    | .error _ => pure (.failed "inventory sync failed")
    | .ok _ =>
      match ← issue .tryLock with
      | .error _ => leave (.failed "inventory sync failed")
      | .ok false => leave .busy
      | .ok true => do
          let pending ← work world token
          finish token pending

/-! ## The server -/

/-- The row that the running upsert leaves. The last success stays. -/
def runningRow (ledger : Option SyncRow) (token now : Nat) : SyncRow :=
  ⟨.running, token, now, none, none, none, none, ledger.bind SyncRow.lastSuccessAt,
    ledger.bind SyncRow.lastSuccessRowCount⟩

/-- The row that the final update leaves. -/
def SyncRow.finalize (row : SyncRow) (pending : Pending) (now : Nat) : SyncRow :=
  match pending.status with
  | .succeeded =>
    { row with
      status := .terminal .succeeded, finishedAt := some now, rowCount := pending.rowCount, error := none
      unknownAttributeCount := some pending.unknownAttributeCount, lastSuccessAt := some now
      lastSuccessRowCount := pending.rowCount }
  | .partially =>
    { row with
      status := .terminal .partially, finishedAt := some now, rowCount := pending.rowCount, error := none
      unknownAttributeCount := some pending.unknownAttributeCount }
  | .failed =>
    { row with
      status := .terminal .failed, finishedAt := some now, rowCount := pending.rowCount
      error := pending.error }

/-- The final update, guarded by the token, and whether it found the row. -/
def Tables.finalize (t : Tables) (i token : Nat) (pending : Pending) : Bool × Tables :=
  match t.ledger with
  | some row =>
    if row.runToken = token then
      (true, { t with
        ledger := some (row.finalize pending t.clock)
        history := .ended i pending.status :: t.history })
    else (false, t)
  | none => (false, t)

/-- The session of run `i` no longer holds the lock. -/
def Tables.releaseLock (t : Tables) (i : Nat) : Tables :=
  { t with lock := if t.lock = some i then none else t.lock }

/-- `pg_try_advisory_lock`. -/
def Tables.tryLock (t : Tables) (i : Nat) : Bool × Tables :=
  if t.lock = none ∨ t.lock = some i then
    (true, { t with lock := some i, history := .acquired i :: t.history })
  else (false, t)

/-- The server executes a statement of run `i`. A fresh token is the number of the run. -/
def perform (world : World) (i : Nat) : (c : Statement) → Tables → Answer c × Tables
  | .newRunToken, t => (.ok i, t)
  | .aurora, t => (.ok (), t)
  | .tryLock, t => (.ok (t.tryLock i).1, (t.tryLock i).2)
  | .upsertRunning token, t =>
    (.ok (), { t with
      ledger := some (runningRow t.ledger token t.clock), history := .began i :: t.history })
  | .targetAccounts, t =>
    (.ok (t.registry.scope.filter fun id => id ≠ "self" && id ≠ world.host), t)
  | .collectSdk, t => (world.collectSdk i, t)
  | .runQuery, t => (world.runQuery i, t)
  | .upsertResource key data, t =>
    (.ok (), { t with
      resources := t.resources.insert key data, history := .wrote i :: t.history })
  | .phase1Prune, t =>
    (.ok (), { t with
      resources := phase1Prune t.registry t.resources, history := .wrote i :: t.history })
  | .probe accountId, t => (.ok (world.reachable i accountId), t)
  | .listResources, t => (.ok t.resources.keys, t)
  | .deleteResource key, t =>
    (.ok (), { t with resources := t.resources.erase key, history := .wrote i :: t.history })
  | .writeSnapshot .., t => (.ok (), t)
  | .unlock, t => (.ok (), { t.releaseLock i with history := .released i :: t.history })
  | .close, t => (.ok (), t)
  | .finalize token pending, t =>
    (.ok (t.finalize i token pending).1, (t.finalize i token pending).2)

/-- The session of a run: usable, about to be lost with the answer to its next statement, about to
leave its next statement behind, left by the run, or ended. -/
inductive Session
  | alive | dropping | detaching | left | lost
  deriving DecidableEq

/-- The tables, the session of each run, and the statement that it left behind. -/
structure Server where
  tables : Tables
  session : Nat → Session
  inflight : Nat → Option Statement

/-- The session of run `i` ends. -/
def Server.lose (s : Server) (i : Nat) : Server :=
  ⟨s.tables.releaseLock i, Function.update s.session i .lost, Function.update s.inflight i none⟩

/-- Run `i` sends a statement over its work connection. -/
def execWork (world : World) (i : Nat) (c : Statement) (s : Server) : Option (Answer c × Server) :=
  match s.session i with
  | .alive => some ((perform world i c s.tables).1, { s with tables := (perform world i c s.tables).2 })
  | .dropping =>
    some (.error (world.exception i c),
      Server.lose { s with tables := (perform world i c s.tables).2 } i)
  | .detaching =>
    some (.error (world.exception i c),
      { s with
        session := Function.update s.session i .left
        inflight := Function.update s.inflight i (some c) })
  | .left | .lost => none

/-- The run opens its work connection. -/
def Server.open (s : Server) (i : Nat) : Server :=
  { s with session := Function.update s.session i .alive, inflight := Function.update s.inflight i none }

/-- Run `i` executes a statement. -/
def exec (world : World) (i : Nat) (c : Statement) (s : Server) : Option (Answer c × Server) :=
  if c.onWork then execWork world i c s
  else
    match c with
    | .aurora => some (.ok (), s.open i)
    | .close => some (.ok (), if s.session i = .left then s else s.lose i)
    | c => some ((perform world i c s.tables).1, { s with tables := (perform world i c s.tables).2 })

/-- The answer that a run goes on with when a statement raises. A probe that raises says no. -/
def caught (world : World) (i : Nat) : (c : Statement) → Answer c
  | .probe _ => .ok false
  | c => .error (world.exception i c)

/-- What happens outside the runs: a session ends, the next statement of a session loses its answer
or is left behind, the server gets to a statement that was left behind, time passes, and the
registry changes. -/
inductive Outage
  | lose (i : Nat) | drop (i : Nat) | detach (i : Nat) | deliver (i : Nat) | tick (n : Nat)
  | register (registry : Registry)

/-- The server after an event outside the runs. -/
def Server.suffer (world : World) (s : Server) : Outage → Server
  | .lose i => s.lose i
  | .drop i =>
    if s.session i = .alive then { s with session := Function.update s.session i .dropping } else s
  | .detach i =>
    if s.session i = .alive then { s with session := Function.update s.session i .detaching } else s
  | .deliver i =>
    match s.inflight i with
    | some c =>
      { s with
        tables := (perform world i c s.tables).2
        inflight := Function.update s.inflight i none }
    | none => s
  | .tick n => { s with tables := { s.tables with clock := s.tables.clock + n } }
  | .register registry => { s with tables := { s.tables with registry := registry } }

/-- The runs on the server. The death of a run leaves its session to the server. -/
def machine (world : World) : Machine Statement Answer Server Unit Outage Result where
  worker _ := sync world
  exec := exec world
  caught i c _ := some (caught world i c)
  abort _ s := s
  environment event s := s.suffer world event

end AwsOps.Inventory

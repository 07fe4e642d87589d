import AwsOps.Foundation.Json
import AwsOps.Foundation.Session
import AwsOps.Foundation.Timeline
import AwsOps.SgRules.Source

/-!
# The tables of the rule scan

The rows that the daily scan reads and writes for one account and region and its flow source. A
table with a primary key is a function of that key, the append-only tables are lists in insertion
order, and the versions of the rules are a timeline. Instants are microseconds and days are day
numbers, both since the epoch. The store also remembers what the scans saw and which versions
they attributed days to; no statement reads those two lists.
-/

namespace AwsOps.SgRules

open List AwsOps.Timeline

/-- One rule as `DescribeSecurityGroupRules` returns it. -/
structure RuleSnapshot where
  ruleId : String
  groupId : String
  isEgress : Bool
  protocol : String
  fromPort : Option Int
  toPort : Option Int
  peerKind : Option String
  peerValue : String
  description : Option String
  deriving DecidableEq

/-- A row of `sg_rule_inventory`. -/
structure InventoryRow where
  rule : RuleSnapshot
  fingerprint : String
  firstSeenAt : Int
  lastSeenAt : Int
  active : Bool
  vpcId : Option String
  deriving DecidableEq

/-- The shape that a row of `sg_rule_inventory_versions` records. -/
structure VersionShape where
  fingerprint : String
  groupId : String
  isEgress : Bool
  protocol : String
  fromPort : Option Int
  toPort : Option Int
  peerKind : String
  peerValue : String
  deriving DecidableEq

/-- A row of `sg_rule_inventory_versions`: its `valid_from` and `valid_to` are the epoch. -/
abbrev VersionRow := Epoch String Int VersionShape

/-- The interfaces of one snapshot with their groups and addresses. -/
structure Membership where
  vpcId : String
  eniId : String
  groupIds : List String
  privateIps : List String
  deriving DecidableEq

/-- A row of `sg_eni_membership_snapshots`. -/
structure EniSnapshotRow where
  observedAt : Int
  membership : Membership
  deriving DecidableEq

inductive RuleDayStatus where
  | notConfigured
  | unassessable
  | overlapping
  | observedCompatible
  | noObservedEvidence
  deriving DecidableEq

/-- The `coverage` of a row of `sg_rule_activity_daily`. -/
structure DayCoverageFlags where
  unassessable : Bool
  fingerprintEpochCrossing : Bool
  matchUnassessable : Bool
  status : RuleDayStatus
  flowResultTruncated : Bool
  eniSnapshotTruncated : Bool
  unresolvedFlowCount : Nat
  skipdataCount : Option Int
  deriving DecidableEq

/-- A row of `sg_rule_activity_daily`. -/
structure ActivityRow where
  ruleFingerprint : String
  compatibleMatchCount : Int
  compatibleBytes : Int
  overlapMatchCount : Int
  uniqueEniCount : Nat
  lastObservedAt : Option Int
  coverage : DayCoverageFlags
  deriving DecidableEq

/-- How a recorded scan of a day ended. A succeeded one carries the `started_at` that the scan
passed; a failed one is stamped by the clock of the database, which nothing reads. -/
inductive ScanOutcome where
  | succeeded (startedAt : Int) (fingerprintEpochCrossingAny : Bool) (unresolvedFlowCount : Nat)
  | failed (reason errorCode : String)
  deriving DecidableEq

/-- A row of `sg_rule_scan_runs`. -/
structure ScanRunRow where
  outcome : ScanOutcome
  partitionStart : Int
  partitionEnd : Int
  rowsProcessed : Nat
  deriving DecidableEq

/-- When the scan of the day started, if it succeeded. -/
def ScanRunRow.succeededAt (row : ScanRunRow) : Option Int :=
  match row.outcome with
  | .succeeded startedAt _ _ => some startedAt
  | .failed _ _ => none

/-- The row of `sg_flow_sources`, as far as a scan reads it itself. -/
structure FlowSource where
  enabled : Bool
  validation : Validation
  createdDay : Int
  deriving DecidableEq

/-- What a scan saw: a rule with a fingerprint, or, once it had been through the whole snapshot,
the absence of every rule outside the snapshot. -/
inductive Sighting where
  | saw (instant : Int) (ruleId fingerprint : String)
  | missed (instant : Int) (seen : List String)
  deriving DecidableEq

/-- A day that a scan attributed to one version of a rule. -/
structure Attribution where
  day : Int
  ruleId : String
  validFrom : Int
  fingerprint : String
  deriving DecidableEq

/-- The tables, and what is remembered about the scans. -/
structure Store where
  source : Option FlowSource
  inventory : String → Option InventoryRow
  versions : List VersionRow
  eniSnapshots : List EniSnapshotRow
  activity : String → Int → Option ActivityRow
  scanRuns : List ScanRunRow
  sightings : List Sighting
  attributions : List Attribution

/-- The tables before the first scan. -/
def Store.empty : Store where
  source := none
  inventory _ := none
  versions := []
  eniSnapshots := []
  activity _ _ := none
  scanRuns := []
  sightings := []
  attributions := []

/-- Some scan saw the rule with the fingerprint at the instant. -/
def Saw (log : List Sighting) (instant : Int) (ruleId fingerprint : String) : Prop :=
  .saw instant ruleId fingerprint ∈ log

/-- Some scan found out about the rule at the instant: it saw the rule or missed it. -/
def Observed (log : List Sighting) (instant : Int) (ruleId : String) : Prop :=
  (∃ fingerprint, Saw log instant ruleId fingerprint) ∨
    ∃ seen, .missed instant seen ∈ log ∧ ruleId ∉ seen

/-- A scan at the instant went through its whole snapshot. -/
def ScanCompleted (log : List Sighting) (instant : Int) : Prop :=
  ∃ seen, .missed instant seen ∈ log ∧
    ∀ ruleId ∈ seen, ∃ fingerprint, Saw log instant ruleId fingerprint

def Sighting.instant : Sighting → Int
  | .saw instant _ _ => instant
  | .missed instant _ => instant

variable {log : List Sighting} {instant : Int}

theorem ScanCompleted.observed (h : ScanCompleted log instant)
    (ruleId : String) : Observed log instant ruleId := by
  obtain ⟨seen, hmissed, hseen⟩ := h
  by_cases hmem : ruleId ∈ seen
  · exact .inl (hseen ruleId hmem)
  · exact .inr ⟨seen, hmissed, hmem⟩

theorem Saw.append {ruleId fingerprint : String} (h : Saw log instant ruleId fingerprint)
    (more : List Sighting) :
    Saw (log ++ more) instant ruleId fingerprint :=
  mem_append_left _ h

theorem ScanCompleted.append (h : ScanCompleted log instant)
    (more : List Sighting) : ScanCompleted (log ++ more) instant := by
  obtain ⟨seen, hmissed, hseen⟩ := h
  refine ⟨seen, mem_append_left _ hmissed, fun ruleId hmem => ?_⟩
  obtain ⟨fingerprint, hsaw⟩ := hseen ruleId hmem
  exact ⟨fingerprint, hsaw.append more⟩

theorem observed_append_saw {now : Int} {ruleId other fingerprint : String} :
    Observed (log ++ [.saw now ruleId fingerprint]) instant other ↔
      Observed log instant other ∨ (instant = now ∧ other = ruleId) := by
  simp only [Observed, Saw, mem_append, mem_singleton, Sighting.saw.injEq, reduceCtorEq, or_false]
  constructor
  · rintro (⟨fp, hsaw | ⟨rfl, rfl, -⟩⟩ | hmissed)
    · exact .inl (.inl ⟨fp, hsaw⟩)
    · exact .inr ⟨rfl, rfl⟩
    · exact .inl (.inr hmissed)
  · rintro ((⟨fp, hsaw⟩ | hmissed) | ⟨rfl, rfl⟩)
    · exact .inl ⟨fp, .inl hsaw⟩
    · exact .inr hmissed
    · exact .inl ⟨fingerprint, .inr ⟨rfl, rfl, rfl⟩⟩

theorem observed_append_missed {now : Int} {seen : List String} {ruleId : String} :
    Observed (log ++ [.missed now seen]) instant ruleId ↔
      Observed log instant ruleId ∨ (instant = now ∧ ruleId ∉ seen) := by
  simp only [Observed, Saw, mem_append, mem_singleton, Sighting.missed.injEq,
    reduceCtorEq, or_false]
  constructor
  · rintro (hsaw | ⟨other, hmissed | ⟨rfl, rfl⟩, hnot⟩)
    · exact .inl (.inl hsaw)
    · exact .inl (.inr ⟨other, hmissed, hnot⟩)
    · exact .inr ⟨rfl, hnot⟩
  · rintro ((hsaw | ⟨other, hmissed, hnot⟩) | ⟨rfl, hnot⟩)
    · exact .inl hsaw
    · exact .inr ⟨other, .inl hmissed, hnot⟩
    · exact .inr ⟨seen, .inr ⟨rfl, rfl⟩, hnot⟩

end AwsOps.SgRules

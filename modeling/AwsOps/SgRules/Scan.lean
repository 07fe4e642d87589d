import AwsOps.SgRules.Matching
import AwsOps.SgRules.Versions
import Mathlib.Data.List.Sort

/-!
# The daily scan

`run` as one session: it loads the source, records the snapshot of the rules and of the interfaces,
and then scans the next day and the trailing window. What the cloud and the broker answer is the
input of a run, and `none` or an error among the answers is a call that raised. `processDay`
matches the flows of one day in memory and commits the rows in one transaction.
-/

namespace AwsOps.SgRules

open AwsOps.Text AwsOps.Timeline AwsOps.Session AwsOps.Calendar

/-- The account and region of the source, the settings of the deployment, and the Unicode database
and the hash of the Python runtime. -/
structure Config where
  accountId : String
  region : String
  hostAccountId : String
  deliveryLagHours : Nat
  membershipStalenessDays : Int
  rescanWindowDays : Int
  U : Unicode
  sha256 : String → String

section Snapshot

/-- A security group rule as EC2 describes it. -/
structure DescribedRule where
  securityGroupRuleId : String
  groupId : String
  isEgress : Bool
  ipProtocol : Option String
  fromPort : Option Int
  toPort : Option Int
  cidrIpv4 : Option String
  cidrIpv6 : Option String
  referencedGroup : Option String
  prefixListId : Option String
  description : Option String
  deriving DecidableEq

def nonEmpty (text : Option String) : Option String :=
  text.filter (· ≠ "")

/-- The kind and the value of the peer of a described rule. -/
def DescribedRule.peer (r : DescribedRule) : Option String × Option String :=
  match nonEmpty r.cidrIpv4, nonEmpty r.cidrIpv6, r.referencedGroup, nonEmpty r.prefixListId with
  | some cidr, _, _, _ => (some "cidr", some cidr)
  | none, some cidr, _, _ => (some "cidr", some cidr)
  | none, none, some group, _ => (some "sg", some group)
  | none, none, none, some prefixList => (some "pl", some prefixList)
  | none, none, none, none => (none, none)

def snapshotRulesViaDescribe (pages : List (List DescribedRule)) : List RuleSnapshot :=
  pages.flatten.map fun r =>
    { ruleId := r.securityGroupRuleId
      groupId := r.groupId
      isEgress := r.isEgress
      protocol := if r.ipProtocol = some "-1" then "all" else protoName (strOf r.ipProtocol)
      fromPort := r.fromPort
      toPort := r.toPort
      peerKind := r.peer.1
      peerValue := r.peer.2.getD ""
      description := r.description }

/-- The number of interfaces at which the snapshot stops. -/
def eniLimit : Nat := 20000

/-- The memberships of the described pages after some, and whether the limit cut them off. -/
def takeEniPages : Nat → List (List Membership) → List Membership × Bool
  | _, [] => ([], false)
  | _, [page] => (page, false)
  | count, page :: rest =>
    if eniLimit ≤ count + page.length then (page, true)
    else
      let (memberships, truncated) := takeEniPages (count + page.length) rest
      (page ++ memberships, truncated)

def snapshotEniMembershipViaDescribe (pages : List (List Membership)) : List Membership × Bool :=
  takeEniPages 0 pages

/-- The VPC of each group that some interface carries, the first interface first. -/
def groupVpcMapFromMemberships (memberships : List Membership) : List (String × String) :=
  (memberships.filter (·.vpcId ≠ "")).flatMap fun m => m.groupIds.map fun groupId => (groupId, m.vpcId)

/-- `INSERT INTO sg_eni_membership_snapshots … ON CONFLICT DO NOTHING`. -/
def insertEniSnapshot (now : Int) (membership : Membership) (s : Store) : Except String Store :=
  if s.eniSnapshots.any fun row =>
      row.observedAt == now && row.membership.eniId == membership.eniId then .ok s
  else .ok { s with eniSnapshots := s.eniSnapshots ++ [⟨now, membership⟩] }

/-- Record the memberships of a scan. -/
def writeEniSnapshot (memberships : List Membership) (now : Int) : Session Store Unit := do
  let _ ← forEach (fun membership => exec (insertEniSnapshot now membership)) memberships

end Snapshot

section Reading

/-- The rows grouped by a key, both in the order of first appearance. -/
def groupRows {α : Type} (key : α → String) (rows : List α) : List (String × List α) :=
  (rows.map key).eraseDups.map fun k => (k, rows.filter fun row => key row == k)

/-- The versions of each rule, by `ORDER BY rule_id, valid_from`. -/
def loadRuleVersions (s : Store) : List (String × List VersionRow) :=
  groupRows (·.key) (s.versions.insertionSort fun v w =>
    v.key < w.key ∨ (v.key = w.key ∧ v.opened ≤ w.opened))

/-- The memberships of each VPC that hold for a day, and the VPCs whose snapshot is stale. -/
def loadMembershipByVpc (day stalenessDays : Int) (s : Store) :
    List (String × List Membership) × List String :=
  let earliestSnapshotAt := (s.eniSnapshots.map (·.observedAt)).min?
  let byVpc : List (String × List EniSnapshotRow) :=
    groupRows (fun row => row.membership.vpcId) s.eniSnapshots
  let chosen : List (String × List Membership × SnapshotOutcome) :=
    byVpc.filterMap fun (vpcId, rows) =>
      let times := rows.map (·.observedAt)
      (resolveMembershipSnapshot times day stalenessDays earliestSnapshotAt).map
        fun (observedAt, outcome) =>
          (vpcId, (rows.filter (·.observedAt = observedAt)).map (·.membership), outcome)
  (chosen.map fun (vpcId, memberships, _) => (vpcId, memberships),
    (chosen.filter fun (_, _, outcome) => outcome == .stale).map (·.1))

/-- `SELECT max(partition_start::date) … WHERE status='succeeded'`. -/
def lastCommittedDay (s : Store) : Option Int :=
  ((s.scanRuns.filter (·.succeededAt.isSome)).map fun row => dayOf row.partitionStart).max?

/-- The time since the last succeeded scan that started before an instant. -/
def previousSuccessfulScanGap (before : Int) (s : Store) : Option Int :=
  ((s.scanRuns.filterMap (·.succeededAt)).filter (· < before)).max?.map fun prev => before - prev

/-- The resolver of a run. Its memo is left out: the rows that a run adds start at the run's own
`now`, and no version was closed after that, so a second lookup gives what the first gave. -/
def boundaryLagResolver (validTo : Int) : Session Store (Option Int) :=
  query (previousSuccessfulScanGap validTo)

end Reading

section ProcessDay

/-- An aggregated row of a day's query. -/
structure Flow where
  interfaceId : Option String
  srcaddr : Option String
  dstaddr : Option String
  dstport : Option String
  protocol : Option String
  bytes : Option String
  cnt : Option String
  lastStart : Option String
  deriving DecidableEq

/-- What a day has counted for a rule so far. `unassessable` is the epoch crossing of the day. -/
structure RuleDay where
  compatible : Int
  overlap : Int
  bytes : Int
  unassessable : Bool
  matchUnassessable : Bool
  version : Option VersionRow
  lastObservedAt : Option Int
  eniIds : List String
  deriving DecidableEq

/-- The counters of a rule before the first flow. -/
def RuleDay.start (coverage : DayCoverage) : RuleDay where
  compatible := 0
  overlap := 0
  bytes := 0
  unassessable :=
    match coverage with
    | .crossing _ => true
    | .covered _ => false
  matchUnassessable := false
  version :=
    match coverage with
    | .crossing _ => none
    | .covered version => some version
  lastObservedAt := none
  eniIds := []

/-- An interface as the flows of a day see it. -/
structure EniEntry where
  groupIds : List String
  privateIps : List String
  vpcId : String
  stale : Bool
  deriving DecidableEq

/-- The interface of an id. A later entry replaces an earlier one. -/
def eniIndex (membershipsByVpc : List (String × List Membership)) (staleVpcs : List String)
    (eniId : String) : Option EniEntry :=
  let entries := membershipsByVpc.flatMap fun (vpcId, snap) =>
    (snap.filter (·.eniId ≠ "")).map fun m =>
      (m.eniId, (⟨m.groupIds, m.privateIps, vpcId, staleVpcs.contains vpcId⟩ : EniEntry))
  entries.reverse.lookup eniId

/-- The addresses of a referenced group as seen from a VPC: those in its scope, `none` when the
group is nowhere or only outside the scope. -/
def sgResolverFactory (membershipsByVpc : List (String × List Membership))
    (peeredOrShared : String → List String) (vpcId : String) : Option Resolver :=
  let inScope (otherVpc : String) : Bool := eniMatchesVpcScope vpcId otherVpc (peeredOrShared vpcId)
  if membershipsByVpc.any fun (otherVpc, _) => otherVpc == vpcId || inScope otherVpc then
    some fun groupId =>
      let carriers := membershipsByVpc.flatMap fun (otherVpc, snap) =>
        (snap.filter (·.groupIds.contains groupId)).map fun m => (otherVpc, m.privateIps)
      let inScopeIps := (carriers.filter fun (otherVpc, _) => inScope otherVpc).flatMap (·.2)
      if carriers.isEmpty then none
      else if inScopeIps.isEmpty && carriers.any fun (otherVpc, _) => !inScope otherVpc then none
      else some inScopeIps
  else none

/-- `int(value)`, which raises on a text that is no number. -/
def intOrRaise (U : Unicode) (text : String) : Except String Int :=
  match int U text.toList with
  | some n => .ok n
  | none => .error ("invalid literal for int() with base 10: " ++ reprPlain text)

/-- `int(value or default)`. -/
def intOr (U : Unicode) (default : Int) (value : Option String) : Except String Int :=
  match nonEmpty value with
  | some text => intOrRaise U text
  | none => .ok default

/-- The instant of `last_start`. A text that is no number and a year that a date cannot hold give
none, and a time that the platform cannot break down raises. -/
def lastStartOf (U : Unicode) (value : Option String) : Except String (Option Int) :=
  match (nonEmpty value).bind fun text => int U text.toList with
  | none => .ok none
  | some seconds =>
    if seconds < -67768040609740800 ∨ 67768036191676799 < seconds then
      .error "timestamp out of range for platform time_t"
    else if seconds < -62135596800 ∨ 253402300799 < seconds then .ok none
    else .ok (some (seconds * 1000000))

/-- A flow whose numbers have been read. -/
structure ReadFlow where
  port : Option Int
  bytes : Int
  cnt : Int
  lastStart : Option Int
  deriving DecidableEq

def readFlow (U : Unicode) (flow : Flow) : Except String ReadFlow := do
  let port ← match nonEmpty flow.dstport with
    | some text => (intOrRaise U text).map some
    | none => .ok none
  let bytes ← intOr U 0 flow.bytes
  let cnt ← intOr U 1 flow.cnt
  pure ⟨port, bytes, cnt, ← lastStartOf U flow.lastStart⟩

/-- A flow at its interface: the interface, the direction and the peer. -/
structure OrientedFlow where
  interfaceId : String
  eni : EniEntry
  direction : Direction
  peerIp : String
  deriving DecidableEq

/-- Find the interface of a flow and which end of it is local, `none` when that cannot be told. -/
def orientFlow (index : String → Option EniEntry) (flow : Flow) : Option OrientedFlow := do
  let dst ← nonEmpty flow.dstaddr
  let src ← nonEmpty flow.srcaddr
  let interfaceId ← nonEmpty flow.interfaceId
  let eni ← index interfaceId
  if eni.groupIds.isEmpty then none
  else if eni.privateIps.contains src then some ⟨interfaceId, eni, .egress, dst⟩
  else if eni.privateIps.contains dst then some ⟨interfaceId, eni, .ingress, src⟩
  else none

/-- The outcome of an oriented flow for a rule of the day, `none` when the rule is not a candidate
for the flow. -/
def ruleOutcome (oriented : OrientedFlow) (port : Option Int) (protocol : Option String)
    (resolver : Option Resolver) (cov : RuleDay) : Option MatchOutcome :=
  if cov.unassessable then none
  else
    cov.version.bind fun version =>
      if oriented.eni.groupIds.contains version.value.groupId then
        some (matchFlowAgainstRule version.value
          ⟨oriented.peerIp, port, protocol, some oriented.direction⟩ resolver none)
      else none

def RuleDay.credit (cov : RuleDay) (interfaceId : String) (flow : ReadFlow) (isOverlap : Bool) :
    RuleDay :=
  { cov with
    compatible := cov.compatible + flow.cnt
    bytes := cov.bytes + flow.bytes
    eniIds := cov.eniIds.insert interfaceId
    overlap := if isOverlap then cov.overlap + flow.cnt else cov.overlap
    lastObservedAt :=
      match flow.lastStart, cov.lastObservedAt with
      | none, last => last
      | some start, none => some start
      | some start, some last => some (if last < start then start else last) }

/-- The counters of a day: those of each rule, and the number of unresolved flows. -/
structure DayCounters where
  perRule : List (String × RuleDay)
  unresolvedFlowCount : Nat
  deriving DecidableEq

/-- Count one flow. The matched rules are credited one by one and each only once, so their order
does not matter. -/
def countFlow (U : Unicode) (membershipsByVpc : List (String × List Membership))
    (staleVpcs : List String) (peeredOrShared : String → List String) (counters : DayCounters)
    (flow : Flow) : Except String DayCounters := do
  let read ← readFlow U flow
  match orientFlow (eniIndex membershipsByVpc staleVpcs) flow with
  | none => pure { counters with unresolvedFlowCount := counters.unresolvedFlowCount + 1 }
  | some oriented =>
    let resolver := sgResolverFactory membershipsByVpc peeredOrShared oriented.eni.vpcId
    let outcome (cov : RuleDay) : Option MatchOutcome :=
      ruleOutcome oriented read.port flow.protocol resolver cov
    let credited (cov : RuleDay) : Bool := outcome cov == some .matched && !oriented.eni.stale
    let undecided (cov : RuleDay) : Bool :=
      outcome cov == some .unassessable || (outcome cov == some .matched && oriented.eni.stale)
    let isOverlap : Bool := 1 < (counters.perRule.filter fun (_, cov) => credited cov).length
    pure { counters with
      perRule := counters.perRule.map fun (ruleId, cov) =>
        if credited cov then (ruleId, cov.credit oriented.interfaceId read isOverlap)
        else if undecided cov then (ruleId, { cov with matchUnassessable := true })
        else (ruleId, cov) }

/-- What the broker and the snapshot say about the completeness of a day. -/
structure CoverageFlags where
  flowResultTruncated : Bool
  eniSnapshotTruncated : Bool
  skipdataCount : Option Int
  deriving DecidableEq

def activityRow (counters : DayCounters) (flags : CoverageFlags) (versions : List VersionRow)
    (cov : RuleDay) : ActivityRow :=
  let dayTruncated : Bool := flags.flowResultTruncated || flags.eniSnapshotTruncated ||
    0 < counters.unresolvedFlowCount
  -- a crossing day shows the latest fingerprint for reference only
  let fingerprint := (cov.version.or versions.getLast?).map (·.value.fingerprint)
  let classified := classifyRuleDay cov.compatible cov.overlap true
    (cov.unassessable || cov.matchUnassessable)
  let status : RuleDayStatus :=
    if dayTruncated && classified == .noObservedEvidence then .unassessable else classified
  { ruleFingerprint := fingerprint.getD ""
    compatibleMatchCount := cov.compatible
    compatibleBytes := cov.bytes
    overlapMatchCount := cov.overlap
    uniqueEniCount := cov.eniIds.length
    lastObservedAt := cov.lastObservedAt
    coverage :=
      { unassessable := cov.unassessable || cov.matchUnassessable ||
          (dayTruncated && status == .unassessable && cov.compatible == 0)
        fingerprintEpochCrossing := cov.unassessable
        matchUnassessable := cov.matchUnassessable
        status := status
        flowResultTruncated := flags.flowResultTruncated
        eniSnapshotTruncated := flags.eniSnapshotTruncated
        unresolvedFlowCount := counters.unresolvedFlowCount
        skipdataCount := flags.skipdataCount } }

/-- `DELETE FROM sg_rule_activity_daily WHERE observed_on=:d`. -/
def deleteActivity (day : Int) (s : Store) : Except String Store :=
  .ok { s with activity := fun ruleId d => if d = day then none else s.activity ruleId d }

/-- `INSERT INTO sg_rule_activity_daily`, under the primary key of rule and day. -/
def insertActivity (day : Int) (ruleId : String) (row : ActivityRow) (s : Store) :
    Except String Store :=
  if (s.activity ruleId day).isSome then
    .error "duplicate key value violates unique constraint"
  else
    .ok { s with activity := fun r d =>
      if r = ruleId ∧ d = day then some row else s.activity r d }

/-- `INSERT INTO sg_rule_scan_runs`. -/
def insertScanRun (row : ScanRunRow) (s : Store) : Except String Store :=
  .ok { s with scanRuns := s.scanRuns ++ [row] }

def recordAttribution (day : Int) (ruleId : String) (version : VersionRow) (s : Store) : Store :=
  { s with attributions :=
      s.attributions ++ [⟨day, ruleId, version.opened, version.value.fingerprint⟩] }

/-- Find out whether one version of a rule holds over the day. -/
def coverRule (day : Int) (entry : String × List VersionRow) :
    Session Store (String × List VersionRow × DayCoverage) := do
  let coverage ← dayCoverage entry.2 day boundaryLagResolver
  match coverage with
  | .crossing reason => pure (entry.1, entry.2, .crossing reason)
  | .covered version => do
      note (recordAttribution day entry.1 version)
      pure (entry.1, entry.2, .covered version)

def startDay (covered : List (String × List VersionRow × DayCoverage)) : DayCounters where
  perRule := covered.map fun (ruleId, _, coverage) => (ruleId, RuleDay.start coverage)
  unresolvedFlowCount := 0

/-- Some rule crosses an epoch on the day. -/
def anyCrossing (covered : List (String × List VersionRow × DayCoverage)) : Bool :=
  covered.any fun (_, _, coverage) => (RuleDay.start coverage).unassessable

def activityRows (counters : DayCounters) (flags : CoverageFlags)
    (covered : List (String × List VersionRow × DayCoverage)) : List (String × ActivityRow) :=
  (counters.perRule.zip covered).map fun ((ruleId, cov), _, versions, _) =>
    (ruleId, activityRow counters flags versions cov)

def commitDay (day : Int) (rows : List (String × ActivityRow)) (scanRun : ScanRunRow) :
    Session Store Unit :=
  transaction (do
    exec (deleteActivity day)
    let _ ← forEach (fun entry => exec (insertActivity day entry.1 entry.2)) rows
    exec (insertScanRun scanRun))

/-- The result of a day. The random id of its scan is left out. -/
inductive DayResult where
  | processed (day : Int) (ruleCount : Nat) (anyCrossing : Bool)
  | failed (day : Int) (reason : Option String)
  deriving DecidableEq

/-- Match the flows of a day and commit the rows. -/
def processDay (U : Unicode) (day : Int) (flows : List Flow)
    (ruleVersionsById : List (String × List VersionRow))
    (membershipsByVpc : List (String × List Membership)) (staleVpcs : List String)
    (flags : CoverageFlags) (peeredOrShared : String → List String) (observedAt : Int) :
    Session Store DayResult := do
  let covered ← forEach (coverRule day) ruleVersionsById
  match flows.foldlM (countFlow U membershipsByVpc staleVpcs peeredOrShared) (startDay covered) with
  | .error e => raise e
  | .ok counters => do
      commitDay day (activityRows counters flags covered)
        { outcome := .succeeded observedAt (anyCrossing covered) counters.unresolvedFlowCount
          partitionStart := dayStart day
          partitionEnd := dayEnd day
          rowsProcessed := flows.length }
      pure (.processed day counters.perRule.length (anyCrossing covered))

end ProcessDay

section Run

/-- One answer of the broker to a query, parsed. -/
inductive BrokerReply where
  | invocationError (reason : String)
  | refused (reason : Option String)
  | page (rows : List Flow) (skipdataCount : Option Int) (done : Bool)
  deriving DecidableEq

/-- The rows of a day, or why there are none. -/
inductive BrokerResult where
  | failed (reason : Option String)
  | rows (rows : List Flow) (truncated : Bool) (skipdataCount : Option Int)
  deriving DecidableEq

/-- Follow the pages of a day's query. An error among the replies is an invocation that raised, and
so is the end of the replies. -/
def invokeBrokerQuery : List Flow → Option Int → List (Except String BrokerReply) →
    Except String BrokerResult
  | _, _, [] => .error "broker invocation failed"
  | _, _, .error e :: _ => .error e
  | _, _, .ok (.invocationError reason) :: _ => .ok (.failed (some reason))
  | _, _, .ok (.refused reason) :: _ => .ok (.failed reason)
  | rows, skipdataCount, .ok (.page more skipdata done) :: rest =>
    let rows := rows ++ more
    let skipdataCount := skipdata.or skipdataCount
    if rowLimit ≤ rows.length then .ok (.rows (rows.take rowLimit) true skipdataCount)
    else if done then .ok (.rows rows false skipdataCount)
    else invokeBrokerQuery rows skipdataCount rest

/-- What the cloud and the broker answer during one run. -/
structure RunInput where
  now : Int
  accountEnabled : Bool
  describedRules : Except String (List (List DescribedRule))
  describedEnis : Except String (List (List Membership))
  brokerArn : Option String
  revalidation : Except String (Except (Option String) Validation)
  brokerPages : Int → List (Except String BrokerReply)
  faults : Nat → Option String

inductive RunResult where
  | inventoryOnly (reason : String)
  | awaitingValidation (reason : String)
  | ok (days : List DayResult)
  deriving DecidableEq

/-- Raise the error of an answer. -/
def orRaise {α : Type} : Except String α → Session Store α
  | .ok a => pure a
  | .error e => raise e

/-- The source, if it may be scanned. -/
def loadSource (cfg : Config) : Session Store FlowSource := do
  let name := cfg.accountId ++ "/" ++ cfg.region
  match ← query (·.source) with
  | none => raise ("no sg_flow_sources row for " ++ name)
  | some source =>
    if !source.enabled then raise ("source " ++ name ++ " is disabled")
    else if [some "valid", some "pending"].contains source.validation.status then pure source
    else raise ("source " ++ name ++ " failed validation")

/-- Refuse to assume a role in an account that is not enabled. The host account assumes none. -/
def accountExternalId (cfg : Config) (x : RunInput) : Session Store Unit := do
  if cfg.accountId = cfg.hostAccountId then pure ()
  else if ← query (fun _ => x.accountEnabled) then pure ()
  else raise ("account_id " ++ reprPlain cfg.accountId ++ " is not a registered, enabled account" ++
    " in the accounts table — refusing to assume a role for an unregistered account")

/-- `UPDATE sg_flow_sources SET validation=:v`. -/
def updateValidation (validation : Validation) (s : Store) : Except String Store :=
  .ok { s with source := s.source.map fun source => { source with validation := validation } }

/-- `INSERT INTO sg_rule_scan_runs` of a failed day. -/
def writeFailedRun (U : Unicode) (day : Int) (reason : Option String) (errorCode : String) :
    Session Store Unit :=
  exec (insertScanRun
    { outcome := .failed
        (String.ofList ((redactSensitive U (reason.getD "")).toList.take 2000)) errorCode
      partitionStart := dayStart day
      partitionEnd := dayEnd day
      rowsProcessed := 0 })

/-- Scan one day of the list, unless it is too recent. -/
def scanDay (cfg : Config) (x : RunInput) (eniSnapshotTruncated : Bool)
    (ruleVersions : List (String × List VersionRow)) (day : Int) :
    Session Store (Option DayResult) := do
  if !isDayEligible day x.now cfg.deliveryLagHours then pure none
  else
    match ← orRaise (invokeBrokerQuery [] none (x.brokerPages day)) with
    | .failed reason => do
        writeFailedRun cfg.U day reason "athena_query_failed"
        pure (some (.failed day reason))
    | .rows flows truncated skipdataCount => do
        let memberships ← query (loadMembershipByVpc day cfg.membershipStalenessDays)
        catching
          (do
            let result ← processDay cfg.U day flows ruleVersions memberships.1 memberships.2
              ⟨truncated, eniSnapshotTruncated, skipdataCount⟩ (fun _ => []) x.now
            pure (some result))
          fun e => do
            writeFailedRun cfg.U day (some e) "process_day_failed"
            pure (some (.failed day (some e)))

/-- The days of a run: the next one if it is due, then the trailing window. -/
def daysToRun (cfg : Config) (now : Int) (watermark : Option Int) (sourceCreatedDay : Int) :
    List Int :=
  let next := nextDayToProcess watermark sourceCreatedDay
  (if isDayEligible next now cfg.deliveryLagHours then [next] else []) ++
    rescanWindowDays watermark cfg.rescanWindowDays

def scanDays (cfg : Config) (x : RunInput) (source : FlowSource) (eniSnapshotTruncated : Bool) :
    Session Store RunResult := do
  let watermark ← query lastCommittedDay
  let ruleVersions ← query loadRuleVersions
  let results ← forEach (scanDay cfg x eniSnapshotTruncated ruleVersions)
    (daysToRun cfg x.now watermark source.createdDay)
  pure (.ok (results.filterMap id))

/-- A run of the scan. -/
def run (cfg : Config) (x : RunInput) : Session Store RunResult := do
  let source ← loadSource cfg
  accountExternalId cfg x
  let rules := snapshotRulesViaDescribe (← orRaise x.describedRules)
  let (memberships, eniSnapshotTruncated) :=
    snapshotEniMembershipViaDescribe (← orRaise x.describedEnis)
  upsertInventoryAndVersions cfg.sha256 rules x.now (groupVpcMapFromMemberships memberships)
  writeEniSnapshot memberships x.now
  if (nonEmpty x.brokerArn).isNone then
    pure (.inventoryOnly "SG_RULE_ATHENA_BROKER_ARN not set (feature flag off)")
  else if source.validation.status ≠ some "valid" then
    pure (.awaitingValidation
      ("source validation.status=" ++ reprOf source.validation.status ++ " is not 'valid'"))
  else if source.validation.partitionKeyTypes.isNone || source.validation.scopeResolution.isNone then
    -- a validation that predates these two fields is checked again
    match ← orRaise x.revalidation with
    | .ok healed => do
        exec (updateValidation { healed with status := some "valid" })
        scanDays cfg x source eniSnapshotTruncated
    | .error reason => pure (.awaitingValidation
        ("stale validation predates partitionKeyTypes/scopeResolution and re-validation failed: " ++
          reprOf reason ++ " — refusing to scan on unconfirmed stale validation"))
  else scanDays cfg x source eniSnapshotTruncated

end Run

end AwsOps.SgRules

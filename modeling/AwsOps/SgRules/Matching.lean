import AwsOps.Foundation.IpAddress
import AwsOps.SgRules.Store

/-!
# Matching flows against rules

The functions of the matching engine that the daily scan calls: which version of a rule holds over
a whole day, which membership snapshot a day uses, whether a flow matches a rule, how the counters
of a day are classified, and which days a scan processes. `day_coverage_covered` says what a
confident day needs.
-/

namespace AwsOps.SgRules

open AwsOps.Text AwsOps.Timeline AwsOps.Calendar

/-- `PROTO_NAME.get(protocol, protocol)`. -/
def protoName (protocol : String) : String :=
  (([("6", "tcp"), ("17", "udp"), ("1", "icmp"), ("58", "icmpv6")] : List (String × String)).lookup
    protocol).getD protocol

section Redaction

/-- Replace the matches of a pattern, from the left and without overlap. `matchAt` gives the length
of the match at a position, after the previous character; the number counts the characters of the
current match that are still to be skipped. -/
def substitute (matchAt : Option Char → List Char → Nat) (replacement : List Char) :
    Nat → Option Char → List Char → List Char
  | _, _, [] => []
  | skip + 1, _, c :: rest => substitute matchAt replacement skip (some c) rest
  | 0, previous, c :: rest =>
    match matchAt previous (c :: rest) with
    | 0 => c :: substitute matchAt replacement 0 (some c) rest
    | n + 1 => replacement ++ substitute matchAt replacement n (some c) rest

/-- The rest after a non-empty run of characters of a class. -/
def afterRun (p : Char → Bool) (s : List Char) : Option (List Char) :=
  if (s.takeWhile p).isEmpty then none else some (s.dropWhile p)

/-- The rest after exactly `n` characters of a class. -/
def afterExactly (n : Nat) (p : Char → Bool) (s : List Char) : Option (List Char) :=
  if (s.take n).length = n ∧ (s.take n).all p then some (s.drop n) else none

/-- The rest after a literal text. -/
def afterText (text : String) (s : List Char) : Option (List Char) :=
  if text.toList.isPrefixOf s then some (s.drop text.toList.length) else none

/-- A letter, a digit or a hyphen, all ASCII. -/
def isNamePart (c : Char) : Bool :=
  c.isAlphanum || c == '-'

/-- A hexadecimal digit. -/
def isHex (c : Char) : Bool :=
  (IpAddress.hexDigit c).isSome

/-- A decimal digit of any script: `\d`. -/
def isDecimal (U : Unicode) (c : Char) : Bool :=
  (U.digit c).isSome

def arnLength (U : Unicode) (_ : Option Char) (s : List Char) : Nat :=
  let rest : Option (List Char) := do
    let partition ← afterText ":" ((← afterText "arn:aws" s).dropWhile isNamePart)
    let region ← afterText ":" (← afterRun isNamePart partition)
    let account ← afterText ":" (region.dropWhile isNamePart)
    let resource ← afterText ":" (← afterExactly 12 (isDecimal U) account)
    -- neither whitespace nor a quote
    afterRun (fun c => !isSpace c && c.toNat != 34 && c.toNat != 39) resource
  (rest.map fun rest => s.length - rest.length).getD 0

/-- The length of a UUID that stands between word boundaries. -/
def uuidLength (U : Unicode) (previous : Option Char) (s : List Char) : Nat :=
  let group (n : Nat) (s : List Char) : Option (List Char) := do
    afterText "-" (← afterExactly n isHex s)
  let rest : Option (List Char) := do
    afterExactly 12 isHex (← group 4 (← group 4 (← group 4 (← group 8 s))))
  match rest with
  | some rest => if previous.any (isWord U) || rest.head?.any (isWord U) then 0 else 36
  | none => 0

/-- The length of a run of twelve digits that no other digit touches. -/
def accountLength (U : Unicode) (previous : Option Char) (s : List Char) : Nat :=
  match afterExactly 12 (isDecimal U) s with
  | some rest => if previous.any (isDecimal U) || rest.head?.any (isDecimal U) then 0 else 12
  | none => 0

/-- Strip ARNs, query ids and account ids from a text. -/
def redactSensitive (U : Unicode) (text : String) : String :=
  let text := substitute (arnLength U) "<arn-redacted>".toList 0 none text.toList
  let text := substitute (uuidLength U) "<id-redacted>".toList 0 none text
  String.ofList (substitute (accountLength U) "<account-redacted>".toList 0 none text)

end Redaction

/-- The version whose interval contains the instant. -/
def versionCovering (versions : List VersionRow) (instant : Int) : Option VersionRow :=
  versions.find? (·.covers instant)

theorem version_covering_some {versions : List VersionRow} {instant : Int} {v : VersionRow}
    (h : versionCovering versions instant = some v) : v ∈ versions ∧ v.covers instant = true := by
  unfold versionCovering at h
  exact ⟨List.mem_of_find?_eq_some h, by simpa using List.find?_some h⟩

/-- Whether one version holds over a whole day. -/
inductive DayCoverage where
  | crossing (reason : Option String)
  | covered (version : VersionRow)
  deriving DecidableEq

/-- A day is covered when one version covers its first and its last instant, and that version was
not closed so soon after the day that the rule may have changed within it. `observationLag` gives
the time since the scan before the one that closed the version. -/
def dayCoverage {m : Type → Type} [Monad m] (versions : List VersionRow) (day : Int)
    (observationLag : Int → m (Option Int)) : m DayCoverage :=
  match versionCovering versions (dayStart day), versionCovering versions (dayEnd day - 1) with
  | some atStart, some atEnd =>
    if atStart.opened ≠ atEnd.opened then pure (.crossing none)
    else
      match atStart.closed with
      | none => pure (.covered atStart)
      | some validTo => do
          match ← observationLag validTo with
          | none => pure (.crossing (some "observation_lag_unknown"))
          | some lag =>
            if validTo - lag < dayEnd day then
              pure (.crossing (some "observation_lag_boundary"))
            else pure (.covered atStart)
  | _, _ => pure (.crossing none)

/-- How the membership snapshot of a day was chosen. -/
inductive SnapshotOutcome where
  | inWindow
  | stale
  | preSnapshottingBackfill
  deriving DecidableEq

/-- The snapshot of a day among the times of the snapshots, `none` when there is none: the nearest
one up to the end of the day, or the first one for a day before any. The age is compared exactly,
as is the quotient of the source for every number of days that a float tells apart. -/
def resolveMembershipSnapshot (times : List Int) (day stalenessDays : Int)
    (earliestSnapshotAt : Option Int) : Option (Int × SnapshotOutcome) := do
  let earliest ← times.min?
  if dayEnd day ≤ earliestSnapshotAt.getD earliest then
    pure (earliest, .preSnapshottingBackfill)
  else
    let nearest ← (times.filter fun time => decide (time ≤ dayEnd day)).max?
    if dayEnd day - nearest ≤ stalenessDays * dayMicros then pure (nearest, .inWindow)
    else pure (nearest, .stale)

/-- A security group may be referenced from its own VPC and the VPCs joined to it. -/
def eniMatchesVpcScope (targetVpcId eniVpcId : String) (peeredOrSharedVpcIds : List String) :
    Bool :=
  eniVpcId == targetVpcId || peeredOrSharedVpcIds.contains eniVpcId

/-- Whether a flow matches a rule. -/
inductive MatchOutcome where
  | matched
  | noMatch
  | unassessable
  deriving DecidableEq

/-- The traffic direction of a flow at its interface. -/
inductive Direction where
  | ingress
  | egress
  deriving DecidableEq

/-- The flow as it is compared with a rule. -/
structure FlowTuple where
  peerIp : String
  port : Option Int
  protocol : Option String
  direction : Option Direction
  deriving DecidableEq

/-- The addresses that a reference stands for, `none` when that cannot be told. -/
abbrev Resolver := String → Option (List String)

/-- The protocol and the port of the flow are those of the rule. -/
def matchProtocolPort (rule : VersionShape) (flow : FlowTuple) : Bool :=
  let portInRange : Bool :=
    match rule.fromPort with
    | none => true
    | some fromPort =>
      if fromPort = -1 then true
      else
        match flow.port with
        | none => false
        | some port => !(port < fromPort || rule.toPort.getD fromPort < port)
  if rule.protocol ≠ "all" && protoName (strOf flow.protocol) ≠ rule.protocol then false
  else portInRange

def matchPeer (rule : VersionShape) (peerIp : String) (sgPeerIpResolver : Option Resolver)
    (prefixListResolver : Option Resolver) : MatchOutcome :=
  let isV6 (addr : String) : Bool := addr.toList.contains ':'
  let decided (hit : Bool) : MatchOutcome := if hit then .matched else .noMatch
  if rule.peerKind = "cidr" then
    if isV6 rule.peerValue ≠ isV6 peerIp then .noMatch
    else if ["0.0.0.0/0", "::/0"].contains rule.peerValue then .matched
    else decided (IpAddress.inNetwork peerIp rule.peerValue)
  else if rule.peerKind = "sg" then
    match sgPeerIpResolver.bind fun resolve => resolve rule.peerValue with
    | none => .unassessable
    | some ips => decided (ips.contains peerIp)
  else if rule.peerKind = "pl" then
    match prefixListResolver.bind fun resolve => resolve rule.peerValue with
    | none => .unassessable
    | some entries => decided (entries.any (IpAddress.inNetwork peerIp))
  else .unassessable

/-- One flow against one rule. ICMP rules are not comparable with a port. -/
def matchFlowAgainstRule (rule : VersionShape) (flow : FlowTuple)
    (sgPeerIpResolver prefixListResolver : Option Resolver) : MatchOutcome :=
  if ["icmp", "icmpv6"].contains rule.protocol then .unassessable
  else if flow.direction.any fun direction => (direction == .egress) != rule.isEgress then .noMatch
  else if !matchProtocolPort rule flow then .noMatch
  else matchPeer rule flow.peerIp sgPeerIpResolver prefixListResolver

def classifyRuleDay (compatibleCount overlapCount : Int) (hasSource unassessable : Bool) :
    RuleDayStatus :=
  if !hasSource then .notConfigured
  else if unassessable && compatibleCount == 0 then .unassessable
  else if 0 < overlapCount then .overlapping
  else if 0 < compatibleCount then .observedCompatible
  else .noObservedEvidence

/-- The instant from which a day may be scanned. -/
def eligibleFrom (deliveryLagHours : Nat) (day : Int) : Int :=
  dayEnd day + deliveryLagHours * 3600000000

/-- The day has ended for longer than records take to arrive. -/
def isDayEligible (day now : Int) (deliveryLagHours : Nat) : Bool :=
  decide (eligibleFrom deliveryLagHours day ≤ now)

theorem day_end_le_of_eligible {day now : Int} {deliveryLagHours : Nat}
    (h : isDayEligible day now deliveryLagHours = true) : dayEnd day ≤ now := by
  have hfrom : eligibleFrom deliveryLagHours day ≤ now := of_decide_eq_true h
  unfold eligibleFrom at hfrom
  omega

/-- The day after the last committed one, or the first day of the source. -/
def nextDayToProcess (lastCommittedDay : Option Int) (sourceCreatedDay : Int) : Int :=
  match lastCommittedDay with
  | none => sourceCreatedDay
  | some last => last + 1

/-- The trailing days up to the last committed one, in ascending order. -/
def rescanWindowDays (lastCommittedDay : Option Int) (windowDays : Int) : List Int :=
  match lastCommittedDay with
  | none => []
  | some last => (List.range windowDays.toNat).map fun (i : Nat) => last - (windowDays - 1) + i

theorem mem_rescan_window_days {last windowDays day : Int} :
    day ∈ rescanWindowDays (some last) windowDays ↔ last - windowDays < day ∧ day ≤ last := by
  simp only [rescanWindowDays, List.mem_map, List.mem_range]
  constructor
  · rintro ⟨i, hi, rfl⟩
    omega
  · rintro ⟨hlow, hhigh⟩
    exact ⟨(day - (last - (windowDays - 1))).toNat, by omega, by omega⟩

end AwsOps.SgRules

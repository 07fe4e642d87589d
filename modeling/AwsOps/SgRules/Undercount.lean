import AwsOps.SgRules.NoFalseZero

/-!
# Undercounted days

A scan learns in two ways that it may have missed traffic of a rule: the broker counts `SKIPDATA`
records, and the membership snapshot of the VPC of the rule may be stale. The first is stored with
the row and the second is consulted for a match only, so neither keeps a rule from being committed
without evidence. `undercount_law_iff` says for which days they do not matter.
-/

namespace AwsOps.SgRules

open AwsOps.Text AwsOps.Timeline AwsOps.Session AwsOps.Calendar Store

/-- What the flows of a scanned day are matched with. -/
def scanInput (cfg : Config) (day : Int) (s : Store) : DayInput where
  U := cfg.U
  membershipsByVpc := (loadMembershipByVpc day cfg.membershipStalenessDays s).1
  staleVpcs := (loadMembershipByVpc day cfg.membershipStalenessDays s).2
  peeredOrShared := fun _ => []

/-- The scan received a signal that traffic of the rule may be missing: `SKIPDATA` records were
counted, or the snapshot of the VPC of the rule is stale. -/
def Undercounted (cfg : Config) (day : Int) (s : Store) (flags : CoverageFlags)
    (ruleId : String) : Prop :=
  (∃ skipped, flags.skipdataCount = some skipped ∧ 0 < skipped) ∨
    ∃ row vpcId, s.inventory ruleId = some row ∧ row.vpcId = some vpcId ∧
      vpcId ∈ (scanInput cfg day s).staleVpcs

/-- The status of the rule is settled by the flows or lowered for another reason: the day was cut
off, records are credited to the rule, or the day is open for it. -/
def Settled (x : DayInput) (covered : List CoveredRule) (flags : CoverageFlags)
    (flows : List Flow) (coverage : DayCoverage) : Prop :=
  Cut x flags flows ∨ 0 < x.total (x.creditedFlows coverage flows) ∨
    0 < x.total (x.overlappingFlows covered coverage flows) ∨
    Open x coverage flows ∧ x.total (x.creditedFlows coverage flows) = 0

theorem no_evidence_iff_unsettled (x : DayInput) (covered : List CoveredRule)
    (flags : CoverageFlags) (flows : List Flow) (rule : CoveredRule) :
    (x.row covered flags flows rule).coverage.status = .noObservedEvidence ↔
      ¬ Settled x covered flags flows rule.2.2 := by
  rw [no_observed_evidence_iff]
  unfold Settled
  constructor
  · intro ⟨hcut, hcredited, hoverlap, hopen⟩ hsettled
    rcases hsettled with h | h | h | h
    · exact hcut h
    · omega
    · omega
    · exact hopen h
  · intro h
    simp only [not_or] at h
    obtain ⟨hcut, hcredited, hoverlap, hopen⟩ := h
    exact ⟨hcut, by omega, by omega, hopen⟩

section Scan

variable (cfg : Config) (x : RunInput) (eniSnapshotTruncated : Bool)

/-- What a scan that processed a day has stored: the rows of the flows that the broker returned. -/
def ScannedRows (ruleVersions : List (String × List VersionRow)) (day : Int) (s t : Store) : Prop :=
  ∃ flows truncated skipdataCount,
    invokeBrokerQuery [] none (x.brokerPages day) = .ok (.rows flows truncated skipdataCount) ∧
    ∀ rule ∈ coveredAt s day ruleVersions, t.activity rule.1 day =
      some ((scanInput cfg day s).row (coveredAt s day ruleVersions)
        ⟨truncated, eniSnapshotTruncated, skipdataCount⟩ flows rule)

theorem scan_day_rows (ruleVersions : List (String × List VersionRow)) (day : Int) (s : Store) :
    Triple (fun t => t = s) (scanDay cfg x eniSnapshotTruncated ruleVersions day)
      (fun result t => ∀ d count crossing, result = some (.processed d count crossing) →
        ScannedRows cfg x eniSnapshotTruncated ruleVersions day s t)
      (fun _ => True) := by
  have hanswer : Triple (fun t : Store => t = s) (orRaise (invokeBrokerQuery [] none (x.brokerPages day)))
      (fun result t => t = s ∧ invokeBrokerQuery [] none (x.brokerPages day) = .ok result)
      (fun _ => True) := by
    cases invokeBrokerQuery [] none (x.brokerPages day) with
    | error e => exact .raise fun _ _ => trivial
    | ok result => exact .pure fun t ht => ⟨ht, rfl⟩
  have hfailed : ∀ reason code, Triple (fun _ => True) (writeFailedRun cfg.U day reason code)
      (fun _ _ => True) (fun _ => True) := fun reason code =>
    .exec (fun _ _ _ _ => trivial) fun _ _ => trivial
  unfold scanDay
  split
  · exact .pure fun t _ d count crossing h => by cases h
  · refine hanswer.bind fun result => ?_
    cases result with
    | failed reason =>
      refine .bind ((hfailed reason "athena_query_failed").weaken (fun _ _ => trivial)
        (fun _ _ h => h) fun _ h => h) fun _ => .pure fun t _ d count crossing h => ?_
      cases h
    | rows flows truncated skipdataCount =>
      refine .assuming (fun t ht => ht.2) fun hbroker => ?_
      have hload : Triple (fun t : Store => t = s)
          (query (loadMembershipByVpc day cfg.membershipStalenessDays))
          (fun m t => t = s ∧ m = loadMembershipByVpc day cfg.membershipStalenessDays s)
          (fun _ => True) := .query (fun t ht => ⟨ht, by rw [ht]⟩) fun _ _ => trivial
      refine .bind (hload.weaken (fun t ht => ht.1) (fun _ _ h => h) fun _ h => h) fun m =>
        .assuming (fun t ht => ht.2) fun hm => ?_
      rw [hm]
      refine .catching (R := fun _ => True) ?_ fun e => ?_
      · have hday := committed_rows (scanInput cfg day s) day s flows ruleVersions
          ⟨truncated, eniSnapshotTruncated, skipdataCount⟩ x.now
        refine .bind (hday.weaken (fun t ht => by rw [ht.1]) (fun _ _ h => h) fun _ h => h)
          fun _ => .pure fun t ht d count crossing _ => ?_
        exact ⟨flows, truncated, skipdataCount, hbroker, ht.2⟩
      · refine (hfailed (some e) "process_day_failed").bind fun _ =>
          .pure fun t _ d count crossing h => ?_
        cases h

/-- After a scan that processed a day, a rule for which a signal was received is not committed
without evidence exactly when no signal was received or the status is settled otherwise. -/
theorem undercount_law_iff (ruleVersions : List (String × List VersionRow)) (day : Int)
    (faults : Nat → Option String) (s : Store) (n : Nat) (d : Int) (count : Nat) (crossing : Bool)
    (hprocessed : ((scanDay cfg x eniSnapshotTruncated ruleVersions day).run faults s n).outcome =
      .ok (some (.processed d count crossing))) :
    ∃ flows truncated skipdataCount,
      invokeBrokerQuery [] none (x.brokerPages day) = .ok (.rows flows truncated skipdataCount) ∧
      ∀ rule ∈ coveredAt s day ruleVersions, ∃ row,
        ((scanDay cfg x eniSnapshotTruncated ruleVersions day).run faults s n).store.activity
          rule.1 day = some row ∧
        ((Undercounted cfg day s ⟨truncated, eniSnapshotTruncated, skipdataCount⟩ rule.1 →
            row.coverage.status ≠ .noObservedEvidence) ↔
          ¬ Undercounted cfg day s ⟨truncated, eniSnapshotTruncated, skipdataCount⟩ rule.1 ∨
            Settled (scanInput cfg day s) (coveredAt s day ruleVersions)
              ⟨truncated, eniSnapshotTruncated, skipdataCount⟩ flows rule.2.2) := by
  have hrows := (scan_day_rows cfg x eniSnapshotTruncated ruleVersions day s).returned rfl hprocessed
  obtain ⟨flows, truncated, skipdataCount, hbroker, hrows⟩ := hrows d count crossing rfl
  refine ⟨flows, truncated, skipdataCount, hbroker, fun rule hrule => ⟨_, hrows rule hrule, ?_⟩⟩
  rw [ne_eq, no_evidence_iff_unsettled, Classical.not_not]
  exact imp_iff_not_or

end Scan

/-- A deployment that trusts a membership snapshot for three days. -/
def threeDayConfig : Config where
  accountId := "111122223333"
  region := "ap-northeast-2"
  hostAccountId := "111122223333"
  deliveryLagHours := 6
  membershipStalenessDays := 3
  rescanWindowDays := 2
  U := Unicode.ascii
  sha256 := fun _ => "f1"

/-- A scan on the tenth day whose query gives the flows and the number of skipped records. -/
def tenthDayScan (flows : List Flow) (skipdataCount : Option Int) : RunInput where
  now := 10 * dayMicros
  accountEnabled := true
  describedRules := .ok []
  describedEnis := .ok []
  brokerArn := some "broker"
  revalidation := .error ""
  brokerPages := fun _ => [.ok (.page flows skipdataCount true)]
  faults := fun _ => none

/-- The rule with a security group as its peer. -/
def groupTls : VersionRow :=
  { openTls with value := { openTls.value with peerKind := "sg", peerValue := "sg-2" } }

/-- The tables with the rule in a VPC whose only snapshot was taken on the first day, before the
peer of the flow joined its group. -/
def firstDaySnapshot : Store :=
  { empty with
    inventory := fun ruleId =>
      if ruleId = "sgr-1" then
        some ⟨⟨"sgr-1", "sg-1", false, "tcp", some 443, some 443, some "sg", "sg-2", none⟩,
          "f1", 0, 0, true, some "vpc-1"⟩
      else none
    eniSnapshots :=
      [⟨0, ⟨"vpc-1", "eni-1", ["sg-1"], ["10.0.0.1"]⟩⟩,
        ⟨0, ⟨"vpc-1", "eni-2", ["sg-2"], ["10.0.0.9"]⟩⟩] }

/-- The reply of a scan of a day with the rule. -/
def scannedTls (x : RunInput) (version : VersionRow) (day : Int) (s : Store) :
    Reply Store (Option DayResult) :=
  (scanDay threeDayConfig x false [("sgr-1", [version])] day).run (fun _ => none) s 0

/-- The law at a scan that counted five skipped records. -/
theorem undercount_law_skipped : ∃ flows truncated skipdataCount,
      invokeBrokerQuery [] none ((tenthDayScan [] (some 5)).brokerPages 1) =
        .ok (.rows flows truncated skipdataCount) ∧
      ∀ rule ∈ coveredAt empty 1 [("sgr-1", [openTls])], ∃ row,
        (scannedTls (tenthDayScan [] (some 5)) openTls 1 empty).store.activity rule.1 1 = some row ∧
        ((Undercounted threeDayConfig 1 empty ⟨truncated, false, skipdataCount⟩ rule.1 →
            row.coverage.status ≠ .noObservedEvidence) ↔
          ¬ Undercounted threeDayConfig 1 empty ⟨truncated, false, skipdataCount⟩ rule.1 ∨
            Settled (scanInput threeDayConfig 1 empty)
              (coveredAt empty 1 [("sgr-1", [openTls])])
              ⟨truncated, false, skipdataCount⟩ flows rule.2.2) :=
  undercount_law_iff threeDayConfig (tenthDayScan [] (some 5)) false [("sgr-1", [openTls])] 1
    (fun _ => none) empty 0 1 1 false (by decide +kernel)

/-- A scan that counted skipped records, and one that resolved the peer of the rule by a stale
snapshot of its VPC, commit the rule without evidence. -/
theorem undercounted_unused : (Undercounted threeDayConfig 1 empty ⟨false, false, some 5⟩ "sgr-1" ∧
      ((scannedTls (tenthDayScan [] (some 5)) openTls 1 empty).store.activity "sgr-1" 1).map
        (·.coverage.status) = some .noObservedEvidence) ∧
    (Undercounted threeDayConfig 5 firstDaySnapshot ⟨false, false, none⟩ "sgr-1" ∧
      ((scannedTls (tenthDayScan [tlsFlow "3"] none) groupTls 5 firstDaySnapshot).store.activity
        "sgr-1" 5).map (·.coverage.status) = some .noObservedEvidence) := by
  refine ⟨⟨.inl ⟨5, rfl, by decide⟩, by decide +kernel⟩, .inr ⟨_, "vpc-1", rfl, rfl, ?_⟩,
    by decide +kernel⟩
  decide +kernel

end AwsOps.SgRules

import AwsOps.SgRules.DayEvidence

/-!
# No false zero

A rule is committed without evidence for a day only when the day was seen completely: nothing was
cut off, every flow was resolved, one version of the rule holds over the day, and no flow at an
interface with the group of the rule matches it or is left open. A flow that matches a rule is
credited to it, unless the interface is known from a stale snapshot. The main result,
`no_false_zero`, says so of what `process_day` commits, for every schedule of failing statements.
-/

namespace AwsOps.SgRules

open List AwsOps.Text AwsOps.Timeline AwsOps.Session AwsOps.Calendar

/-! ## What the status says -/

section Status

variable (x : DayInput) (covered : List CoveredRule)

/-- Something cut the day off: a limit, or a flow that is unresolved. -/
def Cut (flags : CoverageFlags) (flows : List Flow) : Prop :=
  flags.flowResultTruncated = true ∨ flags.eniSnapshotTruncated = true ∨
    ∃ flow ∈ flows, x.oriented flow = none

/-- Something of the day is open for a rule: no version of it holds over the day, or some flow is
undecided. -/
def Open (coverage : DayCoverage) (flows : List Flow) : Prop :=
  (∃ reason, coverage = .crossing reason) ∨ ∃ flow ∈ flows, x.undecided coverage flow = true

theorem cut_iff (flags : CoverageFlags) (flows : List Flow) :
    (flags.flowResultTruncated || flags.eniSnapshotTruncated ||
      decide (0 < (x.counters covered flows).unresolvedFlowCount)) = true ↔ Cut x flags flows := by
  simp only [Bool.or_eq_true, decide_eq_true_eq, or_assoc, Cut]
  refine or_congr_right (or_congr_right ?_)
  simp [DayInput.counters, DayInput.unresolved]

theorem open_iff (coverage : DayCoverage) (flows : List Flow) :
    ((x.ruleDay covered coverage flows).unassessable ||
      (x.ruleDay covered coverage flows).matchUnassessable) = true ↔ Open x coverage flows := by
  have hsame := fold_same_coverage x covered coverage flows ⟨rfl, rfl⟩
  have hcrossing : (x.ruleDay covered coverage flows).unassessable = true ↔
      ∃ reason, coverage = .crossing reason := by
    rw [DayInput.ruleDay, hsame.1]
    cases coverage <;> simp [RuleDay.start]
  have hmarked : (x.ruleDay covered coverage flows).matchUnassessable = true ↔
      ∃ flow ∈ flows, x.undecided coverage flow = true := by
    rw [DayInput.ruleDay, fold_undecided]
    simp [RuleDay.start]
  rw [Bool.or_eq_true, hcrossing, hmarked, Open]

def DayInput.row (x : DayInput) (covered : List CoveredRule) (flags : CoverageFlags)
    (flows : List Flow) (rule : CoveredRule) : ActivityRow :=
  activityRow (x.counters covered flows) flags rule.2.1 (x.ruleDay covered rule.2.2 flows)

theorem row_compatible (flags : CoverageFlags) (flows : List Flow) (rule : CoveredRule) :
    (x.row covered flags flows rule).compatibleMatchCount =
      x.total (x.creditedFlows rule.2.2 flows) := by
  show (x.ruleDay covered rule.2.2 flows).compatible = _
  rw [DayInput.ruleDay, fold_compatible]
  simp [RuleDay.start]

theorem row_overlap (flags : CoverageFlags) (flows : List Flow) (rule : CoveredRule) :
    (x.row covered flags flows rule).overlapMatchCount =
      x.total (x.overlappingFlows covered rule.2.2 flows) := by
  show (x.ruleDay covered rule.2.2 flows).overlap = _
  rw [DayInput.ruleDay, fold_overlap]
  simp [RuleDay.start]

/-- A rule is committed without evidence exactly when the day was not cut off, no record is
credited to it, and nothing of the day is open for it. An open day still counts as without
evidence when its records do not add up to zero and are not positive. -/
theorem no_observed_evidence_iff (flags : CoverageFlags) (flows : List Flow) (rule : CoveredRule) :
    (x.row covered flags flows rule).coverage.status = .noObservedEvidence ↔
      ¬ Cut x flags flows ∧ x.total (x.creditedFlows rule.2.2 flows) ≤ 0 ∧
        x.total (x.overlappingFlows covered rule.2.2 flows) ≤ 0 ∧
        ¬ (Open x rule.2.2 flows ∧ x.total (x.creditedFlows rule.2.2 flows) = 0) := by
  have hcompatible := row_compatible x covered flags flows rule
  have hoverlap := row_overlap x covered flags flows rule
  have hcut := cut_iff x covered flags flows
  have hopen := open_iff x covered rule.2.2 flows
  simp only [DayInput.row, activityRow] at hcompatible hoverlap
  simp only [DayInput.row, activityRow, classifyRuleDay, hcompatible, hoverlap]
  rw [← hcut, ← hopen]
  generalize (flags.flowResultTruncated || flags.eniSnapshotTruncated ||
    decide (0 < (x.counters covered flows).unresolvedFlowCount)) = cut
  generalize ((x.ruleDay covered rule.2.2 flows).unassessable ||
    (x.ruleDay covered rule.2.2 flows).matchUnassessable) = opened
  generalize x.total (x.creditedFlows rule.2.2 flows) = credited
  generalize x.total (x.overlappingFlows covered rule.2.2 flows) = overlapping
  cases cut <;> cases opened <;> by_cases hcredited : credited = 0 <;>
    by_cases hpositive : 0 < credited <;> by_cases hmore : 0 < overlapping <;>
    simp [hcredited, hpositive, hmore] <;> omega

/-- The counts of the flows are positive, as `count(*)` of a group is. -/
def PositiveCounts (U : Unicode) (flows : List Flow) : Prop :=
  ∀ flow ∈ flows, ∀ read, readFlow U flow = .ok read → 0 < read.cnt

theorem count_of_credited {flows : List Flow} (hcounts : PositiveCounts x.U flows)
    {coverage : DayCoverage} {flow : Flow} (hflow : flow ∈ flows)
    (h : x.credited coverage flow = true) : 0 < x.count flow := by
  cases hread : readFlow x.U flow with
  | error e => simp [DayInput.credited, DayInput.outcome, hread] at h
  | ok read =>
    simp only [DayInput.count, DayInput.numbers, hread, Except.toOption, Option.getD_some]
    exact hcounts flow hflow read hread

theorem total_pos {flows : List Flow} (h : ∀ flow ∈ flows, 0 < x.count flow)
    (hne : flows ≠ []) : 0 < x.total flows := by
  induction flows with
  | nil => exact absurd rfl hne
  | cons flow rest ih =>
    have hfirst := h flow mem_cons_self
    simp only [DayInput.total, map_cons, sum_cons]
    by_cases hrest : rest = []
    · simpa [hrest] using hfirst
    · have := ih (fun f hf => h f (mem_cons_of_mem flow hf)) hrest
      simp only [DayInput.total] at this
      omega

/-- What a rule without evidence commits to: nothing was cut off, one version holds over the day,
and each flow is resolved to an interface that does not carry the group of the rule, or does not
match it. -/
structure DayConfident (flags : CoverageFlags) (flows : List Flow) (coverage : DayCoverage) :
    Prop where
  flowResult : flags.flowResultTruncated = false
  eniSnapshot : flags.eniSnapshotTruncated = false
  resolved : ∀ flow ∈ flows, ∃ o, x.oriented flow = some o
  unmatched : ∃ version, coverage = .covered version ∧
    ∀ flow ∈ flows, ∀ o, x.oriented flow = some o →
      version.value.groupId ∉ o.eni.groupIds ∨ x.outcome coverage flow = some .noMatch

theorem confident_of_no_evidence {flags : CoverageFlags} {flows : List Flow} {rule : CoveredRule}
    (hcounts : PositiveCounts x.U flows) (hread : ∀ flow ∈ flows, ∃ read, readFlow x.U flow = .ok read)
    (h : (x.row covered flags flows rule).coverage.status = .noObservedEvidence) :
    DayConfident x flags flows rule.2.2 := by
  obtain ⟨hcut, hcredited, _, hopen⟩ := (no_observed_evidence_iff x covered flags flows rule).mp h
  have hnone : x.creditedFlows rule.2.2 flows = [] := by
    by_contra hne
    have hpos := total_pos x (fun flow hflow => by
      obtain ⟨hmem, hcredit⟩ := mem_filter.mp hflow
      exact count_of_credited x hcounts hmem hcredit) hne
    omega
  have hzero : x.total (x.creditedFlows rule.2.2 flows) = 0 := by
    rw [hnone]
    rfl
  have hopen : ¬ Open x rule.2.2 flows := fun h => hopen ⟨h, hzero⟩
  have hresolved : ∀ flow ∈ flows, ∃ o, x.oriented flow = some o := by
    intro flow hflow
    exact Option.ne_none_iff_exists'.mp fun hnone => hcut (.inr (.inr ⟨flow, hflow, hnone⟩))
  refine ⟨?_, ?_, hresolved, ?_⟩
  · exact Bool.eq_false_iff.mpr fun htrue => hcut (.inl htrue)
  · exact Bool.eq_false_iff.mpr fun htrue => hcut (.inr (.inl htrue))
  · cases hcoverage : rule.2.2 with
    | crossing reason => exact absurd (.inl ⟨reason, hcoverage⟩) hopen
    | covered version =>
      refine ⟨version, rfl, fun flow hflow o ho => ?_⟩
      by_cases hgroup : version.value.groupId ∈ o.eni.groupIds
      · right
        obtain ⟨read, hread⟩ := hread flow hflow
        have hnot : ¬ x.credited rule.2.2 flow = true := by
          intro hcredit
          have hmem : flow ∈ x.creditedFlows rule.2.2 flows :=
            mem_filter.mpr ⟨hflow, hcredit⟩
          rw [hnone] at hmem
          cases hmem
        have hdecided : ¬ x.undecided rule.2.2 flow = true := fun hundecided =>
          hopen (.inr ⟨flow, hflow, hundecided⟩)
        rw [hcoverage] at hnot hdecided
        have houtcome : ∃ outcome, x.outcome (.covered version) flow = some outcome := by
          simp [DayInput.outcome, hread, ho, ruleOutcome, RuleDay.start, hgroup]
        obtain ⟨outcome, houtcome⟩ := houtcome
        rw [houtcome]
        cases outcome with
        | noMatch => rfl
        | unassessable => simp [DayInput.undecided, houtcome] at hdecided
        | matched =>
          -- a match is credited or, through a stale snapshot, undecided
          cases hstale : x.stale flow with
          | true => simp [DayInput.undecided, houtcome, hstale] at hdecided
          | false => simp [DayInput.credited, houtcome, hstale] at hnot
      · exact .inl hgroup

end Status

/-! ## The order of the memberships -/

section MembershipOrder

/-- The interfaces of a membership map that can be found. -/
def interfaces (membershipsByVpc : List (String × List Membership)) : List String :=
  ((membershipsByVpc.flatMap (·.2)).filter (·.eniId ≠ "")).map (·.eniId)

theorem lookup_perm {β : Type} {l l' : List (String × β)} (h : l.Perm l')
    (hnodup : (l.map Prod.fst).Nodup) (key : String) : l.lookup key = l'.lookup key := by
  induction h with
  | nil => rfl
  | cons entry _ ih =>
    rw [map_cons, nodup_cons] at hnodup
    rw [lookup_cons, lookup_cons, ih hnodup.2]
  | swap first second rest =>
    obtain ⟨k, v⟩ := first
    obtain ⟨k', v'⟩ := second
    simp only [map_cons, nodup_cons, mem_cons, not_or] at hnodup
    have hne : k' ≠ k := hnodup.1.1
    simp only [lookup_cons]
    by_cases hkey : key = k
    · have hother : (key == k') = false := by
        rw [beq_eq_false_iff_ne, hkey]
        exact hne.symm
      rw [hother]
    · have hother : (key == k) = false := beq_eq_false_iff_ne.mpr hkey
      rw [hother]
  | trans hfirst _ ih ih' => exact (ih hnodup).trans (ih' ((hfirst.map _).nodup_iff.mp hnodup))

variable {m m' : List (String × List Membership)}

theorem eni_index_perm (h : m.Perm m') (hnodup : (interfaces m).Nodup) (staleVpcs : List String) :
    eniIndex m staleVpcs = eniIndex m' staleVpcs := by
  funext eniId
  have hentries : ∀ m : List (String × List Membership), ((m.flatMap fun entry =>
      (entry.2.filter (·.eniId ≠ "")).map fun member => (member.eniId,
        (⟨member.groupIds, member.privateIps, entry.1, staleVpcs.contains entry.1⟩ :
          EniEntry))).map Prod.fst) = interfaces m := by
    intro m
    induction m with
    | nil => rfl
    | cons entry rest ih =>
      simp only [flatMap_cons, map_append, ih, interfaces, filter_append, map_map]
      rfl
  refine lookup_perm ?_ ?_ eniId
  · exact (reverse_perm _).trans ((h.flatMap_right _).trans (reverse_perm _).symm)
  · rw [map_reverse, nodup_reverse, hentries]
    exact hnodup

/-- Two answers of a resolver that agree up to the order of the addresses. -/
def SameAnswer : Option (List String) → Option (List String) → Prop
  | none, none => True
  | some ips, some ips' => ips.Perm ips'
  | _, _ => False

theorem sg_resolver_perm (h : m.Perm m') (peeredOrShared : String → List String)
    (vpcId groupId : String) :
    SameAnswer ((sgResolverFactory m peeredOrShared vpcId).bind fun resolve => resolve groupId)
      ((sgResolverFactory m' peeredOrShared vpcId).bind fun resolve => resolve groupId) := by
  simp only [sgResolverFactory, h.any_eq]
  split
  · have hcarriers := h.flatMap_right fun entry : String × List Membership =>
      (entry.2.filter (·.groupIds.contains groupId)).map fun member =>
        (entry.1, member.privateIps)
    have hips := (hcarriers.filter fun entry =>
      eniMatchesVpcScope vpcId entry.1 (peeredOrShared vpcId)).flatMap_right (·.2)
    simp only [Option.bind_some, hcarriers.isEmpty_eq, hcarriers.any_eq, hips.isEmpty_eq]
    split
    · trivial
    · split
      · trivial
      · exact hips
  · trivial

theorem match_peer_same {rule : VersionShape} {r r' : Option Resolver}
    (h : ∀ groupId, SameAnswer (r.bind fun resolve => resolve groupId)
      (r'.bind fun resolve => resolve groupId)) (peerIp : String) (p : Option Resolver) :
    matchPeer rule peerIp r p = matchPeer rule peerIp r' p := by
  have hanswer := h rule.peerValue
  simp only [matchPeer]
  cases hr : r.bind fun resolve => resolve rule.peerValue with
  | none =>
    cases hr' : r'.bind fun resolve => resolve rule.peerValue with
    | none => rfl
    | some ips =>
      rw [hr, hr'] at hanswer
      exact absurd hanswer id
  | some ips =>
    cases hr' : r'.bind fun resolve => resolve rule.peerValue with
    | none =>
      rw [hr, hr'] at hanswer
      exact absurd hanswer id
    | some ips' =>
      rw [hr, hr'] at hanswer
      have hperm : ips.Perm ips' := hanswer
      simp only [hperm.contains_eq]

theorem count_flow_perm (h : m.Perm m') (hnodup : (interfaces m).Nodup) (U : Unicode)
    (staleVpcs : List String) (peeredOrShared : String → List String) :
    countFlow U m staleVpcs peeredOrShared = countFlow U m' staleVpcs peeredOrShared := by
  funext counters flow
  have houtcome : ∀ (o : OrientedFlow) (port : Option Int) (cov : RuleDay),
      ruleOutcome o port flow.protocol (sgResolverFactory m peeredOrShared o.eni.vpcId) cov =
        ruleOutcome o port flow.protocol (sgResolverFactory m' peeredOrShared o.eni.vpcId) cov := by
    intro o port cov
    simp only [ruleOutcome, matchFlowAgainstRule,
      match_peer_same fun groupId => sg_resolver_perm h peeredOrShared o.eni.vpcId groupId]
  simp only [countFlow, eni_index_perm h hnodup, houtcome]

end MembershipOrder

/-! ## What a day commits -/

section Commit

variable {day : Int}

/-- Whether one version of a rule holds over the day, by the scans of a store. -/
def coverageAt (s : Store) (day : Int) (versions : List VersionRow) : DayCoverage :=
  Id.run (dayCoverage (m := Id) versions day fun validTo => previousSuccessfulScanGap validTo s)

/-- The rules of the day, by the scans of a store. -/
def coveredAt (s : Store) (day : Int) (ruleVersionsById : List (String × List VersionRow)) :
    List CoveredRule :=
  ruleVersionsById.map fun entry => (entry.1, entry.2, coverageAt s day entry.2)

theorem day_coverage_at (s : Store) (versions : List VersionRow) :
    Triple (fun t => t.scanRuns = s.scanRuns) (dayCoverage versions day boundaryLagResolver)
      (fun coverage t => t.scanRuns = s.scanRuns ∧ coverage = coverageAt s day versions)
      (fun _ => True) := by
  unfold coverageAt dayCoverage
  cases hstart : versionCovering versions (dayStart day) with
  | none => exact .pure fun t ht => ⟨ht, by simp only; rfl⟩
  | some atStart =>
    cases hend : versionCovering versions (dayEnd day - 1) with
    | none => exact .pure fun t ht => ⟨ht, by simp only; rfl⟩
    | some atEnd =>
      by_cases hopened : atStart.opened ≠ atEnd.opened
      · dsimp only
        rw [if_pos hopened, if_pos hopened]
        exact .pure fun t ht => ⟨ht, rfl⟩
      · dsimp only
        rw [if_neg hopened, if_neg hopened]
        cases hclosed : atStart.closed with
        | none => exact .pure fun t ht => ⟨ht, rfl⟩
        | some validTo =>
          have hquery : Triple (fun t => t.scanRuns = s.scanRuns) (boundaryLagResolver validTo)
              (fun lag t => t.scanRuns = s.scanRuns ∧
                lag = previousSuccessfulScanGap validTo s) (fun _ => True) :=
            .query (fun t ht => ⟨ht, by simp only [previousSuccessfulScanGap, ht]⟩)
              fun _ _ => trivial
          dsimp only
          refine hquery.bind fun lag => .assuming (fun t ht => ht.2) fun hlag => ?_
          cases lag with
          | none => exact .pure fun t ht => ⟨ht.1, by rw [← hlag]; rfl⟩
          | some lag =>
            by_cases hlate : validTo - lag < dayEnd day
            · simp only [hlate, if_true]
              exact .pure fun t ht => ⟨ht.1, by rw [← hlag]; exact (if_pos hlate).symm⟩
            · simp only [hlate, if_false]
              exact .pure fun t ht => ⟨ht.1, by rw [← hlag]; exact (if_neg hlate).symm⟩

theorem cover_rules_at (s : Store) (ruleVersionsById : List (String × List VersionRow)) :
    Triple (fun t => t.scanRuns = s.scanRuns) (forEach (coverRule day) ruleVersionsById)
      (fun covered t => t.scanRuns = s.scanRuns ∧ covered = coveredAt s day ruleVersionsById)
      (fun _ => True) := by
  refine .forEach_map (f := fun entry => (entry.1, entry.2, coverageAt s day entry.2))
    (fun entry => ?_) ruleVersionsById
  refine (day_coverage_at s entry.2).bind fun coverage => .assuming (fun t ht => ht.2)
    fun hcoverage => ?_
  rw [← hcoverage]
  cases coverage with
  | crossing reason => exact .pure fun t ht => ⟨ht.1, rfl⟩
  | covered version =>
    have hnote : Triple
        (fun t => t.scanRuns = s.scanRuns ∧ DayCoverage.covered version = .covered version)
        (note (recordAttribution day entry.1 version)) (fun _ t => t.scanRuns = s.scanRuns)
        (fun _ => True) := .note fun t ht => ht.1
    refine .weaken (hnote.bind fun _ => .pure fun t ht => ⟨ht, rfl⟩) (fun t ht => ⟨ht.1, rfl⟩)
      (fun _ _ h => h) fun _ h => h

theorem commit_day_rows (rows : List (String × ActivityRow)) (scanRun : ScanRunRow) :
    Triple (fun _ => True) (commitDay day rows scanRun)
      (fun _ t => ∀ entry ∈ rows, t.activity entry.1 day = some entry.2) (fun _ => True) := by
  have hdelete : Triple (fun _ => True) (exec (deleteActivity day)) (fun _ _ => True)
      (fun _ => True) := .exec (fun _ _ _ _ => trivial) fun _ _ => trivial
  have hloop : Triple (fun _ => True)
      (forEach (fun entry => exec (insertActivity day entry.1 entry.2)) rows)
      (fun _ t => ∀ entry ∈ rows, t.activity entry.1 day = some entry.2) (fun _ => True) := by
    refine .weaken (.forEach (fun done _ t => ∀ entry ∈ done, t.activity entry.1 day = some entry.2)
      fun done entry rest values _ => ?_) (fun _ _ entry h => by cases h) (fun _ _ h => h)
      fun _ h => h
    refine .exec (fun t t' hdone hok => ?_) fun _ _ => trivial
    unfold insertActivity at hok
    split at hok
    · cases hok
    · rename_i hfree
      cases hok
      intro other hother
      rcases mem_append.mp hother with hold | hnew
      · have hne : other.1 ≠ entry.1 := by
          intro heq
          have hstored := hdone other hold
          rw [heq] at hstored
          rw [hstored] at hfree
          exact hfree rfl
        simp only [hne, false_and, if_false]
        exact hdone other hold
      · rw [mem_singleton.mp hnew]
        simp
  have hrun : Triple (fun t : Store => ∀ entry ∈ rows, t.activity entry.1 day = some entry.2)
      (exec (insertScanRun scanRun))
      (fun _ t => ∀ entry ∈ rows, t.activity entry.1 day = some entry.2) (fun _ => True) :=
    .exec (fun t t' h hok => by cases hok; exact h) fun _ _ => trivial
  exact .transaction (hdelete.bind fun _ => hloop.bind fun _ => hrun) fun _ _ => trivial

theorem committed_rows (x : DayInput) (day : Int) (s : Store) (flows : List Flow)
    (ruleVersionsById : List (String × List VersionRow)) (flags : CoverageFlags)
    (observedAt : Int) :
    Triple (fun t => t.scanRuns = s.scanRuns)
      (processDay x.U day flows ruleVersionsById x.membershipsByVpc x.staleVpcs flags
        x.peeredOrShared observedAt)
      (fun _ t => (∀ flow ∈ flows, ∃ read, readFlow x.U flow = .ok read) ∧
        ∀ rule ∈ coveredAt s day ruleVersionsById, t.activity rule.1 day =
          some (x.row (coveredAt s day ruleVersionsById) flags flows rule))
      (fun _ => True) := by
  refine (cover_rules_at s ruleVersionsById).bind fun covered => .assuming (fun t ht => ht.2)
    fun hcovered => ?_
  rw [← hcovered]
  cases hcount : flows.foldlM x.countFlow (startDay covered) with
  | error e =>
    have hfold : flows.foldlM (countFlow x.U x.membershipsByVpc x.staleVpcs x.peeredOrShared)
        (startDay covered) = .error e := hcount
    rw [hfold]
    exact .raise fun _ _ => trivial
  | ok counters =>
    have hfold : flows.foldlM (countFlow x.U x.membershipsByVpc x.staleVpcs x.peeredOrShared)
        (startDay covered) = .ok counters := hcount
    rw [hfold]
    have hread := (count_flows_ok_iff x (startDay covered)).mp ⟨_, hcount⟩
    rw [count_flows_eq x covered hcount]
    refine .bind ((commit_day_rows _ _).weaken (fun _ _ => trivial) (fun _ _ h => h) fun _ h => h)
      fun _ => .pure fun t hrows => ⟨hread, fun rule hrule => ?_⟩
    refine hrows (rule.1, x.row covered flags flows rule) ?_
    rw [activity_rows_eq]
    exact mem_map.mpr ⟨rule, hrule, rfl⟩

end Commit

/-! ## The order of the inputs -/

section Order

/-- Two replies with the same effect: the stores agree, and both sessions return the same value or
both raise. -/
def SameEffect {α : Type} (r r' : Reply Store α) : Prop :=
  r.store = r'.store ∧ ((∃ a, r.outcome = .ok a ∧ r'.outcome = .ok a) ∨
    ∃ e e', r.outcome = .error e ∧ r'.outcome = .error e')

theorem same_effect_refl {α : Type} (r : Reply Store α) : SameEffect r r := by
  refine ⟨rfl, ?_⟩
  cases houtcome : r.outcome with
  | ok a => exact .inl ⟨a, rfl, rfl⟩
  | error e => exact .inr ⟨e, e, rfl, rfl⟩

theorem process_day_perm (x : DayInput) (day : Int) {flows flows' : List Flow}
    (h : flows.Perm flows') (ruleVersionsById : List (String × List VersionRow))
    (flags : CoverageFlags) (observedAt : Int) (faults : Nat → Option String) (s : Store)
    (n : Nat) :
    SameEffect
      ((processDay x.U day flows ruleVersionsById x.membershipsByVpc x.staleVpcs flags
        x.peeredOrShared observedAt).run faults s n)
      ((processDay x.U day flows' ruleVersionsById x.membershipsByVpc x.staleVpcs flags
        x.peeredOrShared observedAt).run faults s n) := by
  simp only [processDay, bind, Session.bind]
  generalize (forEach (coverRule day) ruleVersionsById).run faults s n = reply
  obtain ⟨outcome, store, issued⟩ := reply
  cases outcome with
  | error e => exact same_effect_refl _
  | ok covered =>
    dsimp only
    have hread : (∃ result, flows.foldlM x.countFlow (startDay covered) = .ok result) ↔
        ∃ result, flows'.foldlM x.countFlow (startDay covered) = .ok result := by
      rw [count_flows_ok_iff, count_flows_ok_iff]
      exact ⟨fun hall flow hflow => hall flow (h.mem_iff.mpr hflow),
        fun hall flow hflow => hall flow (h.mem_iff.mp hflow)⟩
    have hfold : ∀ flows : List Flow, flows.foldlM (countFlow x.U x.membershipsByVpc x.staleVpcs
        x.peeredOrShared) (startDay covered) = flows.foldlM x.countFlow (startDay covered) :=
      fun _ => rfl
    rw [hfold, hfold]
    cases hcount : flows.foldlM x.countFlow (startDay covered) with
    | error e =>
      cases hcount' : flows'.foldlM x.countFlow (startDay covered) with
      | error e' => exact ⟨rfl, .inr ⟨e, e', rfl, rfl⟩⟩
      | ok counters' =>
        obtain ⟨counters, hcounters⟩ := hread.mpr ⟨_, hcount'⟩
        rw [hcount] at hcounters
        cases hcounters
    | ok counters =>
      obtain ⟨counters', hcount'⟩ := hread.mp ⟨_, hcount⟩
      rw [hcount', count_flows_eq x covered hcount, count_flows_eq x covered hcount']
      have hunresolved : (x.counters covered flows).unresolvedFlowCount =
          (x.counters covered flows').unresolvedFlowCount := (h.filter _).length_eq
      have hrules : (x.counters covered flows).perRule.length =
          (x.counters covered flows').perRule.length := by
        simp [DayInput.counters]
      simp only [activity_rows_perm x covered h flags, hunresolved, h.length_eq, hrules]
      exact same_effect_refl _

end Order

/-! ## The committed day -/

def processed (x : DayInput) (day : Int) (flows : List Flow)
    (ruleVersionsById : List (String × List VersionRow)) (flags : CoverageFlags)
    (observedAt : Int) (faults : Nat → Option String) (s : Store) (n : Nat) :
    Reply Store DayResult :=
  (processDay x.U day flows ruleVersionsById x.membershipsByVpc x.staleVpcs flags
    x.peeredOrShared observedAt).run faults s n

/-- What a committed row says about its rule: without evidence only on a day that was seen
completely, and otherwise with the records of the flows that match it at an interface of a fresh
snapshot, of which those that match another rule as well are overlap. -/
structure RowLaw (x : DayInput) (covered : List CoveredRule) (flags : CoverageFlags)
    (flows : List Flow) (rule : CoveredRule) (row : ActivityRow) : Prop where
  confident : PositiveCounts x.U flows → row.coverage.status = .noObservedEvidence →
    DayConfident x flags flows rule.2.2
  compatible : row.compatibleMatchCount = x.total (x.creditedFlows rule.2.2 flows)
  overlap : row.overlapMatchCount = x.total (x.overlappingFlows covered rule.2.2 flows)

/-- A processed day has committed a row for each rule that says what it should, and neither the
order of the flows nor that of the VPCs of distinct interfaces changes what it commits. -/
theorem no_false_zero (x : DayInput) (day : Int) (flows : List Flow)
    (ruleVersionsById : List (String × List VersionRow)) (flags : CoverageFlags)
    (observedAt : Int) (faults : Nat → Option String) (s : Store) (n : Nat) :
    (∀ result, (processed x day flows ruleVersionsById flags observedAt faults s n).outcome =
        .ok result →
      ∀ rule ∈ coveredAt s day ruleVersionsById, ∃ row,
        (processed x day flows ruleVersionsById flags observedAt faults s n).store.activity
          rule.1 day = some row ∧
        RowLaw x (coveredAt s day ruleVersionsById) flags flows rule row) ∧
    (∀ flows', flows.Perm flows' →
      SameEffect (processed x day flows ruleVersionsById flags observedAt faults s n)
        (processed x day flows' ruleVersionsById flags observedAt faults s n)) ∧
    ∀ membershipsByVpc, x.membershipsByVpc.Perm membershipsByVpc →
      (interfaces x.membershipsByVpc).Nodup →
      SameEffect (processed x day flows ruleVersionsById flags observedAt faults s n)
        (processed { x with membershipsByVpc := membershipsByVpc } day flows ruleVersionsById flags
          observedAt faults s n) := by
  refine ⟨fun result hok rule hrule => ?_, fun flows' hperm => ?_, fun m' hperm hnodup => ?_⟩
  · obtain ⟨hread, hrows⟩ :=
      (committed_rows x day s flows ruleVersionsById flags observedAt).returned rfl hok
    refine ⟨_, hrows rule hrule, fun hcounts hstatus => ?_, row_compatible x _ flags flows rule,
      row_overlap x _ flags flows rule⟩
    exact confident_of_no_evidence x _ hcounts hread hstatus
  · exact process_day_perm x day hperm ruleVersionsById flags observedAt faults s n
  · have hsame : processed { x with membershipsByVpc := m' } day flows ruleVersionsById flags
        observedAt faults s n = processed x day flows ruleVersionsById flags observedAt faults s n := by
      simp only [processed, processDay, count_flow_perm hperm hnodup]
    rw [hsame]
    exact same_effect_refl _

/-- A rule that admits TLS from everywhere. -/
def openTls : VersionRow where
  key := "sgr-1"
  opened := 0
  closed := none
  value := ⟨"f1", "sg-1", false, "tcp", some 443, some 443, "cidr", "0.0.0.0/0"⟩

/-- An accepted TLS flow at an interface, with the count of its records. -/
def tlsFlow (cnt : String) : Flow where
  interfaceId := some "eni-1"
  srcaddr := some "192.0.2.7"
  dstaddr := some "10.0.0.1"
  dstport := some "443"
  protocol := some "6"
  bytes := none
  cnt := some cnt
  lastStart := none

def tlsMembership (vpcId groupId : String) : String × List Membership :=
  (vpcId, [⟨vpcId, "eni-1", [groupId], ["10.0.0.1"]⟩])

def tlsDay (membershipsByVpc : List (String × List Membership)) (staleVpcs : List String) :
    DayInput where
  U := Unicode.ascii
  membershipsByVpc := membershipsByVpc
  staleVpcs := staleVpcs
  peeredOrShared := fun _ => []

/-- The records and the status that a day commits for the rule. -/
def committedTls (x : DayInput) (flow : Flow) : Option (Int × RuleDayStatus) :=
  ((processed x 1 [flow] [("sgr-1", [openTls])] ⟨false, false, none⟩ 0 (fun _ => none) Store.empty
    0).store.activity "sgr-1" 1).map fun row => (row.compatibleMatchCount, row.coverage.status)

/-- A match through a stale snapshot is not credited, a match whose count is zero leaves the rule
without evidence, and an interface that stands in two VPCs makes their order matter. -/
theorem uncredited_matches :
    ((tlsDay [tlsMembership "vpc-1" "sg-1"] ["vpc-1"]).outcome (.covered openTls) (tlsFlow "3") =
        some .matched ∧
      committedTls (tlsDay [tlsMembership "vpc-1" "sg-1"] ["vpc-1"]) (tlsFlow "3") =
        some (0, .unassessable)) ∧
    ((tlsDay [tlsMembership "vpc-1" "sg-1"] []).outcome (.covered openTls) (tlsFlow "0") =
        some .matched ∧
      committedTls (tlsDay [tlsMembership "vpc-1" "sg-1"] []) (tlsFlow "0") =
        some (0, .noObservedEvidence)) ∧
    committedTls (tlsDay [tlsMembership "vpc-1" "sg-1", tlsMembership "vpc-2" "sg-2"] [])
        (tlsFlow "3") = some (0, .noObservedEvidence) ∧
      committedTls (tlsDay [tlsMembership "vpc-2" "sg-2", tlsMembership "vpc-1" "sg-1"] [])
        (tlsFlow "3") = some (3, .observedCompatible) := by
  decide +kernel

end AwsOps.SgRules

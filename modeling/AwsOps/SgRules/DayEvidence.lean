import Mathlib.Algebra.Ring.Int.Defs
import AwsOps.SgRules.Scan
import Mathlib.Algebra.Order.BigOperators.Group.List

/-!
# The evidence of a day

What `process_day` counts, read off the flows: a flow is unresolved, or it has an outcome for each
rule of the day, and the counters of a rule are the sums over the flows that are credited to it.
`count_flows_eq` takes the loop apart into one accumulation for each rule, `rule_day_fold` gives
the accumulated counters, and `committed_rows` says that a day that commits has stored the rows of
these counters. The rows depend neither on the order of the flows nor on that of the memberships.
-/

namespace AwsOps.SgRules

open List AwsOps.Text AwsOps.Timeline AwsOps.Session AwsOps.Calendar RuleDay

/-- What the flows of a day are matched with: the memberships of each VPC, the VPCs whose snapshot
is stale, and the VPCs joined to each. -/
structure DayInput where
  U : Unicode
  membershipsByVpc : List (String × List Membership)
  staleVpcs : List String
  peeredOrShared : String → List String

/-- A rule of the day: its id, its versions and whether one of them holds over the day. -/
abbrev CoveredRule := String × List VersionRow × DayCoverage

namespace DayInput

/-- The flow at its interface. -/
def oriented (x : DayInput) (flow : Flow) : Option OrientedFlow :=
  orientFlow (eniIndex x.membershipsByVpc x.staleVpcs) flow

/-- The references as seen from the interface of a flow. -/
def resolver (x : DayInput) (o : OrientedFlow) : Option Resolver :=
  sgResolverFactory x.membershipsByVpc x.peeredOrShared o.eni.vpcId

/-- The outcome of a flow for a rule, `none` when the flow is unresolved, no version of the rule
holds over the day, or the interface does not carry the group of the rule. -/
def outcome (x : DayInput) (coverage : DayCoverage) (flow : Flow) : Option MatchOutcome :=
  match readFlow x.U flow, x.oriented flow with
  | .ok read, some o =>
    ruleOutcome o read.port flow.protocol (x.resolver o) (start coverage)
  | _, _ => none

/-- The interface of the flow is known from a stale snapshot. -/
def stale (x : DayInput) (flow : Flow) : Bool :=
  (x.oriented flow).any (·.eni.stale)

def credited (x : DayInput) (coverage : DayCoverage) (flow : Flow) : Bool :=
  x.outcome coverage flow == some .matched && !x.stale flow

/-- The flow cannot be decided for the rule. -/
def undecided (x : DayInput) (coverage : DayCoverage) (flow : Flow) : Bool :=
  x.outcome coverage flow == some .unassessable ||
    (x.outcome coverage flow == some .matched && x.stale flow)

/-- The flow is credited to more than one rule. -/
def overlapping (x : DayInput) (covered : List CoveredRule) (flow : Flow) : Bool :=
  1 < (covered.filter fun rule => x.credited rule.2.2 flow).length

/-- The numbers of a flow, all of them zero when they cannot be read. -/
def numbers (x : DayInput) (flow : Flow) : ReadFlow :=
  (readFlow x.U flow).toOption.getD ⟨none, 0, 0, none⟩

/-- The number of records that the flow stands for. -/
def count (x : DayInput) (flow : Flow) : Int :=
  (x.numbers flow).cnt

def creditedFlows (x : DayInput) (coverage : DayCoverage) (flows : List Flow) : List Flow :=
  flows.filter (x.credited coverage)

/-- The flows that are credited to a rule and to another one. -/
def overlappingFlows (x : DayInput) (covered : List CoveredRule) (coverage : DayCoverage)
    (flows : List Flow) : List Flow :=
  (x.creditedFlows coverage flows).filter (x.overlapping covered)

/-- The records of some flows. -/
def total (x : DayInput) (flows : List Flow) : Int :=
  (flows.map x.count).sum

def step (x : DayInput) (covered : List CoveredRule) (coverage : DayCoverage) (cov : RuleDay)
    (flow : Flow) : RuleDay :=
  if x.credited coverage flow then
    cov.credit (((x.oriented flow).map (·.interfaceId)).getD "") (x.numbers flow)
      (x.overlapping covered flow)
  else if x.undecided coverage flow then { cov with matchUnassessable := true }
  else cov

/-- The counters of one rule after some flows. -/
def ruleDay (x : DayInput) (covered : List CoveredRule) (coverage : DayCoverage)
    (flows : List Flow) : RuleDay :=
  flows.foldl (x.step covered coverage) (start coverage)

/-- The flows whose interface or direction is unknown. -/
def unresolved (x : DayInput) (flows : List Flow) : List Flow :=
  flows.filter fun flow => (x.oriented flow).isNone

def counters (x : DayInput) (covered : List CoveredRule) (flows : List Flow) : DayCounters where
  perRule := covered.map fun rule => (rule.1, x.ruleDay covered rule.2.2 flows)
  unresolvedFlowCount := (x.unresolved flows).length

def countFlow (x : DayInput) (counters : DayCounters) (flow : Flow) : Except String DayCounters :=
  SgRules.countFlow x.U x.membershipsByVpc x.staleVpcs x.peeredOrShared counters flow

end DayInput

section Counting

variable (x : DayInput) (covered : List CoveredRule)

/-- The counters have the coverage of their rule. -/
def SameCoverage (coverage : DayCoverage) (cov : RuleDay) : Prop :=
  cov.unassessable = (start coverage).unassessable ∧
    cov.version = (start coverage).version

variable {coverage : DayCoverage} {cov : RuleDay} {counters : DayCounters} {flows : List Flow}

theorem rule_outcome_of_same (h : SameCoverage coverage cov) (o : OrientedFlow) (port : Option Int)
    (protocol : Option String) (resolver : Option Resolver) :
    ruleOutcome o port protocol resolver cov =
      ruleOutcome o port protocol resolver (start coverage) := by
  simp only [ruleOutcome, h.1, h.2]

theorem step_same_coverage (flow : Flow)
    (h : SameCoverage coverage cov) : SameCoverage coverage (x.step covered coverage cov flow) := by
  unfold DayInput.step
  split
  · exact h
  · split
    · exact h
    · exact h

theorem fold_same_coverage (coverage : DayCoverage) (flows : List Flow)
    (h : SameCoverage coverage cov) :
    SameCoverage coverage (flows.foldl (x.step covered coverage) cov) := by
  induction flows generalizing cov with
  | nil => exact h
  | cons flow rest ih => exact ih (step_same_coverage x covered flow h)

theorem count_flow_eq {day : DayCoverage → RuleDay}
    (hday : ∀ coverage, SameCoverage coverage (day coverage)) (unresolved : Nat) {flow : Flow}
    {read : ReadFlow} (hread : readFlow x.U flow = .ok read) :
    x.countFlow ⟨covered.map fun rule => (rule.1, day rule.2.2), unresolved⟩ flow =
      .ok ⟨covered.map fun rule => (rule.1, x.step covered rule.2.2 (day rule.2.2) flow),
        unresolved + (x.unresolved [flow]).length⟩ := by
  simp only [DayInput.countFlow, countFlow, hread, bind, Except.bind]
  cases ho : orientFlow (eniIndex x.membershipsByVpc x.staleVpcs) flow with
  | none =>
    have horiented : x.oriented flow = none := ho
    have hstep : ∀ coverage cov, x.step covered coverage cov flow = cov := by
      intro coverage cov
      simp [DayInput.step, DayInput.credited, DayInput.undecided, DayInput.outcome, hread,
        horiented]
    simp [pure, Except.pure, hstep, DayInput.unresolved, horiented]
  | some o =>
    have horiented : x.oriented flow = some o := ho
    have houtcome : ∀ coverage, x.outcome coverage flow =
        ruleOutcome o read.port flow.protocol (x.resolver o) (day coverage) := by
      intro coverage
      simp only [DayInput.outcome, hread, horiented]
      exact (rule_outcome_of_same (hday coverage) _ _ _ _).symm
    have hstale : x.stale flow = o.eni.stale := by
      simp [DayInput.stale, horiented]
    have hnumbers : x.numbers flow = read := by
      simp [DayInput.numbers, hread, Except.toOption]
    have hcredited : ∀ coverage,
        (ruleOutcome o read.port flow.protocol (x.resolver o) (day coverage) ==
          some .matched && !o.eni.stale) = x.credited coverage flow := by
      intro coverage
      rw [DayInput.credited, houtcome, hstale]
    have hundecided : ∀ coverage,
        (ruleOutcome o read.port flow.protocol (x.resolver o) (day coverage) ==
          some .unassessable ||
          (ruleOutcome o read.port flow.protocol (x.resolver o) (day coverage) ==
            some .matched && o.eni.stale)) = x.undecided coverage flow := by
      intro coverage
      rw [DayInput.undecided, houtcome, hstale]
    have hcount : ((covered.map fun rule => (rule.1, day rule.2.2)).filter fun entry =>
        ruleOutcome o read.port flow.protocol (x.resolver o) entry.2 == some .matched &&
          !o.eni.stale).length =
        (covered.filter fun rule => x.credited rule.2.2 flow).length := by
      rw [filter_map, length_map]
      simp only [Function.comp_def, hcredited]
    simp only [DayInput.resolver] at hcount hcredited hundecided
    simp only [pure, Except.pure, hcount, map_map]
    congr 2
    · refine map_congr_left fun rule _ => ?_
      simp only [Function.comp_apply, hcredited, hundecided, DayInput.step, horiented, hnumbers,
        Option.map_some, Option.getD_some, DayInput.overlapping]
      split
      · rfl
      · split
        · rfl
        · rfl
    · simp [DayInput.unresolved, horiented]

theorem count_flow_error (counters : DayCounters) {flow : Flow} {e : String}
    (hread : readFlow x.U flow = .error e) : x.countFlow counters flow = .error e := by
  simp only [DayInput.countFlow, countFlow, hread, bind, Except.bind]

theorem count_flows_from (day : DayCoverage → RuleDay)
    (hday : ∀ coverage, SameCoverage coverage (day coverage)) (unresolved : Nat) (flows : List Flow)
    (h : flows.foldlM x.countFlow ⟨covered.map fun rule => (rule.1, day rule.2.2), unresolved⟩ =
      .ok counters) :
    counters = ⟨covered.map fun rule =>
      (rule.1, flows.foldl (x.step covered rule.2.2) (day rule.2.2)),
      unresolved + (x.unresolved flows).length⟩ := by
  induction flows generalizing day unresolved with
  | nil =>
    cases h
    simp [DayInput.unresolved]
  | cons flow rest ih =>
    rw [foldlM_cons] at h
    cases hread : readFlow x.U flow with
    | error e =>
      rw [count_flow_error x _ hread] at h
      cases h
    | ok read =>
      rw [count_flow_eq x covered hday unresolved hread] at h
      have hrest := ih (fun coverage => x.step covered coverage (day coverage) flow)
        (fun coverage => step_same_coverage x covered flow (hday coverage)) _ h
      rw [hrest]
      have hsplit : (x.unresolved (flow :: rest)).length =
          (x.unresolved [flow]).length + (x.unresolved rest).length := by
        rw [← length_append, DayInput.unresolved, DayInput.unresolved,
          DayInput.unresolved, ← filter_append]
        rfl
      rw [hsplit, Nat.add_assoc]
      rfl

theorem count_flows_eq (h : flows.foldlM x.countFlow (startDay covered) = .ok counters) :
    counters = x.counters covered flows := by
  have hfold := count_flows_from x covered start (fun _ => ⟨rfl, rfl⟩) 0 flows h
  rw [Nat.zero_add] at hfold
  exact hfold

theorem count_flows_ok_iff (counters : DayCounters) :
    (∃ result, flows.foldlM x.countFlow counters = .ok result) ↔
      ∀ flow ∈ flows, ∃ read, readFlow x.U flow = .ok read := by
  induction flows generalizing counters with
  | nil => simp [pure, Except.pure]
  | cons flow rest ih =>
    rw [foldlM_cons, forall_mem_cons]
    cases hread : readFlow x.U flow with
    | error e =>
      rw [count_flow_error x counters hread]
      simp [bind, Except.bind]
    | ok read =>
      have hstep : ∃ next, x.countFlow counters flow = .ok next := by
        simp only [DayInput.countFlow, countFlow, hread, bind, Except.bind]
        split
        · exact ⟨_, rfl⟩
        · exact ⟨_, rfl⟩
      obtain ⟨next, hnext⟩ := hstep
      rw [hnext]
      simp only [bind, Except.bind, ih next]
      exact ⟨fun h => ⟨⟨read, rfl⟩, h⟩, fun h => h.2⟩

end Counting

/-! ## The accumulated counters -/

section Accumulation

variable (x : DayInput) (covered : List CoveredRule) (coverage : DayCoverage)

/-- The later of two optional instants. -/
def laterOf (last start : Option Int) : Option Int :=
  match start, last with
  | none, last => last
  | some start, none => some start
  | some start, some last => some (if last < start then start else last)

def interfaceOf (flow : Flow) : String :=
  ((x.oriented flow).map (·.interfaceId)).getD ""

theorem step_credited {flow : Flow} (h : x.credited coverage flow = true) (cov : RuleDay) :
    x.step covered coverage cov flow =
      cov.credit (interfaceOf x flow) (x.numbers flow) (x.overlapping covered flow) := by
  simp [DayInput.step, h, interfaceOf]

theorem step_uncredited {flow : Flow} (h : ¬ x.credited coverage flow = true) (cov : RuleDay) :
    x.step covered coverage cov flow =
      { cov with matchUnassessable := cov.matchUnassessable || x.undecided coverage flow } := by
  have h : x.credited coverage flow = false := by simpa using h
  cases hundecided : x.undecided coverage flow <;>
    simp [DayInput.step, h, hundecided]

theorem undecided_of_credited {flow : Flow} (h : x.credited coverage flow = true) :
    x.undecided coverage flow = false := by
  simp only [DayInput.credited, Bool.and_eq_true, beq_iff_eq, Bool.not_eq_true'] at h
  simp [DayInput.undecided, h.1, h.2]

theorem fold_credited {β : Type} (get : RuleDay → β) {g : β → Flow → β}
    (hcredit : ∀ cov flow, get (cov.credit (interfaceOf x flow) (x.numbers flow)
      (x.overlapping covered flow)) = g (get cov) flow)
    (hkeep : ∀ cov b, get { cov with matchUnassessable := b } = get cov) (flows : List Flow)
    (cov : RuleDay) : get (flows.foldl (x.step covered coverage) cov) =
      (x.creditedFlows coverage flows).foldl g (get cov) := by
  unfold DayInput.creditedFlows
  induction flows generalizing cov with
  | nil => rfl
  | cons flow rest ih =>
    rw [foldl_cons, ih]
    by_cases hcredited : x.credited coverage flow = true
    · rw [step_credited x covered coverage hcredited, hcredit, filter_cons_of_pos hcredited]
      rfl
    · rw [step_uncredited x covered coverage hcredited, hkeep, filter_cons_of_neg hcredited]

theorem foldl_add_map {α : Type} (f : α → Int) (items : List α) (n : Int) :
    items.foldl (fun n a => n + f a) n = n + (items.map f).sum := by
  induction items generalizing n with
  | nil => simp
  | cons a items ih => rw [foldl_cons, ih, map_cons, sum_cons, Int.add_assoc]

variable (flows : List Flow) (cov : RuleDay)

theorem fold_compatible : (flows.foldl (x.step covered coverage) cov).compatible =
      cov.compatible + x.total (x.creditedFlows coverage flows) :=
  (fold_credited x covered coverage compatible (fun _ _ => rfl) (fun _ _ => rfl) flows
    cov).trans (foldl_add_map x.count _ _)

/-- The records credited to a rule and to another one. -/
theorem fold_overlap : (flows.foldl (x.step covered coverage) cov).overlap =
      cov.overlap + x.total (x.overlappingFlows covered coverage flows) := by
  rw [fold_credited x covered coverage overlap (g := fun n flow =>
    if x.overlapping covered flow then n + x.count flow else n) (fun _ _ => rfl) (fun _ _ => rfl)]
  show _ = _ + (((x.creditedFlows coverage flows).filter (x.overlapping covered)).map x.count).sum
  rw [← foldl_add_map, foldl_filter]

theorem fold_bytes : (flows.foldl (x.step covered coverage) cov).bytes =
      cov.bytes + ((x.creditedFlows coverage flows).map fun flow => (x.numbers flow).bytes).sum :=
  (fold_credited x covered coverage bytes (fun _ _ => rfl) (fun _ _ => rfl) flows
    cov).trans (foldl_add_map _ _ _)

theorem fold_undecided : (flows.foldl (x.step covered coverage) cov).matchUnassessable =
      (cov.matchUnassessable || flows.any (x.undecided coverage)) := by
  induction flows generalizing cov with
  | nil => simp
  | cons flow rest ih =>
    rw [foldl_cons, ih]
    by_cases hcredited : x.credited coverage flow = true
    · simp [step_credited x covered coverage hcredited, credit, undecided_of_credited x coverage hcredited]
    · simp only [step_uncredited x covered coverage hcredited, any_cons, Bool.or_assoc]

theorem fold_eni_ids : (flows.foldl (x.step covered coverage) cov).eniIds =
      ((x.creditedFlows coverage flows).map (interfaceOf x)).foldl (fun ids id => ids.insert id)
        cov.eniIds :=
  (fold_credited x covered coverage eniIds (fun _ _ => rfl) (fun _ _ => rfl) flows
    cov).trans foldl_map.symm

theorem fold_last_observed : (flows.foldl (x.step covered coverage) cov).lastObservedAt =
      ((x.creditedFlows coverage flows).map fun flow => (x.numbers flow).lastStart).foldl laterOf
        cov.lastObservedAt :=
  (fold_credited x covered coverage lastObservedAt (fun _ _ => rfl) (fun _ _ => rfl) flows
    cov).trans foldl_map.symm

end Accumulation

/-! ## The order of the flows -/

section Order

variable (x : DayInput) (covered : List CoveredRule) (coverage : DayCoverage)

theorem later_of_right_comm : RightCommutative laterOf := by
  refine ⟨fun last first second => ?_⟩
  cases last with
  | none =>
    cases first with
    | none => cases second <;> rfl
    | some a =>
      cases second with
      | none => rfl
      | some b =>
        simp only [laterOf, Option.some.injEq]
        split <;> split <;> omega
  | some c =>
    cases first with
    | none => cases second <;> rfl
    | some a =>
      cases second with
      | none => rfl
      | some b =>
        simp only [laterOf, Option.some.injEq]
        repeat' split
        all_goals omega

/-- The interfaces are the same, whatever the order. -/
theorem insert_all_perm {ids ids' : List String} (h : ids.Perm ids') {known known' : List String}
    (hknown : known.Perm known') :
    (ids.foldl (fun ids id => ids.insert id) known).Perm
      (ids'.foldl (fun ids id => ids.insert id) known') := by
  induction h generalizing known known' with
  | nil => exact hknown
  | cons id _ ih => exact ih (hknown.insert id)
  | swap first second rest =>
    have hfold : ∀ (rest : List String) {known known' : List String}, known.Perm known' →
        (rest.foldl (fun ids id => ids.insert id) known).Perm
          (rest.foldl (fun ids id => ids.insert id) known') := by
      intro rest
      induction rest with
      | nil => exact fun h => h
      | cons id rest ih => exact fun h => ih (h.insert id)
    exact hfold rest ((perm_insert_swap second first known).symm.trans ((hknown.insert _).insert _))
  | trans _ _ ih ih' => exact (ih (.refl known)).trans (ih' hknown)

/-- The counters as a row shows them: the interfaces are counted only. -/
structure SameCounts (cov cov' : RuleDay) : Prop where
  compatible : cov.compatible = cov'.compatible
  overlap : cov.overlap = cov'.overlap
  bytes : cov.bytes = cov'.bytes
  unassessable : cov.unassessable = cov'.unassessable
  matchUnassessable : cov.matchUnassessable = cov'.matchUnassessable
  version : cov.version = cov'.version
  lastObservedAt : cov.lastObservedAt = cov'.lastObservedAt
  eniIds : cov.eniIds.length = cov'.eniIds.length

theorem rule_day_perm {flows flows' : List Flow} (h : flows.Perm flows') :
    SameCounts (x.ruleDay covered coverage flows) (x.ruleDay covered coverage flows') := by
  have hcredited : (x.creditedFlows coverage flows).Perm (x.creditedFlows coverage flows') :=
    h.filter _
  have hsame := fold_same_coverage x covered coverage flows ⟨rfl, rfl⟩
  have hsame' := fold_same_coverage x covered coverage flows' ⟨rfl, rfl⟩
  have hcomm := later_of_right_comm
  refine ⟨?_, ?_, ?_, ?_, ?_, ?_, ?_, ?_⟩
  · simp only [DayInput.ruleDay, fold_compatible, DayInput.total, (hcredited.map _).sum_eq]
  · simp only [DayInput.ruleDay, fold_overlap, DayInput.total, DayInput.overlappingFlows,
      ((hcredited.filter _).map _).sum_eq]
  · simp only [DayInput.ruleDay, fold_bytes, (hcredited.map _).sum_eq]
  · exact hsame.1.trans hsame'.1.symm
  · simp only [DayInput.ruleDay, fold_undecided, h.any_eq]
  · exact hsame.2.trans hsame'.2.symm
  · simp only [DayInput.ruleDay, fold_last_observed]
    exact (hcredited.map _).foldl_eq _
  · simp only [DayInput.ruleDay, fold_eni_ids]
    exact (insert_all_perm (hcredited.map _) (.refl _)).length_eq

theorem activity_row_congr {counters counters' : DayCounters} {cov cov' : RuleDay}
    (hunresolved : counters.unresolvedFlowCount = counters'.unresolvedFlowCount)
    (h : SameCounts cov cov') (flags : CoverageFlags) (versions : List VersionRow) :
    activityRow counters flags versions cov = activityRow counters' flags versions cov' := by
  simp only [activityRow, hunresolved, h.compatible, h.overlap, h.bytes, h.unassessable,
    h.matchUnassessable, h.version, h.lastObservedAt, h.eniIds]

theorem activity_rows_eq (flags : CoverageFlags) (flows : List Flow) :
    activityRows (x.counters covered flows) flags covered =
      covered.map fun rule => (rule.1, activityRow (x.counters covered flows) flags rule.2.1
        (x.ruleDay covered rule.2.2 flows)) := by
  have hzip : ∀ rules : List CoveredRule,
      ((rules.map fun rule => (rule.1, x.ruleDay covered rule.2.2 flows)).zip rules).map
        (fun entry => (entry.1.1, activityRow (x.counters covered flows) flags entry.2.2.1
          entry.1.2)) =
      rules.map fun rule => (rule.1, activityRow (x.counters covered flows) flags rule.2.1
        (x.ruleDay covered rule.2.2 flows)) := by
    intro rules
    induction rules with
    | nil => rfl
    | cons rule rest ih => simp [ih]
  exact hzip covered

theorem activity_rows_perm {flows flows' : List Flow} (h : flows.Perm flows')
    (flags : CoverageFlags) :
    activityRows (x.counters covered flows) flags covered =
      activityRows (x.counters covered flows') flags covered := by
  rw [activity_rows_eq, activity_rows_eq]
  refine map_congr_left fun rule _ => ?_
  have hunresolved : (x.counters covered flows).unresolvedFlowCount =
      (x.counters covered flows').unresolvedFlowCount := (h.filter _).length_eq
  rw [activity_row_congr hunresolved (rule_day_perm x covered rule.2.2 h)]

end Order

end AwsOps.SgRules

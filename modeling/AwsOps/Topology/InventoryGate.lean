import AwsOps.Foundation.Entries
import AwsOps.Foundation.Fallible
import AwsOps.Foundation.Js

/-!
# The evidence gate of inventory publications

`inventoryAttempt` decides whether the inventory that a snapshot shows may replace the previous graph,
and `rebuildInventory` rewrites the status once the graph is built. Each required type needs a ledger
run, confirmed counts and valid clocks. `ready_iff` says what an empty list of blockers amounts to;
evidence that is weaker in one place never opens the gate.
-/

namespace AwsOps.Topology.InventoryGate

open Option

/-! ## The snapshot -/

/-- A value of a column: a text, a `Date` with its time unless invalid, a number, or anything else. -/
inductive Field
  | text (value : String)
  | date (time : Option Int)
  | num (value : JsNumber)
  | null
  deriving DecidableEq

/-- A row of `inventory_sync_runs`. -/
structure Run where
  accountId : String
  resourceType : String
  status : Field
  startedAt : Field
  finishedAt : Field
  lastSuccessAt : Field
  rowCount : Field
  unknownAttributeCount : Field

/-- A row of `inventory_snapshots`: the account took part in a run. -/
structure Point where
  resourceType : String
  resourceCount : Field
  capturedAt : Field

/-- What the gate reads of a row of `inventory_resources`. -/
structure InventoryRow where
  resourceType : String
  capturedAt : Field

structure Snapshot where
  rows : List InventoryRow
  runs : List Run
  aggregateCounts : List (String × Field)
  participation : List Point
  truncated : Bool

/-! ## The decision -/

/-- `Number.isSafeInteger`, with the integer. -/
def safeInteger : Field → Option Int
  | .num (.finite value) =>
    if value.den = 1 ∧ value.num.natAbs ≤ 9007199254740991 then some value.num else none
  | _ => none

/-- A safe integer that is not negative. -/
def count (field : Field) : Option Int :=
  (safeInteger field).filter fun n => 0 ≤ n

inductive ProducerStatus
  | succeeded | failed | partly | running | unknown
  deriving DecidableEq

inductive SourceStatus
  | ok | empty | partly | unavailable | error
  deriving DecidableEq

inductive Blocker
  | missing_ledger | source_failed | unknown_account_coverage | incomplete_collection
  | count_not_confirmed | empty_not_confirmed | unknown_capture | unknown_attributes
  deriving DecidableEq

inductive Scope
  | account | aggregate
  deriving DecidableEq

/-- What the attempt says of one type. -/
structure Source where
  sourceId : String
  scope : Scope
  status : SourceStatus
  producerStatus : ProducerStatus
  reasons : List Blocker
  itemCount : Nat
  capturedAtMs : Option Int
  lastSuccessAtMs : Option Int
  attemptedAtMs : Option Int
  finishedAtMs : Option Int

def producerStatus (run : Option Run) : ProducerStatus :=
  match run.map Run.status with
  | some (.text "succeeded") => .succeeded
  | some (.text "failed") => .failed
  | some (.text "partial") => .partly
  | some (.text "running") => .running
  | _ => .unknown

section Attempt

-- The time of a text as `Date` reads it, and the time of the decision.
variable (parse : String → Option Int) (now : Int)

def stamp (value : Field) : Option Int :=
  let ms := match value with
    | .text value => parse value
    | .date time => time
    | _ => none
  ms.filter fun ms => 0 < ms

/-- The stamp of a column of a row that may be missing. -/
def stampOf {ρ : Type} (row : Option ρ) (column : ρ → Field) : Option Int :=
  row.bind fun row => stamp parse (column row)

/-- All that is read of one type. -/
structure Inputs where
  items : List InventoryRow
  run : Option Run
  point : Option Point
  aggregate : Option Field

def Snapshot.inputs (snapshot : Snapshot) (type : String) : Inputs where
  items := snapshot.rows.filter fun row => row.resourceType == type
  run := snapshot.runs.find? fun row => row.resourceType == type && row.accountId == "self"
  point := snapshot.participation.find? fun row => row.resourceType == type
  aggregate := Entries.get snapshot.aggregateCounts type

/-- The point of the account lies in the window of the last successful run. -/
def inWindow (inputs : Inputs) : Bool :=
  match stampOf parse inputs.point Point.capturedAt, stampOf parse inputs.run Run.startedAt,
      stampOf parse inputs.run Run.finishedAt with
  | some pointAt, some started, some finished =>
    started ≤ pointAt && pointAt ≤ finished && finished ≤ now &&
      stampOf parse inputs.run Run.lastSuccessAt == some finished
  | _, _, _ => false

def participated (account : String) (inputs : Inputs) : Bool :=
  account == "self" ||
    producerStatus inputs.run == .succeeded && inWindow parse now inputs &&
      (inputs.point.bind fun point => count point.resourceCount).isSome

def countConfirmed (account : String) (inputs : Inputs) : Bool :=
  match inputs.run.bind fun run => count run.rowCount with
  | none => false
  | some rowCount =>
    inputs.aggregate == some (.num (.finite rowCount)) &&
      (account == "self" || participated parse now account inputs &&
        (inputs.point.bind fun point => safeInteger point.resourceCount) ==
          some (inputs.items.length : Int))

def unknownAttributes (inputs : Inputs) : Bool :=
  (inputs.run.bind fun run => safeInteger run.unknownAttributeCount) != some 0

/-- `capturedAtMs`. -/
def capturedAt (items : List InventoryRow) : Option Int :=
  (items.mapM fun row => stamp parse row.capturedAt).bind List.min?

def blockers (account : String) (inputs : Inputs) : List Blocker :=
  if inputs.run.isNone then [.missing_ledger]
  else if producerStatus inputs.run = .failed then [.source_failed]
  else if !participated parse now account inputs then [.unknown_account_coverage]
  else if producerStatus inputs.run ≠ .succeeded then [.incomplete_collection]
  else if inputs.items ≠ [] ∧ !countConfirmed parse now account inputs then [.count_not_confirmed]
  else if inputs.items = [] ∧
      (!(participated parse now account inputs && countConfirmed parse now account inputs) ||
        unknownAttributes inputs) then [.empty_not_confirmed]
  else if (stampOf parse inputs.run Run.lastSuccessAt).isNone ∨
      inputs.items ≠ [] ∧ (capturedAt parse inputs.items).isNone then [.unknown_capture]
  else []

/-- What is said of one type. -/
def source (account type : String) (inputs : Inputs) : Source :=
  let blockers := blockers parse now account inputs
  let reasons := blockers ++
    if inputs.run.isSome && unknownAttributes inputs then [.unknown_attributes] else []
  let lastSuccessAtMs := stampOf parse inputs.run Run.lastSuccessAt
  { sourceId := "inventory:" ++ type
    scope := if account ≠ "self" ∧ participated parse now account inputs then .account
      else .aggregate
    status := if producerStatus inputs.run = .failed then .error
      else if producerStatus inputs.run = .unknown ∨ lastSuccessAtMs.isNone ∨
          !participated parse now account inputs then .unavailable
      else if reasons ≠ [] then .partly
      else if inputs.items ≠ [] then .ok else .empty
    producerStatus := producerStatus inputs.run
    reasons := reasons
    itemCount := inputs.items.length
    capturedAtMs := capturedAt parse inputs.items
    lastSuccessAtMs := lastSuccessAtMs
    attemptedAtMs := stampOf parse inputs.run Run.startedAt
    finishedAtMs := stampOf parse inputs.run Run.finishedAt }

/-- `GraphAttempt`. -/
structure Attempt where
  status : SourceStatus
  publish : Bool
  sources : List Source
  retainedPrevious : Bool
  inputTruncated : Bool
  graphTruncated : Bool

def inventoryAttempt (snapshot : Snapshot) (types : List String) (account : String) : Attempt :=
  let required := types.eraseDups
  let safe := !required.isEmpty && !snapshot.truncated &&
    required.all fun type => (blockers parse now account (snapshot.inputs type)).isEmpty
  let sources := required.map fun type => source parse now account type (snapshot.inputs type)
  { status := if sources.any fun s => s.status == .error then .error
      else if sources.isEmpty || sources.any fun s => s.status == .unavailable then .unavailable
      else if snapshot.truncated || sources.any fun s => s.status == .partly then .partly
      else if snapshot.rows ≠ [] then .ok else .empty
    publish := safe
    sources := sources
    retainedPrevious := !safe
    inputTruncated := snapshot.truncated
    graphTruncated := false }

/-- The size of a graph: its nodes, its edges and the bytes of its text. -/
structure GraphSize where
  nodes : Nat
  edges : Nat
  bytes : Nat

/-- The size of a graph without nodes. -/
def noGraph : GraphSize :=
  ⟨0, 0, 23⟩

/-- What `rebuildInventory` makes of an attempt, given the graph built from the rows. -/
def rebuilt (attempt : Attempt) (built : GraphSize) : Attempt :=
  let graph := if attempt.publish then built else noGraph
  if 4000 < graph.nodes ∨ 8000 < graph.edges ∨ 8 * 1024 * 1024 < graph.bytes then
    { attempt with publish := false, status := .partly, retainedPrevious := true,
                   graphTruncated := true }
  else if attempt.publish ∧ attempt.status ≠ .partly then
    { attempt with status := if graph.nodes ≠ 0 then .ok else .empty }
  else attempt

end Attempt

/-! ## What opens the gate -/

section Gate

variable {parse : String → Option Int} {now : Int} {account type : String} {inputs : Inputs}
  {snapshot degraded : Snapshot} {types : List String}

variable (parse now account inputs) in
/-- Nothing blocks the type. -/
structure Ready : Prop where
  run : inputs.run.isSome
  succeeded : producerStatus inputs.run = .succeeded
  participated : participated parse now account inputs
  confirmed : countConfirmed parse now account inputs
  known : inputs.items = [] → unknownAttributes inputs = false
  lastSuccess : (stampOf parse inputs.run Run.lastSuccessAt).isSome
  captured : inputs.items ≠ [] → (capturedAt parse inputs.items).isSome

theorem ready_iff : blockers parse now account inputs = [] ↔ Ready parse now account inputs := by
  unfold blockers
  constructor
  · intro h
    split_ifs at h with hrun hfailed hscope hsucceeded hcount hempty hcapture
    simp only [not_and, Bool.not_eq_true', Bool.not_eq_false, not_not, Bool.not_eq_true,
      isNone_eq_false_iff] at hrun hscope hsucceeded hcount
    simp only [not_or, not_and, Bool.not_eq_true', Bool.or_eq_true, Bool.not_eq_true,
      isNone_eq_false_iff] at hempty hcapture
    refine ⟨hrun, hsucceeded, hscope, ?_, ?_, hcapture.1, hcapture.2⟩
    · by_cases hitems : inputs.items = []
      · have hconfirmed := (hempty hitems).1
        rw [hscope, Bool.true_and] at hconfirmed
        simpa using hconfirmed
      · exact hcount hitems
    · exact fun hitems => (hempty hitems).2
  · intro h
    have hrun : inputs.run.isNone = false := by simpa using h.run
    have hlast : (stampOf parse inputs.run Run.lastSuccessAt).isNone = false := by
      simpa using h.lastSuccess
    rw [if_neg (by simp [hrun]), if_neg (by simp [h.succeeded]),
      if_neg (by simp [h.participated]), if_neg (by simp [h.succeeded]),
      if_neg (by simp [h.confirmed]), if_neg ?_, if_neg ?_]
    · rintro (hnone | ⟨hitems, hnone⟩)
      · rw [hlast] at hnone
        cases hnone
      · have hsome := h.captured hitems
        rw [isNone_iff_eq_none] at hnone
        rw [hnone] at hsome
        cases hsome
    · intro hempty
      simp [h.participated, h.confirmed, h.known hempty.1] at hempty

variable (parse account snapshot type) in
/-- What the gate promises of a required type. -/
structure Certified : Prop where
  run : ∃ run ∈ snapshot.runs, run.resourceType = type ∧ run.accountId = "self" ∧
    run.status = .text "succeeded" ∧ (stamp parse run.lastSuccessAt).isSome ∧
    (∃ rows : Int, 0 ≤ rows ∧ safeInteger run.rowCount = some rows ∧
      Entries.get snapshot.aggregateCounts type = some (.num (.finite rows))) ∧
    (account ≠ "self" → ∃ point ∈ snapshot.participation, point.resourceType = type ∧
      safeInteger point.resourceCount = some ((snapshot.inputs type).items.length : Int) ∧
      ∃ started pointAt finished, stamp parse run.startedAt = some started ∧
        stamp parse point.capturedAt = some pointAt ∧ stamp parse run.finishedAt = some finished ∧
        started ≤ pointAt ∧ pointAt ≤ finished)
  captured : ∀ row ∈ snapshot.rows, row.resourceType = type →
    (stamp parse row.capturedAt).isSome

theorem count_eq_some {field : Field} {n : Int} (h : count field = some n) :
    safeInteger field = some n ∧ 0 ≤ n := by
  unfold count at h
  rw [filter_eq_some_iff] at h
  exact ⟨h.1, by simpa using h.2⟩

theorem status_of_succeeded {run : Run} (h : producerStatus (some run) = .succeeded) :
    run.status = .text "succeeded" := by
  unfold producerStatus at h
  split at h <;> try cases h
  rename_i heq
  simpa using heq

theorem window_times {run : Run} {point : Point} (hrun : inputs.run = some run)
    (hpoint : inputs.point = some point) (h : inWindow parse now inputs) :
    ∃ started pointAt finished, stamp parse run.startedAt = some started ∧
      stamp parse point.capturedAt = some pointAt ∧ stamp parse run.finishedAt = some finished ∧
      started ≤ pointAt ∧ pointAt ≤ finished := by
  unfold inWindow at h
  rw [hrun, hpoint] at h
  simp only [stampOf, bind_some] at h
  split at h
  · rename_i pointAt started finished hat hstarted hfinished
    simp only [Bool.and_eq_true, decide_eq_true_eq] at h
    exact ⟨started, pointAt, finished, hstarted, hat, hfinished, h.1.1.1, h.1.1.2⟩
  · cases h

theorem captured_iff {items : List InventoryRow} (h : items ≠ []) :
    (capturedAt parse items).isSome ↔ ∀ row ∈ items, (stamp parse row.capturedAt).isSome := by
  have hall : ∀ items : List InventoryRow,
      (items.mapM fun row => stamp parse row.capturedAt).isSome ↔
        ∀ row ∈ items, (stamp parse row.capturedAt).isSome := by
    intro items
    induction items with
    | nil => simp
    | cons row rest ih =>
      rw [List.forall_mem_cons, ← ih, List.mapM_cons]
      cases stamp parse row.capturedAt with
      | none => simp
      | some at' => cases rest.mapM fun row => stamp parse row.capturedAt <;> simp
  rw [← hall]
  unfold capturedAt
  obtain ⟨row, rest, rfl⟩ := List.exists_cons_of_ne_nil h
  rw [List.mapM_cons]
  cases stamp parse row.capturedAt with
  | none => rfl
  | some at' =>
    cases rest.mapM fun row => stamp parse row.capturedAt with
    | none => rfl
    | some times =>
      show (List.min? (at' :: times)).isSome ↔ true
      simp

theorem certified_of_ready (h : Ready parse now account (snapshot.inputs type)) :
    Certified parse account type snapshot := by
  obtain ⟨run, hrun⟩ := isSome_iff_exists.mp h.run
  have hfound : snapshot.runs.find? (fun row => row.resourceType == type &&
      row.accountId == "self") = some run := hrun
  have hkey := List.find?_some hfound
  simp only [Bool.and_eq_true, beq_iff_eq] at hkey
  have hsucceeded := h.succeeded
  have hlast := h.lastSuccess
  rw [hrun] at hsucceeded hlast
  have hconfirmed := h.confirmed
  unfold countConfirmed at hconfirmed
  rw [hrun, bind_some] at hconfirmed
  refine ⟨⟨run, List.mem_of_find?_eq_some hfound, hkey.1, hkey.2, status_of_succeeded hsucceeded,
    hlast, ?_, fun hmember => ?_⟩, fun row hrow htype => ?_⟩
  · cases hrows : count run.rowCount with
    | none => rw [hrows] at hconfirmed; cases hconfirmed
    | some rows =>
      rw [hrows, Bool.and_eq_true, beq_iff_eq] at hconfirmed
      obtain ⟨hsafe, hnonneg⟩ := count_eq_some hrows
      exact ⟨rows, hnonneg, hsafe, hconfirmed.1⟩
  · have hself : (account == "self") = false := beq_false_of_ne hmember
    have hparticipated := h.participated
    unfold participated at hparticipated
    rw [hself, Bool.false_or, Bool.and_eq_true, Bool.and_eq_true] at hparticipated
    obtain ⟨⟨-, hwindow⟩, hsome⟩ := hparticipated
    cases hpoint : (snapshot.inputs type).point with
    | none => rw [hpoint] at hsome; cases hsome
    | some point =>
      have hpointfound : snapshot.participation.find? (fun row => row.resourceType == type) =
          some point := hpoint
      refine ⟨point, List.mem_of_find?_eq_some hpointfound,
        eq_of_beq (List.find?_some (p := fun row : Point => row.resourceType == type)
          hpointfound), ?_, window_times hrun hpoint hwindow⟩
      cases hrows : count run.rowCount with
      | none => rw [hrows] at hconfirmed; cases hconfirmed
      | some rows =>
        rw [hrows, hself, Bool.false_or, Bool.and_eq_true, Bool.and_eq_true, hpoint,
          bind_some] at hconfirmed
        exact eq_of_beq hconfirmed.2.2
  · have hmem : row ∈ (snapshot.inputs type).items :=
      List.mem_filter.mpr ⟨hrow, beq_iff_eq.mpr htype⟩
    have hne := List.ne_nil_of_mem hmem
    exact (captured_iff hne).mp (h.captured hne) row hmem

theorem publish_iff : (inventoryAttempt parse now snapshot types account).publish ↔
    types ≠ [] ∧ snapshot.truncated = false ∧
      ∀ type ∈ types, Ready parse now account (snapshot.inputs type) := by
  have hmem : ∀ type, type ∈ types.eraseDups ↔ type ∈ types := fun type => List.mem_eraseDups
  have hempty : types.eraseDups.isEmpty = false ↔ types ≠ [] := by
    cases types with
    | nil => simp
    | cons type rest => simp [List.eraseDups_cons]
  show (!types.eraseDups.isEmpty && !snapshot.truncated && types.eraseDups.all _) = true ↔ _
  rw [Bool.and_eq_true, Bool.and_eq_true, Bool.not_eq_true', Bool.not_eq_true', hempty,
    List.all_eq_true, and_assoc]
  refine and_congr_right fun _ => and_congr_right fun _ => ?_
  simp [hmem, ready_iff]

theorem ready_of_good (h : (source parse now account type inputs).status = .ok ∨
    (source parse now account type inputs).status = .empty) :
    Ready parse now account inputs := by
  rw [← ready_iff]
  by_contra hblocked
  simp only [source] at h
  split_ifs at h with hfailed hunknown hreasons hitems
  all_goals simp_all

/-! ## Weaker evidence -/

/-- A clock is as it was or null, and a count is as it was or no integer. -/
def ClockLoses (parse : String → Option Int) (worse better : Field) : Prop :=
  worse = better ∨ stamp parse worse = none

def CountLoses (worse better : Field) : Prop :=
  worse = better ∨ safeInteger worse = none

variable (parse) in
structure RunLoses (worse better : Run) : Prop where
  status : worse.status = better.status
  startedAt : ClockLoses parse worse.startedAt better.startedAt
  finishedAt : ClockLoses parse worse.finishedAt better.finishedAt
  lastSuccessAt : ClockLoses parse worse.lastSuccessAt better.lastSuccessAt
  rowCount : CountLoses worse.rowCount better.rowCount
  unknownAttributeCount : CountLoses worse.unknownAttributeCount better.unknownAttributeCount

variable (parse) in
structure PointLoses (worse better : Point) : Prop where
  resourceCount : CountLoses worse.resourceCount better.resourceCount
  capturedAt : ClockLoses parse worse.capturedAt better.capturedAt

variable (parse) in
/-- What is read of a type is as it was, or less of it is there. -/
structure InputsLose (worse better : Inputs) : Prop where
  items : List.Forall₂ (fun row row' : InventoryRow =>
    ClockLoses parse row.capturedAt row'.capturedAt) worse.items better.items
  run : ∀ run, worse.run = some run → ∃ run', better.run = some run' ∧ RunLoses parse run run'
  point : ∀ point, worse.point = some point →
    ∃ point', better.point = some point' ∧ PointLoses parse point point'
  aggregate : ∀ field, worse.aggregate = some field →
    ∃ field', better.aggregate = some field' ∧ CountLoses field field'

theorem ClockLoses.refl (field : Field) : ClockLoses parse field field :=
  .inl rfl

theorem CountLoses.refl (field : Field) : CountLoses field field :=
  .inl rfl

theorem RunLoses.refl (run : Run) : RunLoses parse run run :=
  ⟨rfl, .inl rfl, .inl rfl, .inl rfl, .inl rfl, .inl rfl⟩

theorem PointLoses.refl (point : Point) : PointLoses parse point point :=
  ⟨.inl rfl, .inl rfl⟩

theorem InputsLose.refl (inputs : Inputs) : InputsLose parse inputs inputs :=
  ⟨List.forall₂_same.mpr fun row _ => ClockLoses.refl row.capturedAt,
    fun run h => ⟨run, h, RunLoses.refl run⟩, fun point h => ⟨point, h, PointLoses.refl point⟩,
    fun field h => ⟨field, h, CountLoses.refl field⟩⟩

theorem ClockLoses.stamp_eq {worse better : Field} (h : ClockLoses parse worse better) {ms : Int}
    (hstamp : stamp parse worse = some ms) : stamp parse better = some ms := by
  obtain rfl | hnone := h
  · exact hstamp
  · rw [hnone] at hstamp
    cases hstamp

theorem CountLoses.safe_eq {worse better : Field} (h : CountLoses worse better) {n : Int}
    (hsafe : safeInteger worse = some n) : safeInteger better = some n := by
  obtain rfl | hnone := h
  · exact hsafe
  · rw [hnone] at hsafe
    cases hsafe

theorem CountLoses.count_eq {worse better : Field} (h : CountLoses worse better) {n : Int}
    (hcount : count worse = some n) : count better = some n := by
  obtain ⟨hsafe, hnonneg⟩ := count_eq_some hcount
  rw [count, h.safe_eq hsafe]
  simpa using hnonneg

theorem safe_integer_num {field : Field} {n : Int} (h : safeInteger field = some n) :
    safeInteger (.num (.finite n)) = some n := by
  unfold safeInteger at h
  split at h
  · rename_i value
    split_ifs at h with hvalue
    obtain rfl := Option.some.inj h
    have hbound := hvalue.2
    simp [safeInteger, hbound]
  · cases h

section Mono

variable {worse better : Inputs}

theorem participated_mono (h : InputsLose parse worse better)
    (hworse : participated parse now account worse) : participated parse now account better := by
  unfold participated at hworse ⊢
  rw [Bool.or_eq_true] at hworse ⊢
  refine hworse.imp_right fun hworse => ?_
  rw [Bool.and_eq_true, Bool.and_eq_true] at hworse ⊢
  obtain ⟨⟨hsucceeded, hwindow⟩, hcount⟩ := hworse
  cases hrun : worse.run with
  | none => rw [hrun] at hsucceeded; cases hsucceeded
  | some run =>
    cases hpoint : worse.point with
    | none => rw [hpoint] at hcount; cases hcount
    | some point =>
      obtain ⟨run', hrun', hloses⟩ := h.run run hrun
      obtain ⟨point', hpoint', hless⟩ := h.point point hpoint
      obtain ⟨n, hn⟩ := isSome_iff_exists.mp hcount
      rw [hpoint, bind_some] at hn
      rw [hrun', hpoint', bind_some, hless.resourceCount.count_eq hn]
      rw [hrun] at hsucceeded
      refine ⟨⟨?_, ?_⟩, rfl⟩
      · unfold producerStatus at hsucceeded ⊢
        rw [map_some] at hsucceeded ⊢
        rwa [← hloses.status]
      · unfold inWindow at hwindow ⊢
        rw [hrun, hpoint] at hwindow
        rw [hrun', hpoint']
        simp only [stampOf, bind_some] at hwindow ⊢
        split at hwindow
        · rename_i pointAt started finished hat hstarted hfinished
          rw [hless.capturedAt.stamp_eq hat, hloses.startedAt.stamp_eq hstarted,
            hloses.finishedAt.stamp_eq hfinished]
          rw [Bool.and_eq_true, beq_iff_eq] at hwindow
          show (decide (started ≤ pointAt) && decide (pointAt ≤ finished) &&
            decide (finished ≤ now) && _) = true
          rw [Bool.and_eq_true, beq_iff_eq]
          exact ⟨hwindow.1, hloses.lastSuccessAt.stamp_eq hwindow.2⟩
        · cases hwindow

theorem count_confirmed_mono (h : InputsLose parse worse better)
    (hworse : countConfirmed parse now account worse) :
    countConfirmed parse now account better := by
  unfold countConfirmed at hworse ⊢
  cases hrun : worse.run with
  | none => rw [hrun] at hworse; cases hworse
  | some run =>
    obtain ⟨run', hrun', hloses⟩ := h.run run hrun
    rw [hrun, bind_some] at hworse
    rw [hrun', bind_some]
    cases hrows : count run.rowCount with
    | none => rw [hrows] at hworse; cases hworse
    | some rows =>
      rw [hloses.rowCount.count_eq hrows]
      rw [hrows] at hworse
      simp only [Bool.and_eq_true, Bool.or_eq_true, beq_iff_eq] at hworse ⊢
      obtain ⟨haggregate, hmember⟩ := hworse
      refine ⟨?_, hmember.imp_right fun hmember => ⟨participated_mono h hmember.1, ?_⟩⟩
      · obtain ⟨field, hfield, hsame | hnone⟩ := h.aggregate _ haggregate
        · rw [hfield, ← hsame]
        · rw [safe_integer_num (count_eq_some hrows).1] at hnone
          cases hnone
      · cases hpoint : worse.point with
        | none => rw [hpoint] at hmember; cases hmember.2
        | some point =>
          obtain ⟨point', hpoint', hless⟩ := h.point point hpoint
          have hsafe := hmember.2
          rw [hpoint, bind_some] at hsafe
          rw [hpoint', bind_some, ← h.items.length_eq]
          exact hless.resourceCount.safe_eq hsafe

theorem ready_mono (h : InputsLose parse worse better) (hworse : Ready parse now account worse) :
    Ready parse now account better := by
  obtain ⟨run, hrun⟩ := isSome_iff_exists.mp hworse.run
  obtain ⟨run', hrun', hloses⟩ := h.run run hrun
  have hitems : better.items = [] ↔ worse.items = [] := by
    rw [← List.length_eq_zero_iff, ← h.items.length_eq, List.length_eq_zero_iff]
  have hsucceeded := hworse.succeeded
  have hlast := hworse.lastSuccess
  rw [hrun] at hsucceeded hlast
  refine ⟨by rw [hrun']; rfl, ?_, participated_mono h hworse.participated,
    count_confirmed_mono h hworse.confirmed, fun hempty => ?_, ?_, fun hne => ?_⟩
  · unfold producerStatus at hsucceeded ⊢
    rw [hrun', map_some, ← hloses.status]
    exact hsucceeded
  · have hknown := hworse.known (hitems.mp hempty)
    unfold unknownAttributes at hknown ⊢
    rw [hrun, bind_some, bne_eq_false_iff_eq] at hknown
    rw [hrun', bind_some, bne_eq_false_iff_eq]
    exact hloses.unknownAttributeCount.safe_eq hknown
  · obtain ⟨ms, hms⟩ := isSome_iff_exists.mp hlast
    rw [hrun']
    show (stamp parse run'.lastSuccessAt).isSome = true
    rw [hloses.lastSuccessAt.stamp_eq hms]
    rfl
  · have hne' : worse.items ≠ [] := fun hnil => hne (hitems.mpr hnil)
    have hall := (captured_iff hne').mp (hworse.captured hne')
    refine (captured_iff hne).mpr fun row' hrow' => ?_
    obtain ⟨row, hrow, hclock⟩ := forall₂_mem_right h.items row' hrow'
    obtain ⟨ms, hms⟩ := isSome_iff_exists.mp (hall row hrow)
    rw [hclock.stamp_eq hms]
    rfl

end Mono

/-- One input of a run is degraded: a clock is null, or a count is no integer. -/
inductive RunDegrades : Run → Run → Prop
  | startedAt (run : Run) : RunDegrades run { run with startedAt := .null }
  | finishedAt (run : Run) : RunDegrades run { run with finishedAt := .null }
  | lastSuccessAt (run : Run) : RunDegrades run { run with lastSuccessAt := .null }
  | rowCount (run : Run) {value : Field} (h : safeInteger value = none) :
      RunDegrades run { run with rowCount := value }
  | unknownAttributeCount (run : Run) {value : Field} (h : safeInteger value = none) :
      RunDegrades run { run with unknownAttributeCount := value }

inductive PointDegrades : Point → Point → Prop
  | capturedAt (point : Point) : PointDegrades point { point with capturedAt := .null }
  | resourceCount (point : Point) {value : Field} (h : safeInteger value = none) :
      PointDegrades point { point with resourceCount := value }

inductive Degrades : Snapshot → Snapshot → Prop
  | truncated (s : Snapshot) : Degrades s { s with truncated := true }
  | dropRun {s : Snapshot} {before after : List Run} {run : Run}
      (h : s.runs = before ++ run :: after) : Degrades s { s with runs := before ++ after }
  | dropPoint {s : Snapshot} {before after : List Point} {point : Point}
      (h : s.participation = before ++ point :: after) :
      Degrades s { s with participation := before ++ after }
  | run {s : Snapshot} {before after : List Run} {run run' : Run}
      (h : s.runs = before ++ run :: after) (hrun : RunDegrades run run') :
      Degrades s { s with runs := before ++ run' :: after }
  | point {s : Snapshot} {before after : List Point} {point point' : Point}
      (h : s.participation = before ++ point :: after) (hpoint : PointDegrades point point') :
      Degrades s { s with participation := before ++ point' :: after }
  | row {s : Snapshot} {before after : List InventoryRow} {row : InventoryRow}
      (h : s.rows = before ++ row :: after) :
      Degrades s { s with rows := before ++ { row with capturedAt := .null } :: after }
  | aggregate {s : Snapshot} {before after : List (String × Field)} {type : String}
      {value value' : Field} (h : s.aggregateCounts = before ++ (type, value) :: after)
      (hvalue : safeInteger value' = none) :
      Degrades s { s with aggregateCounts := before ++ (type, value') :: after }

/-- At most one run of the job and one point for each type. -/
structure Single (snapshot : Snapshot) : Prop where
  runs : (snapshot.runs.map fun run => (run.resourceType, run.accountId)).Nodup
  points : (snapshot.participation.map Point.resourceType).Nodup

theorem stamp_null : stamp parse .null = none := rfl

theorem RunDegrades.loses {run run' : Run} (h : RunDegrades run run') :
    RunLoses parse run' run ∧ run'.resourceType = run.resourceType ∧
      run'.accountId = run.accountId := by
  cases h with
  | startedAt => exact ⟨{ RunLoses.refl run with startedAt := .inr stamp_null }, rfl, rfl⟩
  | finishedAt => exact ⟨{ RunLoses.refl run with finishedAt := .inr stamp_null }, rfl, rfl⟩
  | lastSuccessAt => exact ⟨{ RunLoses.refl run with lastSuccessAt := .inr stamp_null }, rfl, rfl⟩
  | rowCount h => exact ⟨{ RunLoses.refl run with rowCount := .inr h }, rfl, rfl⟩
  | unknownAttributeCount h =>
    exact ⟨{ RunLoses.refl run with unknownAttributeCount := .inr h }, rfl, rfl⟩

theorem PointDegrades.loses {point point' : Point} (h : PointDegrades point point') :
    PointLoses parse point' point ∧ point'.resourceType = point.resourceType := by
  cases h with
  | capturedAt => exact ⟨⟨.inl rfl, .inr stamp_null⟩, rfl⟩
  | resourceCount h => exact ⟨⟨.inr h, .inl rfl⟩, rfl⟩

section Find

variable {α κ : Type} {before after : List α} {x y : α}

/-- What is found once an element is gone was found before, where keys are not repeated. -/
theorem find_of_dropped {key : α → κ} {p : α → Bool} (hkey : ∀ a b, p a → p b → key a = key b)
    (h : ((before ++ x :: after).map key).Nodup) (hfound : (before ++ after).find? p = some y) :
    (before ++ x :: after).find? p = some y := by
  have hy : y ∈ before ++ after := List.mem_of_find?_eq_some hfound
  have hx : p x = false := by
    by_contra htrue
    have hsame := hkey x y (by simpa using htrue) (List.find?_some hfound)
    rw [List.map_append, List.map_cons, List.nodup_middle, List.nodup_cons, ← List.map_append]
      at h
    exact h.1 (hsame ▸ List.mem_map_of_mem hy)
  rw [List.find?_append] at hfound ⊢
  rwa [List.find?_cons_of_neg (by simp [hx])]

/-- What is found once an element is exchanged is it, or was found before. -/
theorem find_of_changed {p : α → Bool} {x' : α} (hp : p x' = p x)
    (hfound : (before ++ x' :: after).find? p = some y) :
    (before ++ x :: after).find? p = some y ∨ y = x' ∧ (before ++ x :: after).find? p = some x := by
  rw [List.find?_append] at hfound ⊢
  cases hbefore : before.find? p with
  | some z => rw [hbefore] at hfound; exact .inl hfound
  | none =>
    rw [hbefore, none_or] at hfound
    simp only [none_or]
    cases hx : p x with
    | true =>
      rw [List.find?_cons_of_pos (by rw [hp, hx])] at hfound
      rw [List.find?_cons_of_pos hx]
      exact .inr ⟨(Option.some.inj hfound).symm, rfl⟩
    | false =>
      rw [List.find?_cons_of_neg (by rw [hp, hx]; exact nofun)] at hfound
      rw [List.find?_cons_of_neg (by rw [hx]; exact nofun)]
      exact .inl hfound

end Find

theorem get_of_changed {before after : List (String × Field)} {value value' field : Field}
    {key : String} (h : Entries.get (before ++ (type, value') :: after) key = some field) :
    Entries.get (before ++ (type, value) :: after) key = some field ∨
      field = value' ∧ Entries.get (before ++ (type, value) :: after) key = some value := by
  induction before with
  | nil =>
    simp only [List.nil_append, Entries.get] at h ⊢
    split_ifs at h ⊢ with hkey
    · exact .inr ⟨(Option.some.inj h).symm, rfl⟩
    · exact .inl h
  | cons entry before ih =>
    obtain ⟨k, v⟩ := entry
    simp only [List.cons_append, Entries.get] at h ⊢
    split_ifs at h ⊢ with hkey
    · exact .inl h
    · exact ih h

theorem Degrades.inputs_lose (h : Degrades snapshot degraded) (hsingle : Single snapshot)
    (type : String) : InputsLose parse (degraded.inputs type) (snapshot.inputs type) := by
  cases h with
  | truncated => exact InputsLose.refl _
  | @dropRun before after run h =>
    refine { InputsLose.refl (snapshot.inputs type) with run := fun found hfound => ?_ }
    have hnodup := hsingle.runs
    rw [h] at hnodup
    refine ⟨found, ?_, RunLoses.refl found⟩
    show snapshot.runs.find? _ = some found
    rw [h]
    refine find_of_dropped (fun a b ha hb => ?_) hnodup hfound
    simp only [Bool.and_eq_true, beq_iff_eq] at ha hb
    rw [ha.1, ha.2, hb.1, hb.2]
  | @dropPoint before after point h =>
    refine { InputsLose.refl (snapshot.inputs type) with point := fun found hfound => ?_ }
    have hnodup := hsingle.points
    rw [h] at hnodup
    refine ⟨found, ?_, PointLoses.refl found⟩
    show snapshot.participation.find? _ = some found
    rw [h]
    exact find_of_dropped (fun a b ha hb => (eq_of_beq ha).trans (eq_of_beq hb).symm) hnodup
      hfound
  | @run before after run run' h hrun =>
    obtain ⟨hloses, htype, haccount⟩ : RunLoses parse run' run ∧
        run'.resourceType = run.resourceType ∧ run'.accountId = run.accountId := hrun.loses
    refine { InputsLose.refl (snapshot.inputs type) with run := fun found hfound => ?_ }
    have hold : (snapshot.inputs type).run = (before ++ run :: after).find? fun row =>
        row.resourceType == type && row.accountId == "self" := by rw [← h]; rfl
    have hcases : (before ++ run :: after).find? (fun row => row.resourceType == type &&
        row.accountId == "self") = some found ∨ found = run' ∧ (before ++ run :: after).find?
          (fun row => row.resourceType == type && row.accountId == "self") = some run :=
      find_of_changed (by rw [htype, haccount]) hfound
    obtain hsame | ⟨rfl, hwas⟩ := hcases
    · exact ⟨found, hold.trans hsame, RunLoses.refl found⟩
    · exact ⟨run, hold.trans hwas, hloses⟩
  | @point before after point point' h hpoint =>
    obtain ⟨hloses, htype⟩ : PointLoses parse point' point ∧
        point'.resourceType = point.resourceType := hpoint.loses
    refine { InputsLose.refl (snapshot.inputs type) with point := fun found hfound => ?_ }
    have hold : (snapshot.inputs type).point = (before ++ point :: after).find? fun row =>
        row.resourceType == type := by rw [← h]; rfl
    have hcases : (before ++ point :: after).find? (fun row => row.resourceType == type) =
        some found ∨ found = point' ∧ (before ++ point :: after).find?
          (fun row => row.resourceType == type) = some point :=
      find_of_changed (by rw [htype]) hfound
    obtain hsame | ⟨rfl, hwas⟩ := hcases
    · exact ⟨found, hold.trans hsame, PointLoses.refl found⟩
    · exact ⟨point, hold.trans hwas, hloses⟩
  | @row before after row h =>
    refine { InputsLose.refl (snapshot.inputs type) with items := ?_ }
    have hsame : ∀ rows : List InventoryRow, List.Forall₂ (fun row row' : InventoryRow =>
        ClockLoses parse row.capturedAt row'.capturedAt) rows rows :=
      fun rows => List.forall₂_same.mpr fun row _ => ClockLoses.refl row.capturedAt
    show List.Forall₂ _ (List.filter _ (before ++ _ :: after)) (List.filter _ snapshot.rows)
    rw [h, List.filter_append, List.filter_append, List.filter_cons, List.filter_cons]
    refine List.rel_append (hsame _) ?_
    split_ifs
    · exact List.Forall₂.cons (.inr stamp_null) (hsame _)
    · exact hsame _
  | @aggregate before after key value value' h hvalue =>
    refine { InputsLose.refl (snapshot.inputs type) with aggregate := fun field hfield => ?_ }
    have hold : (snapshot.inputs type).aggregate =
        Entries.get (before ++ (key, value) :: after) type := by rw [← h]; rfl
    have hcases : Entries.get (before ++ (key, value) :: after) type = some field ∨
        field = value' ∧ Entries.get (before ++ (key, value) :: after) type = some value :=
      get_of_changed hfield
    obtain hsame | ⟨rfl, hwas⟩ := hcases
    · exact ⟨field, hold.trans hsame, CountLoses.refl field⟩
    · exact ⟨value, hold.trans hwas, .inr hvalue⟩

theorem Degrades.truncated_of (h : Degrades snapshot degraded)
    (hdegraded : degraded.truncated = false) : snapshot.truncated = false := by
  cases h with
  | truncated => cases hdegraded
  | _ => exact hdegraded

theorem publish_of_good {attempt : Attempt}
    (hattempt : attempt = inventoryAttempt parse now snapshot types account)
    (h : attempt.status = .ok ∨ attempt.status = .empty) : attempt.publish := by
  subst hattempt
  rw [publish_iff]
  have hmem : ∀ type, type ∈ types.eraseDups ↔ type ∈ types := fun type => List.mem_eraseDups
  simp only [inventoryAttempt] at h
  split_ifs at h with herror hunavailable hpartly hrows
  all_goals
    first
      | (obtain h | h := h <;> cases h; done)
      | skip
  all_goals
    simp only [Bool.or_eq_true, List.any_eq_true, List.mem_map, not_or, not_exists, not_and,
      beq_iff_eq, forall_exists_index, and_imp, forall_apply_eq_imp_iff₂, Bool.not_eq_true,
      List.isEmpty_eq_false_iff, ne_eq, List.map_eq_nil_iff] at herror hunavailable hpartly
    refine ⟨fun hnil => hunavailable.1 (by rw [hnil]; rfl), hpartly.1, fun type htype => ?_⟩
    have hrequired := (hmem type).mpr htype
    have h1 := herror type hrequired
    have h2 := hunavailable.2 type hrequired
    have h3 := hpartly.2 type hrequired
    apply ready_of_good
    show (source parse now account type (snapshot.inputs type)).status = .ok ∨
      (source parse now account type (snapshot.inputs type)).status = .empty
    cases hstatus : (source parse now account type (snapshot.inputs type)).status with
    | ok => exact .inl rfl
    | empty => exact .inr rfl
    | partly => exact absurd hstatus h3
    | unavailable => exact absurd hstatus h2
    | error => exact absurd hstatus h1

/-- After the rewrite too. -/
theorem rebuilt_of_good {attempt : Attempt} {built : GraphSize}
    (hattempt : (attempt.status = .ok ∨ attempt.status = .empty) → attempt.publish)
    (h : (rebuilt attempt built).status = .ok ∨ (rebuilt attempt built).status = .empty) :
    (rebuilt attempt built).publish := by
  unfold rebuilt at h ⊢
  generalize (if attempt.publish then built else noGraph) = graph at h ⊢
  dsimp only at h ⊢
  split_ifs at h ⊢ with hgraph hpublish
  · obtain h | h := h <;> cases h
  · exact hpublish.1
  · exact hpublish.1
  · exact hattempt h

structure GateLaw (parse : String → Option Int) (now : Int) (account : String)
    (types : List String) : Prop where
  sound : ∀ snapshot, (inventoryAttempt parse now snapshot types account).publish →
    types ≠ [] ∧ snapshot.truncated = false ∧
      ∀ type ∈ types, Certified parse account type snapshot
  good : ∀ snapshot, ((inventoryAttempt parse now snapshot types account).status = .ok ∨
      (inventoryAttempt parse now snapshot types account).status = .empty) →
    (inventoryAttempt parse now snapshot types account).publish
  good_rebuilt : ∀ snapshot built,
    ((rebuilt (inventoryAttempt parse now snapshot types account) built).status = .ok ∨
      (rebuilt (inventoryAttempt parse now snapshot types account) built).status = .empty) →
    (rebuilt (inventoryAttempt parse now snapshot types account) built).publish
  monotone : ∀ snapshot degraded, Single snapshot → Degrades snapshot degraded →
    (inventoryAttempt parse now degraded types account).publish →
      (inventoryAttempt parse now snapshot types account).publish

theorem inventory_gate (parse : String → Option Int) (now : Int) (account : String)
    (types : List String) : GateLaw parse now account types where
  sound snapshot h := by
    obtain ⟨htypes, htruncated, hready⟩ := publish_iff.mp h
    exact ⟨htypes, htruncated, fun type htype => certified_of_ready (hready type htype)⟩
  good snapshot h := publish_of_good rfl h
  good_rebuilt snapshot built h := rebuilt_of_good (publish_of_good rfl) h
  monotone snapshot degraded hsingle hdegrades h := by
    obtain ⟨htypes, htruncated, hready⟩ := publish_iff.mp h
    exact publish_iff.mpr ⟨htypes, hdegrades.truncated_of htruncated, fun type htype =>
      ready_mono (hdegrades.inputs_lose hsingle type) (hready type htype)⟩

end Gate

/-- A snapshot of one resource that opens the gate. -/
example : (inventoryAttempt (fun _ => none) 10
    { rows := [⟨"vpc", .date (some 5)⟩]
      runs := [⟨"self", "vpc", .text "succeeded", .date (some 1), .date (some 6), .date (some 6),
        .num (.finite 1), .num (.finite 0)⟩]
      aggregateCounts := [("vpc", .num (.finite 1))]
      participation := []
      truncated := false } ["vpc"] "self").publish = true := by
  decide +kernel

end AwsOps.Topology.InventoryGate

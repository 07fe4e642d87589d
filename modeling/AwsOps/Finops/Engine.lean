import AwsOps.Foundation.Text
import AwsOps.Foundation.Threads

/-!
# The FinOps engine

A run evaluates every active rule of the catalog, upserts a finding for each item that a rule
returned, resolves the findings of the rule that it did not see, and asks the model for the
explanations that are missing. Every statement commits on its own, so two runs interleave
statement by statement. What the rules and the model answer, the order in which a `SELECT` returns
its rows and the texts of the errors come from outside.

The evidence is a JSONB value: `J` is the type of these values, with `∅` for `{}`.
-/

namespace AwsOps.Finops

open Text (Unicode lower)

/-! ## The catalog -/

/-- The rules of the catalog. -/
inductive Rule
  | ebsUnattached | ec2Rightsizing | rdsRightsizing | tagCoverageSpendDetail
  | bedrockTokenLineItems
  deriving DecidableEq

def rules : List Rule :=
  [.ebsUnattached, .ec2Rightsizing, .rdsRightsizing, .tagCoverageSpendDetail,
    .bedrockTokenLineItems]

/-- The identifier of a rule. -/
def Rule.id : Rule → String
  | .ebsUnattached => "ebs_unattached"
  | .ec2Rightsizing => "ec2_rightsizing"
  | .rdsRightsizing => "rds_rightsizing"
  | .tagCoverageSpendDetail => "tag_coverage_spend_detail"
  | .bedrockTokenLineItems => "bedrock_token_line_items"

/-- The status of a rule is `active`. The others need line items that the engine does not read. -/
def Rule.active : Rule → Bool
  | .ebsUnattached | .ec2Rightsizing | .rdsRightsizing => true
  | .tagCoverageSpendDetail | .bedrockTokenLineItems => false

def activeRules : List Rule :=
  rules.filter Rule.active

/-! ## The items of a rule and the guards -/

variable {J : Type}

/-- An item that a rule returns. -/
structure Item (J : Type) where
  resourceId : String
  title : String
  category : String
  accountId : Option String
  region : Option String
  monthlySavingsUsd : Option Rat
  evidence : Option J
  tags : Option (List (String × String))
  lookbackDays : Option Rat
  stale : Bool

/-- `value or default` on a text. -/
def orDefault (value : Option String) (default : String) : String :=
  match value with
  | some text => if text = "" then default else text
  | none => default

/-- The account, the region and the resource of an item or a finding. -/
structure Scope where
  accountId : String
  region : String
  resourceId : String
  deriving DecidableEq

/-- The scope under which an item is stored. -/
def Item.scope (item : Item J) : Scope :=
  ⟨orDefault item.accountId "self", orDefault item.region "", item.resourceId⟩

/-- The separator `\x1f`, `chr(31)`. -/
def unitSeparator : String :=
  (Char.ofNat 31).toString

/-- The scoped identifier of the seen items, and of a row in `_resolve_stale`. -/
def Scope.scopedId (scope : Scope) : String :=
  scope.accountId ++ unitSeparator ++ scope.region ++ unitSeparator ++ scope.resourceId

def protectedTagKeys : List String :=
  ["dr", "disaster-recovery", "compliance", "retention", "do-not-delete", "donotdelete"]

def falsy : List String :=
  ["false", "0", "no", ""]

def protectedTag (U : Unicode) (tags : Option (List (String × String))) : Option String :=
  ((tags.getD []).find? fun tag =>
    protectedTagKeys.contains (lower U tag.1) && !falsy.contains (lower U tag.2)).map
      fun tag => "protected_tag:" ++ tag.1

def minObservationDays : Rat :=
  14

def insufficientObservation (lookbackDays : Option Rat) : Option String :=
  match lookbackDays with
  | some days => if days < minObservationDays then some "insufficient_observation_period" else none
  | none => none

def staleRowData (isStale : Bool) : Option String :=
  if isStale then some "stale_inventory_data" else none

def guardHits (U : Unicode) (item : Item J) : List String :=
  [protectedTag U item.tags, insufficientObservation item.lookbackDays,
    staleRowData item.stale].reduceOption

/-! ## The rows -/

/-- What the prompt of an explanation is built from. -/
structure Prompt (J : Type) where
  title : String
  category : String
  monthlySavingsUsd : Option Rat
  evidence : J
  deriving DecidableEq

/-- What the finding of an item will say. -/
def Item.prompt [EmptyCollection J] (item : Item J) : Prompt J :=
  ⟨item.title, item.category, item.monthlySavingsUsd, item.evidence.getD ∅⟩

/-- The status of a finding. -/
inductive Status
  | active | needsReview | resolved
  deriving DecidableEq

/-- The status that the guards decide. -/
def statusOf (hits : List String) : Status :=
  if hits = [] then .active else .needsReview

/-- A row of `finops_findings`. -/
structure Finding (J : Type) where
  id : Nat
  runId : Nat
  rule : Rule
  scope : Scope
  prompt : Prompt J
  status : Status
  guardHits : List String
  explanation : Option String
  deriving DecidableEq

inductive RunStatus
  | running | succeeded | partially | failed
  deriving DecidableEq

/-- What a run writes into its row when it ends. -/
structure Summary where
  status : RunStatus
  rulesEvaluated : Nat
  findingsCount : Nat
  ceApiCalls : Nat
  error : Option String
  deriving DecidableEq

/-- A row of `finops_runs`. -/
structure RunRow where
  id : Nat
  summary : Summary
  deriving DecidableEq

/-- The tables, with the next value of the sequence of identifiers, the monotonic clock, and the
calls of the model so far with what they returned. -/
structure Ledger (J : Type) where
  findings : List (Finding J)
  nextId : Nat
  runs : List RunRow
  clock : Nat
  generated : List (Prompt J × Option String)

/-- The row that `_upsert_finding` leaves where there was one. The explanation stays if nothing
that its prompt was built from has changed. -/
def Finding.update [EmptyCollection J] [DecidableEq J] (finding : Finding J) (runId : Nat)
    (item : Item J) (status : Status) (hits : List String) : Finding J :=
  { finding with
    runId := runId
    prompt := item.prompt
    status := status
    guardHits := hits
    explanation := if finding.prompt = item.prompt then finding.explanation else none }

/-- `_upsert_finding`: the identifier of the row, and the table. The sequence advances in both
branches. -/
def Ledger.upsertFinding [EmptyCollection J] [DecidableEq J] (t : Ledger J) (runId : Nat)
    (rule : Rule) (item : Item J) (status : Status) (hits : List String) : Nat × Ledger J :=
  match t.findings.find? fun f => f.rule = rule && f.scope = item.scope with
  | some found =>
    (found.id,
      { t with
        nextId := t.nextId + 1
        findings := t.findings.map fun f =>
          if f.rule = rule ∧ f.scope = item.scope then f.update runId item status hits else f })
  | none =>
    (t.nextId,
      { t with
        nextId := t.nextId + 1
        findings := t.findings ++
          [⟨t.nextId, runId, rule, item.scope, item.prompt, status, hits, none⟩] })

/-- `list(seen_scoped_ids) or [""]`. -/
def seenOrBlank (seen : List String) : List String :=
  if seen = [] then [""] else seen

/-- `_resolve_stale` resolves this row. -/
def Finding.stale (rule : Rule) (seen : List String) (f : Finding J) : Prop :=
  f.rule = rule ∧ f.status ≠ .resolved ∧ f.scope.scopedId ∉ seenOrBlank seen

instance (rule : Rule) (seen : List String) (f : Finding J) : Decidable (f.stale rule seen) :=
  inferInstanceAs (Decidable (_ ∧ _))

def Ledger.resolveStale (t : Ledger J) (rule : Rule) (seen : List String) : Ledger J :=
  { t with findings := t.findings.map fun f =>
      if f.stale rule seen then { f with status := .resolved } else f }

/-- The row lacks an explanation. -/
def Finding.pending (f : Finding J) : Bool :=
  f.status ≠ .resolved && f.explanation.isNone

/-- A row as the explanation pass selects it. -/
structure Row (J : Type) where
  id : Nat
  prompt : Prompt J

/-- The columns that the explanation pass selects. -/
def Finding.row (f : Finding J) : Row J :=
  ⟨f.id, f.prompt⟩

/-- The `UPDATE` of the explanation pass. -/
def Ledger.setExplanation (t : Ledger J) (id : Nat) (text : String) : Ledger J :=
  { t with findings := t.findings.map fun f =>
      if f.id = id then { f with explanation := some text } else f }

def Ledger.startRun (t : Ledger J) : Nat × Ledger J :=
  (t.runs.length + 1,
    { t with runs := t.runs ++ [⟨t.runs.length + 1, ⟨.running, 0, 0, 0, none⟩⟩] })

def Ledger.finishRun (t : Ledger J) (runId : Nat) (summary : Summary) : Ledger J :=
  { t with runs := t.runs.map fun row =>
      if row.id = runId then { row with summary := summary } else row }

/-! ## The program -/

/-- How a rule fared: the items that it returned, or the text of the exception it raised. -/
inductive Outcome (J : Type)
  | returned (items : List (Item J))
  | raised (message : String)

/-- What comes of a rule: its outcome and the calls that it counted. -/
structure Evaluation (J : Type) where
  outcome : Outcome J
  ceCalls : Nat

/-- A statement, the evaluation of a rule, a reading of the clock, or a call of the model. -/
inductive Statement (J : Type)
  | startRun
  | evaluate (rule : Rule)
  | upsertFinding (runId : Nat) (rule : Rule) (item : Item J) (status : Status)
      (hits : List String)
  | resolveStale (rule : Rule) (seen : List String)
  | monotonic
  | selectPending
  | explain (prompt : Prompt J)
  | setExplanation (id : Nat) (text : String)
  | finishRun (runId : Nat) (summary : Summary)

/-- What a statement returns. Where the engine catches an exception, its text may come instead. -/
abbrev Answer : Statement J → Type
  | .startRun => Nat
  | .evaluate _ => Evaluation J
  | .upsertFinding .. => Except String Nat
  | .resolveStale .. => Except String Unit
  | .monotonic => Nat
  | .selectPending => Except String (List (Row J))
  | .explain _ => Option String
  | .setExplanation .. => Except String Unit
  | .finishRun .. => Except String Unit

/-- A run or a part of it. -/
abbrev Engine (J : Type) (α : Type) := Program (Statement J) Answer α

def issue (c : Statement J) : Engine J (Answer c) :=
  Program.command c

/-- The counters of a run and the rules that failed, with the text of their exceptions. -/
structure Progress where
  evaluated : Nat
  persisted : Nat
  ceCalls : Nat
  failedRules : List (Rule × String)

/-- The first characters of a text. -/
def clip (n : Nat) (text : String) : String :=
  String.ofList (text.toList.take n)

/-- The loop over the items of a rule: the counters, and the text of an exception. -/
def upsertItems (U : Unicode) (runId : Nat) (rule : Rule) :
    List (Item J) → Progress → Engine J (Progress × Option String)
  | [], progress => pure (progress, none)
  | item :: rest, progress => do
      let hits := guardHits U item
      match ← issue (.upsertFinding runId rule item (statusOf hits) hits) with
      | .error message => pure (progress, some message)
      | .ok _ => upsertItems U runId rule rest { progress with persisted := progress.persisted + 1 }

/-- The scoped identifiers of the items of a rule. -/
def seenScopedIds (items : List (Item J)) : List String :=
  items.map fun item => item.scope.scopedId

/-- The counters after the evaluation of a rule. -/
def Progress.evaluate (progress : Progress) (ceCalls : Nat) : Progress :=
  { progress with evaluated := progress.evaluated + 1, ceCalls := progress.ceCalls + ceCalls }

/-- The loop over the rules. A rule that raises is noted and skipped. -/
def evaluateRules (U : Unicode) (runId : Nat) :
    List Rule → Progress → Engine J (Progress × Option String)
  | [], progress => pure (progress, none)
  | rule :: rest, progress => do
      let evaluation ← issue (.evaluate rule)
      let progress := progress.evaluate evaluation.ceCalls
      match evaluation.outcome with
      | .raised message =>
        evaluateRules U runId rest
          { progress with failedRules := progress.failedRules ++ [(rule, clip 500 message)] }
      | .returned items =>
        match ← upsertItems U runId rule items progress with
        | (progress, some message) => pure (progress, some message)
        | (progress, none) =>
          match ← issue (.resolveStale rule (seenScopedIds items)) with
          | .error message => pure (progress, some message)
          | .ok _ => evaluateRules U runId rest progress

def explainBudgetSeconds : Nat :=
  300

/-- The loop of the explanation pass, up to the deadline. The value is the text of an exception. -/
def explainRows (deadline : Nat) : List (Row J) → Engine J (Option String)
  | [] => pure none
  | row :: rest => do
      let now ← issue .monotonic
      if deadline ≤ now then pure none
      else
        match ← issue (.explain row.prompt) with
        | none => explainRows deadline rest
        | some text =>
          if text = "" then explainRows deadline rest
          else
            match ← issue (.setExplanation row.id text) with
            | .error message => pure (some message)
            | .ok _ => explainRows deadline rest

def explainPending : Engine J (Option String) := do
  let now ← issue .monotonic
  match ← issue .selectPending with
  | .error message => pure (some message)
  | .ok rows => explainRows (now + explainBudgetSeconds) rows

/-- What a run writes when it ends. -/
def Progress.summary (progress : Progress) (status : RunStatus) (error : Option String) : Summary :=
  ⟨status, progress.evaluated, progress.persisted, progress.ceCalls, error⟩

/-- The text of the failed rules. -/
def Progress.failures (progress : Progress) : String :=
  clip 2000 ("; ".intercalate (progress.failedRules.map fun failed => failed.1.id ++ ": " ++ failed.2))

/-- The summary of a run in which no statement raised. -/
def Progress.ending (progress : Progress) : Summary :=
  if progress.failedRules = [] then progress.summary .succeeded none
  else progress.summary .partially (some progress.failures)

/-- The `except` branch: note the exception on the row of the run and raise it again. -/
def abandon (runId : Nat) (progress : Progress) (message : String) :
    Engine J (Except String Summary) := do
  let _ ← issue (.finishRun runId (progress.summary .failed (some (clip 2000 message))))
  pure (.error message)

def run (U : Unicode) : Engine J (Except String Summary) := do
  let runId ← issue .startRun
  match ← evaluateRules U runId activeRules ⟨0, 0, 0, []⟩ with
  | (progress, some message) => abandon runId progress message
  | (progress, none) =>
    match ← explainPending with
    | some message => abandon runId progress message
    | none =>
      match ← issue (.finishRun runId progress.ending) with
      | .error message => abandon runId progress message
      | .ok _ => pure (.ok progress.ending)

/-! ## The machine -/

/-- What comes from outside: the evaluation of a rule in a run, the answer to the `n`-th call of
the model, the order in which rows come back, and the texts of the exceptions. -/
structure World (J : Type) where
  evaluate : Nat → Rule → Evaluation J
  explain : Nat → Prompt J → Option String
  order : List (Finding J) → List (Finding J)
  order_perm : ∀ rows, (order rows).Perm rows
  exception : Nat → Statement J → String

/-- The `SELECT` of the explanation pass. -/
def Ledger.selectPending (t : Ledger J) (world : World J) : List (Row J) :=
  ((world.order (t.findings.filter Finding.pending)).take 200).map Finding.row

variable [EmptyCollection J] [DecidableEq J]

/-- Run `i` executes a statement. -/
def exec (world : World J) (i : Nat) :
    (c : Statement J) → Ledger J → Option (Answer c × Ledger J)
  | .startRun, t => some t.startRun
  | .evaluate rule, t => some (world.evaluate i rule, t)
  | .upsertFinding runId rule item status hits, t =>
    let written := t.upsertFinding runId rule item status hits
    some (.ok written.1, written.2)
  | .resolveStale rule seen, t => some (.ok (), t.resolveStale rule seen)
  | .monotonic, t => some (t.clock, t)
  | .selectPending, t => some (.ok (t.selectPending world), t)
  | .explain prompt, t =>
    let text := world.explain t.generated.length prompt
    some (text, { t with generated := t.generated ++ [(prompt, text)] })
  | .setExplanation id text, t => some (.ok (), t.setExplanation id text)
  | .finishRun runId summary, t => some (.ok (), t.finishRun runId summary)

/-- The exceptions that a run catches: those of the statements between `_start_run` and the
`_finish_run` of the `except` branch. The evaluation of a rule and the call of the model turn
theirs into an answer. -/
def caught (world : World J) (i : Nat) : (c : Statement J) → Option (Answer c)
  | .startRun | .evaluate _ | .monotonic | .explain _ => none
  | .finishRun runId summary =>
    if summary.status = .failed then none
    else some (.error (world.exception i (.finishRun runId summary)))
  | .upsertFinding runId rule item status hits =>
    some (.error (world.exception i (.upsertFinding runId rule item status hits)))
  | .resolveStale rule seen => some (.error (world.exception i (.resolveStale rule seen)))
  | .selectPending => some (.error (world.exception i .selectPending))
  | .setExplanation id text => some (.error (world.exception i (.setExplanation id text)))

/-- The runs on the tables. The environment lets seconds pass. -/
def machine (U : Unicode) (world : World J) :
    Machine (Statement J) Answer (Ledger J) Unit Nat (Except String Summary) where
  worker _ := run U
  exec := exec world
  caught i c _ := caught world i c
  abort _ t := t
  environment seconds t := { t with clock := t.clock + seconds }

end AwsOps.Finops

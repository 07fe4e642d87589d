import AwsOps.Remediation.Plan

/-!
# From the queue message to the executor

The dispatcher makes the input of a state-machine execution of a queue message. The states read
their tasks' parameters from the state document, which the approval callback replaces by its own
output. The Lambda branch hands the document's payload to the executor, the Fargate branch the
payload of the ledger row. The executor calls one function of the action's entry, or none.
-/

namespace AwsOps.Remediation

open Js (Fields)

/-- The truth value of a JSON value in Python. -/
def truthy : Js → Bool
  | .null => false
  | .bool value => value
  | .num value => value != .finite 0
  | .str text => text != ""
  | .arr items => !items.isEmpty
  | .obj fields => !fields.isEmpty

/-- The input of the execution that the dispatcher starts for an action message. `none` is the
`KeyError` of a message without a job or an action. -/
def executionInput (body : Fields) : Option Fields := do
  let jobId ← Js.get body "job_id"
  let action ← Js.get body "action"
  pure [("job_id", jobId), ("plan_id", (Js.get body "plan_id").getD .null), ("action", action),
    ("payload", (Js.get body "payload").getD (.obj [])),
    ("dry_run", .bool (truthy ((Js.get body "dry_run").getD (.bool false)))),
    ("runtime", (Js.get body "executor_type").getD (.str "lambda"))]

/-! ## The tasks of the state machine -/

/-- The value at a reference path of the state document. -/
def path (names : List String) (document : Js) : Option Js :=
  names.foldlM (fun value name =>
    match value with
    | .obj fields => Js.get fields name
    | _ => none) document

/-- The branch that `Route` takes. -/
def route (document : Fields) : Option ExecutorType :=
  match Js.get document "runtime" with
  | some (.str "ssm") => some .ssm
  | some (.str "lambda") => some .lambda
  | some (.str "fargate") => some .fargate
  | _ => none

/-- The event of `RunCodeLambda`. -/
def runCodeLambda (document : Fields) : Option Fields := do
  let jobId ← path ["job_id"] (.obj document)
  let planId ← path ["plan_id"] (.obj document)
  let action ← path ["action"] (.obj document)
  let payload ← path ["payload"] (.obj document)
  pure [("job_id", jobId), ("plan_id", planId), ("action", action), ("payload", payload),
    ("phase", .str "execute")]

/-- The event that the command line of `RunCodeFargate` builds, with the payload of the job's
ledger row; a missing row and a payload that is no object count as empty. -/
def runCodeFargate (ledger : Option Js) (document : Fields) : Option Fields := do
  let jobId ← path ["job_id"] (.obj document)
  let action ← path ["action"] (.obj document)
  let payload : Fields := match ledger with
    | some (.obj fields) => fields
    | _ => []
  pure [("job_id", jobId), ("action", action), ("phase", .str "execute"),
    ("payload", .obj payload)]

/-- The event of `Rollback`. -/
def rollbackEvent (document : Fields) : Option Fields := do
  let jobId ← path ["job_id"] (.obj document)
  let planId ← path ["plan_id"] (.obj document)
  let action ← path ["action"] (.obj document)
  let rollbackPlan ← path ["payload", "rollback_plan"] (.obj document)
  pure [("job_id", jobId), ("plan_id", planId), ("action", action), ("phase", .str "rollback"),
    ("rollback_plan", rollbackPlan)]

/-! ## The executor -/

/-- The actions that the executor knows, and whether they have a rollback function. -/
def executable : List (String × Bool) :=
  [("app-feature-flag-set", true), ("opscenter-create-opsitem", true),
    ("incident-manager-enrich", false), ("slack.post_message", false)]

/-- What one invocation of the executor does. -/
inductive Call where
  | raised
  | dryRun (payload : Js)
  | rollback (rollbackPlan : Js)
  | skipped
  | run (payload : Js)

/-- What an invocation finds outside its event: whether the action passes the gate, whether its
role can be assumed, and how many rows the claim updates. -/
structure Surroundings where
  gatePasses : Bool
  roleAssumed : Bool
  claimed : Nat

def lambdaHandler (surroundings : Surroundings) (event : Fields) : Call :=
  match Js.get event "job_id", Js.get event "action" with
  | some _, some (.str action) =>
    let phase := (Js.get event "phase").getD (.str "execute")
    let payload := (Js.get event "payload").getD (.obj [])
    let dryRun := truthy ((Js.get event "dry_run").getD (.bool false))
    if !surroundings.gatePasses || !surroundings.roleAssumed then .raised
    else
      match executable.lookup action with
      | none => .raised
      | some hasRollback =>
        match phase with
        | .str "dry_run" => .dryRun payload
        | .str "rollback" =>
          if dryRun then .dryRun payload
          else if hasRollback then
            .rollback ((Js.get event "rollback_plan").getD (.obj []))
          else .raised
        | _ =>
          if dryRun then .dryRun payload
          else if surroundings.claimed = 0 then .skipped
          else .run payload
  | _, _ => .raised

/-- The event of the task that runs the action in a branch. The SSM branch starts an automation
instead of the executor. -/
def runEvent (ledger : Option Js) (document : Fields) : Option Fields :=
  match route document with
  | some .lambda => runCodeLambda document
  | some .fargate => runCodeFargate ledger document
  | _ => none

end AwsOps.Remediation

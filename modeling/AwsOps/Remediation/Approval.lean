import AwsOps.Foundation.Threads
import AwsOps.Remediation.Plan

/-!
# Planning, approving and canceling

The requests of administrators as programs over the statements that they issue: creating a plan,
canceling one, and approving one, which updates the plan, inserts the ledger row and sends the
queue message one after the other. Requests interleave at every statement, statements raise, and
requests die between any two of them, also right after a statement whose answer is lost. A request
draws at most one identifier and identifiers do not repeat, so the identifier that a request draws
is named after the request.
-/

namespace AwsOps.Remediation

open Js (Fields)

/-- An identifier: drawn by a request, or older than the requests. -/
inductive Uuid where
  | drawn (request : Nat)
  | earlier (n : Nat)
  deriving DecidableEq

/-- An e-mail address. -/
structure EmailAddress where
  text : String
  address : '@' ∈ text.toList

/-- What a verified token says about its user. -/
structure Token where
  sub : String
  email : Option EmailAddress
  emailVerified : Bool

/-- The user that `verifyUser` returns: only a verified e-mail is adopted. -/
structure User where
  sub : String
  email : Option String

def Token.user (token : Token) : User :=
  ⟨token.sub, if token.emailVerified then token.email.map EmailAddress.text else none⟩

/-- Every key that the user could have been recorded under. -/
def identityKeys (user : User) : List String :=
  match user.email with
  | some email => if email = "" then [user.sub] else [user.sub, email]
  | none => [user.sub]

/-- The values of `action_plans.status`. -/
inductive PlanStatus where
  | planned | approved | executing | succeeded | failed | canceled | expired
  deriving DecidableEq

/-- The approval of a plan as it happened: whose token, when, and the status before it. -/
structure Approval where
  token : Token
  time : Int
  status : PlanStatus

/-- A row of `action_plans`, with the history of its approval. -/
structure Plan where
  id : Uuid
  actionName : String
  inputs : Inputs
  rollbackPlan : Js
  status : PlanStatus
  createdBy : String
  approvedBy : Option String
  jobId : Option Uuid
  expiresAt : Int
  approval : Option Approval

/-- The part of a plan that approving it sends on. -/
def Plan.row (plan : Plan) (text : Uuid → String) : PlanRow :=
  ⟨text plan.id, plan.actionName, plan.inputs, plan.rollbackPlan⟩

/-- A row of `worker_jobs` of type `action`. -/
structure ActionJob where
  jobId : Uuid
  planId : Uuid
  payload : Fields

/-- A message in the jobs queue. -/
structure Message where
  jobId : Uuid
  planId : Uuid
  body : Fields

/-- A row of the action catalog. -/
structure CatalogEntry where
  action : CatalogRow
  enabled : Bool

/-- The tables, the queue, the clock of the database and the kill-switches, with two histories: the
jobs whose approval is in and whose ledger row is not, and the plans that a cancel did not find
open or canceled. Times are in microseconds. -/
structure Store where
  plans : List Plan
  jobs : List ActionJob
  messages : List Message
  catalog : List CatalogEntry
  now : Int
  killSwitch : Bool → Bool
  pending : List Uuid
  missed : List Uuid

/-! ## Statements -/

/-- A statement of a request. -/
inductive Statement where
  | getPlan (planId : Uuid)
  | createPlan (token : Token) (actionName : String) (inputs : Inputs) (rollbackPlan : Js)
  | cancel (planId : Uuid)
  | getAction (name : String)
  | killSwitchOn (external : Bool)
  | recordAudit (decision : String)
  | setApprovedAndExecuting (planId : Uuid) (approver : Token)
  | insertJob (job : ActionJob)
  | sendMessage (message : Message)

/-- The answers: a plan comes with whether it has expired, an approval gives the job it names. -/
abbrev Statement.Answer : Statement → Type
  | getPlan _ => Option (Plan × Bool)
  | createPlan .. => Uuid
  | getAction _ => Option CatalogEntry
  | killSwitchOn _ => Bool
  | setApprovedAndExecuting .. => Option Uuid
  | _ => Unit

/-- The programs of requests. -/
abbrev Handler (α : Type) : Type :=
  Program Statement Statement.Answer α

def run (c : Statement) : Handler c.Answer :=
  Program.command c

/-- A plan that a cancel closes. -/
def Plan.open (plan : Plan) : Bool :=
  plan.status == .planned || plan.status == .approved

/-- The guard of the approving update: 4-eyes and not expired. -/
def Plan.approvable (plan : Plan) (now : Int) (approver : Token) : Bool :=
  plan.status == .planned && decide (now < plan.expiresAt) &&
    !(identityKeys approver.user).contains plan.createdBy

/-- The cancel's update of a plan. -/
def Plan.cancel (planId : Uuid) (plan : Plan) : Plan :=
  if plan.id = planId ∧ plan.open then { plan with status := .canceled } else plan

def Plan.approve (planId jobId : Uuid) (now : Int) (approver : Token) (plan : Plan) : Plan :=
  if plan.id = planId ∧ plan.approvable now approver then
    { plan with
      status := .executing
      approvedBy := some (approver.user.email.getD approver.user.sub)
      jobId := some jobId
      approval := some ⟨approver, now, plan.status⟩ }
  else plan

/-- A cancel finds the plan open, or canceled already. -/
def Store.cancelable (s : Store) (planId : Uuid) : Bool :=
  s.plans.any fun plan => plan.id == planId && (plan.open || plan.status == .canceled)

def Store.exec (request : Nat) : (c : Statement) → Store → Option (c.Answer × Store)
  | .getPlan planId, s =>
    some ((s.plans.find? fun plan => plan.id == planId).map fun plan =>
      (plan, decide (plan.expiresAt < s.now)), s)
  | .createPlan token actionName inputs rollbackPlan, s =>
    some (.drawn request, { s with plans := s.plans ++
      [⟨.drawn request, actionName, inputs, rollbackPlan, .planned, token.user.sub, none, none,
        s.now + 5 * 60 * 1000000, none⟩] })
  | .cancel planId, s =>
    some ((), { s with
      plans := s.plans.map (Plan.cancel planId)
      missed := if s.cancelable planId then s.missed else planId :: s.missed })
  | .getAction name, s => some (s.catalog.find? fun entry => entry.action.name == name, s)
  | .killSwitchOn external, s => some (s.killSwitch external, s)
  | .recordAudit _, s => some ((), s)
  | .setApprovedAndExecuting planId approver, s =>
    if s.plans.any fun plan => plan.id == planId && plan.approvable s.now approver then
      some (some (.drawn request), { s with
        plans := s.plans.map (Plan.approve planId (.drawn request) s.now approver)
        pending := .drawn request :: s.pending })
    else some (none, s)
  -- a job id that is there already violates the primary key
  | .insertJob job, s =>
    if s.jobs.any fun row => row.jobId == job.jobId then none
    else some ((), { s with
      jobs := s.jobs ++ [job]
      pending := s.pending.filter fun jobId => jobId ≠ job.jobId })
  | .sendMessage message, s => some ((), { s with messages := s.messages ++ [message] })

/-! ## Requests -/

/-- The environment of the web process: the two flags, whether a queue is configured, what a text
is redacted to, and the texts of identifiers. -/
structure Config where
  remediationEnabled : Bool
  integrationsWriteEnabled : Bool
  queueConfigured : Bool
  redactString : String → String
  text : Uuid → String

/-- The flag that gates an action. -/
def Config.flag (config : Config) (isExternal : Bool) : Bool :=
  if isExternal then config.integrationsWriteEnabled else config.remediationEnabled

/-- What a request answers. -/
inductive Response where
  | planned (planId : Uuid)
  | canceled (planId : Uuid)
  | executing (jobId : Uuid)
  | refused (status : Nat) (message : String)
  deriving DecidableEq

inductive Op where
  | execute | cancel | other
  deriving DecidableEq

/-- What an approval sends on once its update is in: the ledger row, then the queue message. -/
def enqueue (config : Config) (action : CatalogRow) (planId : Uuid) (plan : Plan)
    (jobId : Uuid) : Handler Response := do
  run (.insertJob ⟨jobId, planId,
    ledgerPayload config.redactString action (plan.row config.text)⟩)
  if config.queueConfigured then
    run (.sendMessage ⟨jobId, planId,
      queueMessage config.redactString action (plan.row config.text) (config.text jobId)⟩)
    run (.recordAudit "approved")
    pure (.executing jobId)
  else
    run (.recordAudit "approved")
    pure (.executing jobId)

/-- Refuse a request and record why. -/
def deny (decision : String) (status : Nat) (message : String) : Handler Response := do
  run (.recordAudit decision)
  pure (.refused status message)

/-- The gates that depend on the plan as it was read, and the approval. -/
def approvePlan (config : Config) (token : Token) (planId : Uuid) (plan : Plan) (expired : Bool)
    (action : Option CatalogEntry) : Handler Response :=
  if expired then pure (.refused 410 "plan expired (>5 min)")
  else if (identityKeys token.user).contains plan.createdBy then
    deny "denied_self_approval" 403 "4-eyes: approver must differ from creator"
  else if '@' ∈ plan.createdBy.toList then
    deny "denied_unprovable_4eyes" 403
      ("4-eyes cannot be verified: this plan was created under an email-keyed identity and your " ++
        "token carries no verified email. Verify your address (or have another admin approve).")
  else
    match action with
    | none => pure (.refused 409 "action disabled")
    | some entry =>
      if entry.enabled then do
        match ← run (.setApprovedAndExecuting planId token) with
        | none => pure (.refused 409 "plan not in an approvable state (re-fetch)")
        | some jobId => enqueue config entry.action planId plan jobId
      else pure (.refused 409 "action disabled")

/-- The execute branch. -/
def execute (config : Config) (token : Token) (planId : Uuid) (plan : Plan) (expired : Bool) :
    Handler Response := do
  let action ← run (.getAction plan.actionName)
  let isExternal := action.any fun entry => entry.action.isExternal
  if !config.flag isExternal then
    deny "flag_off" 503
      ((if isExternal then "integrations-write" else "remediation") ++ " disabled (flag off)")
  else if ← run (.killSwitchOn isExternal) then
    approvePlan config token planId plan expired action
  else deny "killswitch_blocked" 403 "kill-switch is off"

def post (config : Config) (token : Token) (planId : Uuid) (op : Op) : Handler Response := do
  match ← run (.getPlan planId) with
  | none => pure (.refused 404 "plan not found")
  | some (plan, expired) =>
    match op with
    | .cancel => do
        run (.cancel planId)
        run (.recordAudit "canceled")
        pure (.canceled planId)
    | .execute => execute config token planId plan expired
    | .other => pure (.refused 400 "op must be execute|cancel")

/-- Creating a plan. Which inputs are accepted is left open. -/
def createPlan (token : Token) (actionName : String) (inputs : Inputs) (rollbackPlan : Js) :
    Handler Response := do
  let planId ← run (.createPlan token actionName inputs rollbackPlan)
  run (.recordAudit "plan")
  pure (.planned planId)

/-- A request of a verified administrator. -/
inductive Request where
  | plan (token : Token) (actionName : String) (inputs : Inputs) (rollbackPlan : Js)
  | post (token : Token) (planId : Uuid) (op : Op)

/-- The program of a request. -/
def handle (config : Config) : Request → Handler Response
  | .plan token actionName inputs rollbackPlan => createPlan token actionName inputs rollbackPlan
  | .post token planId op => post config token planId op

/-- What changes on its own: the clock, a kill-switch, the catalog. -/
inductive Surrounding where
  | clock (now : Int)
  | killSwitch (external on : Bool)
  | catalog (entries : List CatalogEntry)

/-- The requests on the tables. Only the reading of a kill-switch is caught, as off. -/
def machine (config : Config) :
    Machine Statement Statement.Answer Store Request Surrounding Response where
  worker := handle config
  exec := Store.exec
  caught _ c _ :=
    match c with
    | .killSwitchOn _ => some false
    | _ => none
  abort _ s := s
  environment e s :=
    match e with
    | .clock now => { s with now }
    | .killSwitch external on =>
      { s with killSwitch := fun other => if other = external then on else s.killSwitch other }
    | .catalog entries => { s with catalog := entries }

end AwsOps.Remediation

import AwsOps.Jobs.Lifecycle
import AwsOps.Remediation.Plan

/-!
# The remediation state machine

One execution of the state machine, the task that runs its forward action, the action itself, the
rollback function and the job's row, each with the steps that it takes on its own. A task that the
state machine no longer waits for goes on: a timeout does not stop it, and an automation goes on
when the task that started it is over. An error of a task is caught only while the state machine
still waits for it. Which statuses a claim accepts is left open, since the claim of the code
deliberately refuses a job that has been approved.
-/

namespace AwsOps.Remediation

open Jobs (JobStatus)

/-- Where an execution is. `run` stands for the three states that run the action, `aborted` for an
execution whose status write has failed for good. -/
inductive Phase where
  | dryRunFirst | approvalWait | run | rollback | manualIntervention | markFailed
  | jobFailed | jobManual | succeeded | aborted
  deriving DecidableEq

/-- The execution has ended. -/
def Phase.over : Phase → Bool
  | .jobFailed | .jobManual | .succeeded | .aborted => true
  | _ => false

/-- The invocation that runs the action: `remediation_executor` or `record_ssm_start`. -/
inductive Task where
  | idle | entered | claimed | started | finishing | over
  deriving DecidableEq

/-- The forward action: the run function, or the automation. -/
inductive Forward where
  | notStarted | running | succeeded | failed
  deriving DecidableEq

/-- The action was started and is no longer running. -/
def Forward.ended : Forward → Bool
  | .succeeded | .failed => true
  | _ => false

/-- The action was started and has not succeeded. -/
def Forward.unsuccessful : Forward → Bool
  | .running | .failed => true
  | _ => false

/-- The rollback function. -/
inductive RollbackCall where
  | notInvoked | running | returned | raised
  deriving DecidableEq

/-- A job: its execution, its row, and what runs on its behalf. -/
structure State where
  phase : Phase
  status : JobStatus
  notified : Bool
  branch : Option ExecutorType
  task : Task
  recorded : Bool
  forward : Forward
  rollback : RollbackCall
  deriving DecidableEq

/-- An execution that has just been started. -/
def State.initial : State :=
  ⟨.dryRunFirst, .queued, false, none, .idle, false, .notStarted, .notInvoked⟩

/-- What `status_resume` finds out about the automation: success, a bad end, or neither, which it
reports as a failure. -/
inductive Reported where
  | ok | bad | other
  deriving DecidableEq

/-- The steps of the state machine, of the tasks and of their surroundings. -/
inductive Action where
  | dryRun (ok : Bool)
  | notify
  | approve (runtime : Option ExecutorType)
  | approvalFails
  | refuse
  | claim
  | failToStart
  | start
  | functionEnds (ok : Bool)
  | finish (ok : Bool)
  | record (ok : Bool)
  | crash
  | timeout
  | automationEnds (ok : Bool)
  | resume (reported : Reported)
  | refuseRollback
  | invokeRollback
  | rollbackEnds (ok : Bool)
  | rollbackTimeout
  | writeStatus (ok : Bool)
  | reap
  deriving DecidableEq

/-! ## The row -/

/-- The approval notifier's update. -/
def notifyStatus (status : JobStatus) : JobStatus :=
  if status.terminal then status else .awaitingApproval

/-- `finish_job(…, "succeeded")`. -/
def finishSucceeded (status : JobStatus) : JobStatus :=
  if status = .running then .succeeded else status

/-- `finish_job(…, "failed")`. -/
def finishFailed (status : JobStatus) : JobStatus :=
  if status.terminal then status else .failed

/-- `set_manual_intervention`. -/
def manualStatus (status : JobStatus) : JobStatus :=
  if status.terminal then status else .manualIntervention

/-- The update of `record_ssm_start`, whose guard names three of the four terminal statuses. -/
def recordedStatus (status : JobStatus) : JobStatus :=
  if status = .succeeded ∨ status = .failed ∨ status = .canceled then status else .running

/-- The statuses that `claim_running` accepts. -/
def claimableStatus (status : JobStatus) : Bool :=
  status == .queued || status == .running

/-! ## Steps -/

/-- A task's error reaches the execution while it waits for the task. -/
def State.caught (s : State) : State :=
  if s.phase = .run then { s with phase := .rollback } else s

/-- A task's success reaches the execution while it waits for the task. -/
def State.completed (s : State) : State :=
  if s.phase = .run then { s with phase := .succeeded } else s

def State.automated (s : State) : Bool :=
  s.branch == some .ssm

/-- One step, if the action can happen now. `claimable` are the statuses that a claim accepts. -/
def next (claimable : JobStatus → Bool) (s : State) : Action → Option State
  | .dryRun ok =>
    if s.phase = .dryRunFirst then
      some { s with phase := if ok then .approvalWait else .markFailed }
    else none
  | .notify =>
    if s.phase = .approvalWait then
      some { s with status := notifyStatus s.status, notified := true }
    else none
  | .approve runtime =>
    if s.phase = .approvalWait ∧ s.notified then
      match runtime with
      | some branch => some { s with phase := .run, branch := some branch, task := .entered }
      | none => some { s with phase := .markFailed }
    else none
  | .approvalFails =>
    if s.phase = .approvalWait then some { s with phase := .markFailed } else none
  | .refuse => if s.task = .entered then some { s with task := .over }.caught else none
  | .claim =>
    if s.task = .entered then
      if claimable s.status then some { s with status := .running, task := .claimed }
      -- a skipped automation gives no token back, so the execution goes on waiting
      else if s.automated then some { s with task := .over }
      else some { s with task := .over }.completed
    else none
  | .failToStart => if s.task = .claimed then some { s with task := .over }.caught else none
  | .start =>
    if s.task = .claimed then some { s with task := .started, forward := .running } else none
  | .functionEnds ok =>
    if s.task = .started ∧ !s.automated then
      if ok then some { s with task := .finishing, forward := .succeeded }
      else some { s with task := .over, forward := .failed }.caught
    else none
  | .finish ok =>
    if s.task = .finishing then
      if ok then
        some { s with task := .over, status := finishSucceeded s.status }.completed
      else some { s with task := .over }.caught
    else none
  | .record ok =>
    if s.task = .started ∧ s.automated then
      if ok then
        some { s with task := .over, recorded := true, status := recordedStatus s.status }
      else some { s with task := .over }.caught
    else none
  | .crash =>
    if s.task = .idle ∨ s.task = .over then none
    -- a killed invocation takes the run function with it, but not the automation
    else if s.task = .started ∧ !s.automated then
      some { s with task := .over, forward := .failed }.caught
    else some { s with task := .over }.caught
  | .timeout => if s.phase = .run then some { s with phase := .rollback } else none
  | .automationEnds ok =>
    if s.automated ∧ s.forward = .running then
      some { s with forward := if ok then .succeeded else .failed }
    else none
  | .resume reported =>
    if s.recorded then
      match reported with
      | .ok =>
        if s.forward = .succeeded then
          some { s with status := finishSucceeded s.status }.completed
        else none
      | .bad => if s.forward = .failed then some s.caught else none
      | .other => some s.caught
    else none
  | .refuseRollback =>
    if s.phase = .rollback then some { s with phase := .manualIntervention } else none
  | .invokeRollback =>
    if s.phase = .rollback then some { s with rollback := .running } else none
  | .rollbackEnds ok =>
    if s.rollback = .running then
      some { s with
        rollback := if ok then .returned else .raised
        phase :=
          if s.phase = .rollback then if ok then .markFailed else .manualIntervention
          else s.phase }
    else none
  | .rollbackTimeout =>
    if s.phase = .rollback then some { s with phase := .manualIntervention } else none
  | .writeStatus ok =>
    match s.phase with
    | .markFailed =>
      if ok then some { s with phase := .jobFailed, status := finishFailed s.status }
      else some { s with phase := .aborted }
    | .manualIntervention =>
      if ok then some { s with phase := .jobManual, status := manualStatus s.status }
      else some { s with phase := .aborted }
    | _ => none
  | .reap =>
    if s.status = .running ∨ s.status = .queued then some { s with status := .failed }
    else none

/-- The states that an execution can reach by steps that all meet a condition. -/
inductive Reached (claimable : JobStatus → Bool) (allowed : State → Action → Prop) :
    State → Prop where
  | initial : Reached claimable allowed .initial
  | step {s s' : State} {a : Action} : Reached claimable allowed s → allowed s a →
      next claimable s a = some s' → Reached claimable allowed s'

end AwsOps.Remediation

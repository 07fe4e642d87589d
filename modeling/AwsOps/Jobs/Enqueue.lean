import Mathlib.Data.Finmap
import AwsOps.Foundation.Threads
import AwsOps.Foundation.Text

/-!
# Enqueueing a worker job

`enqueueJob` inserts a row into the job ledger or finds the row that the requester's key already
names, and then sends that row's job to the queue. Calls interleave at every statement, statements
raise, calls die, and other writers insert rows and move statuses meanwhile. Payloads are JSON
objects as values: the ledger keeps a payload as `jsonb`, which does not keep the order of keys.
-/

namespace AwsOps.Jobs

variable {V : Type}

/-- A JSON object with values of type `V`, regardless of the order of its keys. -/
abbrev Payload (V : Type) : Type :=
  Finmap fun _ : String => V

/-! ## The ledger -/

/-- A row of `worker_jobs`, as far as `enqueueJob` reads or writes it. -/
structure LedgerJob (V : Type) where
  jobId : String
  type : String
  payload : Payload V
  dryRun : Bool
  idempotencyKey : Option String
  requestedBy : Option String
  status : String

/-- `idempotency_key = $1`, which is not true of a null key. -/
def LedgerJob.keyed (job : LedgerJob V) (key : Option String) : Bool :=
  key.isSome && job.idempotencyKey == key

/-- `idempotency_key = $1 AND requested_by IS NOT DISTINCT FROM $2`. -/
def LedgerJob.isOwn (job : LedgerJob V) (key requestedBy : Option String) : Bool :=
  job.keyed key && job.requestedBy == requestedBy

/-- Two rows may both be in the ledger: the primary key, the two partial indexes, which make a key
unique for a requester, and the legacy constraint, which makes it unique. -/
def LedgerJob.compatible (legacyUnique : Bool) (a b : LedgerJob V) : Bool :=
  a.jobId != b.jobId && !a.isOwn b.idempotencyKey b.requestedBy &&
    !(legacyUnique && a.keyed b.idempotencyKey)

/-- The rows of the ledger. The legacy constraint is there until a later migration drops it. -/
structure Ledger (V : Type) where
  jobs : List (LedgerJob V)
  legacyUnique : Bool
  compatible : jobs.Pairwise fun a b => a.compatible legacyUnique b

/-- An error of the database. -/
structure DbError where
  code : Option String
  constraint : Option String
  deriving DecidableEq

def uniqueViolation (constraint : String) : DbError :=
  ⟨some "23505", some constraint⟩

/-- What the insert gives: the id of the new row, no row, or an error. -/
inductive InsertAnswer
  | inserted (jobId : String)
  | nothing
  | raised (error : DbError)
  deriving DecidableEq

/-- Put a row into the ledger if the constraints allow it. -/
def Ledger.add (ledger : Ledger V) (job : LedgerJob V) : Ledger V :=
  if h : ledger.jobs.all fun a => a.compatible ledger.legacyUnique job then
    { ledger with
      jobs := ledger.jobs ++ [job]
      compatible := by
        refine List.pairwise_append.mpr ⟨ledger.compatible, List.pairwise_singleton .., ?_⟩
        intro a ha b hb
        rw [List.mem_singleton.mp hb]
        exact List.all_eq_true.mp h a ha }
  else ledger

/-- The insert. A conflict on the partial index that covers the row does nothing, and one on the
primary key or on the legacy constraint raises. -/
def Ledger.insert (ledger : Ledger V) (job : LedgerJob V) : InsertAnswer × Ledger V :=
  if ledger.jobs.any fun a => a.isOwn job.idempotencyKey job.requestedBy then (.nothing, ledger)
  else if ledger.jobs.any fun a => a.jobId == job.jobId then
    (.raised (uniqueViolation "worker_jobs_pkey"), ledger)
  else if ledger.legacyUnique && ledger.jobs.any fun a => a.keyed job.idempotencyKey then
    (.raised (uniqueViolation "worker_jobs_idempotency_key_key"), ledger)
  else (.inserted job.jobId, ledger.add job)

/-- Another writer moves the status of a job. -/
def Ledger.setStatus (ledger : Ledger V) (jobId status : String) : Ledger V where
  jobs := ledger.jobs.map fun job => if job.jobId = jobId then { job with status } else job
  legacyUnique := ledger.legacyUnique
  compatible := by
    refine ledger.compatible.map _ fun a b hab => ?_
    split <;> split <;> exact hab

/-! ## The statements -/

/-- A message on the queue. -/
structure Message (V : Type) where
  jobId : String
  type : String
  payload : Payload V
  dryRun : Bool

/-- What `findOwnJob` returns of a row. -/
structure OwnJob (V : Type) where
  jobId : String
  status : String
  type : String
  payload : Payload V
  dryRun : Bool

/-- What a call does to the world. A message goes out for a requester, who is not part of it. -/
inductive EnqueueStatement (V : Type)
  | insert (request : LedgerJob V)
  | findOwnJob (idempotencyKey requestedBy : Option String)
  | send (requestedBy : Option String) (message : Message V)

/-- The answers: what the insert gives, the row that was found, and whether the queue took the
message. -/
def EnqueueStatement.Answer : EnqueueStatement V → Type
  | insert _ => InsertAnswer
  | findOwnJob _ _ => Option (OwnJob V)
  | send _ _ => Bool

/-- The programs of calls. -/
abbrev EnqueueProgram (V α : Type) : Type :=
  Program (EnqueueStatement V) EnqueueStatement.Answer α

/-- Issue a statement. -/
def ask (c : EnqueueStatement V) : EnqueueProgram V c.Answer :=
  Program.command c

/-! ## The call -/

/-- The arguments of `enqueueJob`, and the id that `randomUUID` gives it. -/
structure EnqueueCall (V : Type) where
  type : String
  payload : Option (Payload V)
  idempotencyKey : Option String
  dryRun : Option Bool
  jobId : Option String
  requestedBy : Option String
  randomUuid : String

/-- How a call ends. -/
inductive EnqueueOutcome (V : Type)
  /-- `JOBS_QUEUE_URL` is not set. -/
  | disabled
  /-- The insert raised, and not over the idempotency key. -/
  | raised (error : DbError)
  /-- `IdempotencyKeyCollisionError`. -/
  | collision
  /-- `EnqueueDeliveryError`. -/
  | undelivered (jobId status : String)
  /-- `EnqueueResult`. -/
  | enqueued (jobId status : String) (payload : Payload V)

/-- The job id that a call ends with. -/
def EnqueueOutcome.jobId : EnqueueOutcome V → Option String
  | undelivered jobId _ | enqueued jobId _ _ => some jobId
  | _ => none

/-- The caller's payload without the marker of the scheduler. -/
def EnqueueCall.safePayload (call : EnqueueCall V) : Payload V :=
  (call.payload.getD ∅).erase "scheduled"

/-- The row that a call inserts. -/
def EnqueueCall.request (call : EnqueueCall V) : LedgerJob V where
  jobId := if call.jobId.getD "" = "" then call.randomUuid else call.jobId.getD ""
  type := call.type
  payload := call.safePayload
  dryRun := call.dryRun.getD false
  idempotencyKey := call.idempotencyKey
  requestedBy := call.requestedBy
  status := "queued"

/-- The errors after which the call looks for its own row: unique violations that name the
idempotency key, or no constraint. -/
def DbError.overKey (error : DbError) : Bool :=
  error.code == some "23505" &&
    (error.constraint.getD "" == "" ||
      Text.contains "idempotency_key".toList (error.constraint.getD "").toList)

/-- Send the message of a job. -/
def deliver (requestedBy : Option String) (status : String) (message : Message V) :
    EnqueueProgram V (EnqueueOutcome V) := do
  let taken : Bool ← ask (.send requestedBy message)
  if taken then pure (.enqueued message.jobId status message.payload)
  else pure (.undelivered message.jobId status)

/-- The recovery after a conflict: enqueue what the ledger says that the job is. -/
def replay (call : EnqueueCall V) : EnqueueProgram V (EnqueueOutcome V) := do
  match ← ask (.findOwnJob call.idempotencyKey call.requestedBy) with
  | none => pure .collision
  | some existing =>
    deliver call.requestedBy existing.status
      ⟨existing.jobId, existing.type, existing.payload, existing.dryRun⟩

def enqueueJob (queueUrl : Option String) (call : EnqueueCall V) :
    EnqueueProgram V (EnqueueOutcome V) :=
  if queueUrl.getD "" = "" then pure .disabled
  else do
    match ← ask (.insert call.request) with
    | .inserted jobId =>
      deliver call.requestedBy "queued"
        ⟨jobId, call.type, call.safePayload, call.dryRun.getD false⟩
    | .nothing => replay call
    | .raised error => if error.overKey then replay call else pure (.raised error)

/-! ## The world -/

/-- A message that was sent, and for whom. -/
structure Sent (V : Type) where
  requestedBy : Option String
  message : Message V

/-- The ledger, the queue, and the ids that inserts of `enqueueJob` have returned. The next
statement that fails raises `error`, and while `replyLost` holds the queue takes messages without
saying so. -/
structure World (V : Type) where
  ledger : Ledger V
  queue : List (Sent V)
  inserted : List String
  error : DbError
  replyLost : Bool

/-- What happens besides the calls. -/
inductive Disturbance (V : Type)
  /-- Another writer inserts a row. -/
  | insert (job : LedgerJob V)
  /-- Another writer moves the status of a job. -/
  | setStatus (jobId status : String)
  /-- Failures take another form. -/
  | fail (error : DbError) (replyLost : Bool)

/-- A disturbance happens. -/
def World.disturb : Disturbance V → World V → World V
  | .insert job, w => { w with ledger := w.ledger.add job }
  | .setStatus jobId status, w => { w with ledger := w.ledger.setStatus jobId status }
  | .fail error replyLost, w => { w with error, replyLost }

def Ledger.findOwn (ledger : Ledger V) (key requestedBy : Option String) : Option (OwnJob V) :=
  (ledger.jobs.find? fun job => job.isOwn key requestedBy).map fun job =>
    ⟨job.jobId, job.status, job.type, job.payload, job.dryRun⟩

/-- Execute a statement. `castUuid` reads a text as a job id. -/
def World.exec (castUuid : String → Option String) (w : World V) :
    (c : EnqueueStatement V) → c.Answer × World V
  | .insert request =>
    match castUuid request.jobId with
    | none => (InsertAnswer.raised ⟨some "22P02", none⟩, w)
    | some jobId =>
      match w.ledger.insert { request with jobId } with
      | (.inserted jobId, ledger) =>
        (InsertAnswer.inserted jobId, { w with ledger, inserted := jobId :: w.inserted })
      | (answer, ledger) => (answer, { w with ledger })
  | .findOwnJob key requestedBy => (w.ledger.findOwn key requestedBy, w)
  | .send requestedBy message =>
    (!w.replyLost, { w with queue := w.queue ++ [⟨requestedBy, message⟩] })

/-- The answer with which a call goes on when a statement raises. -/
def World.caught (w : World V) : (c : EnqueueStatement V) → Option c.Answer
  | .insert _ => some (InsertAnswer.raised w.error)
  | .findOwnJob _ _ => none
  | .send _ _ => some false

/-- The machine of the calls. A finished call keeps its arguments. -/
def enqueueCalls (queueUrl : Option String) (castUuid : String → Option String) :
    Machine (EnqueueStatement V) EnqueueStatement.Answer (World V) (EnqueueCall V) (Disturbance V)
      (EnqueueCall V × EnqueueOutcome V) where
  worker call := do
    let outcome ← enqueueJob queueUrl call
    pure (call, outcome)
  exec _ c w := some (w.exec castUuid c)
  caught _ c w := w.caught c
  abort _ w := w
  environment := World.disturb

end AwsOps.Jobs

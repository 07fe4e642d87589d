import AwsOps.Foundation.Processes
import AwsOps.Foundation.Py
import AwsOps.Foundation.Sha256

/-!
# The release manifest

The state of the release controller: the manifest, which is saved and loaded as one file, and the
commands that the controller issues. The calls of the AWS CLI that read and write ECS and ECR are
commands with their arguments; checks of the account and the database, the private executor and
the HTTP checks are commands that return or raise.
-/

namespace AwsOps.Release

open Py (Fields)

/-- A `ReleaseError`, which may be a `ReadinessPending`. -/
structure Failure where
  pending : Bool
  code : String
  deriving DecidableEq

/-- An exception of Python that is no `ReleaseError`. -/
def Failure.unexpected : Failure :=
  ⟨false, "unexpected_failure"⟩

def require (condition : Bool) (code : String) : Except Failure Unit :=
  if condition then .ok () else .error ⟨false, code⟩

def ready (condition : Bool) (code : String) : Except Failure Unit :=
  if condition then .ok () else .error ⟨true, code⟩

/-- The pinned context. -/
structure Context where
  commit : String
  account : String
  project : String
  url : String
  region : String
  cloudfrontDomain : String
  tfRoot : String
  sqlReaderSecretArn : Option String
  deriving DecidableEq

/-- The database that `check_scope` has found. -/
structure Database where
  endpoint : String
  secretArn : String
  deriving DecidableEq

/-- The service before the release. -/
structure Snapshot where
  serviceArn : String
  clusterArn : String
  taskDefinition : String
  primaryId : String
  desiredCount : Int
  image : String
  deriving DecidableEq

/-- The recorded build. -/
structure Build where
  commit : String
  digest : String
  arm64Digest : String
  mediaType : String
  deriving DecidableEq

/-- The journal of the rollout. -/
structure Intent where
  commit : String
  digest : String
  previousDeploymentId : String
  taskDefinition : String
  desiredCount : Int
  deriving DecidableEq

/-- The recorded rollout. -/
structure Roll where
  commit : String
  digest : String
  deploymentId : String
  deriving DecidableEq

/-- The verified rollout. -/
structure Verified where
  roll : Roll
  taskCount : Nat
  runtimeDigests : List String
  deriving DecidableEq

/-- The stages, in order. -/
inductive Stage where
  | preflight | built | migrated | rolling | rolled | verified | smoked
  deriving DecidableEq

/-- The position of a stage. -/
def Stage.rank : Stage → Nat
  | .preflight => 0
  | .built => 1
  | .migrated => 2
  | .rolling => 3
  | .rolled => 4
  | .verified => 5
  | .smoked => 6

structure Manifest where
  version : Nat
  context : Context
  database : Database
  stage : Stage
  snapshot : Snapshot
  build : Option Build
  migration : Option String
  intent : Option Intent
  roll : Option Roll
  verified : Option Verified
  smoke : Option (Roll × List String)
  deriving DecidableEq

/-! ## Commands -/

/-- What the controller does outside of itself. -/
inductive Command where
  | aws (args : List String)
  | monotonic
  | sleep (duration : Int)
  | checkSource
  | checkScope
  | checkDefinition (taskDefinition : String)
  | probeTaskReads
  | executorTarget
  | verifyReceipt (preview : Bool)
  | workflowOutputs
  | httpChecks
  | load
  | save (m : Manifest)
  deriving DecidableEq

/-- What a command returns. The file is absent until it is saved. -/
def Answer : Command → Type
  | .aws _ => Fields
  | .monotonic => Int
  | .checkScope => Database
  | .checkDefinition _ => String
  | .executorTarget => Database
  | .httpChecks => List String
  | .load => Option Manifest
  | _ => Unit

/-- A step of the controller. -/
abbrev Task (α : Type) :=
  Process Command Answer Failure α

/-- Issue a command. -/
def call (c : Command) : Task (Answer c) :=
  Process.command c

/-- A check in between. -/
def lift {α : Type} : Except Failure α → Task α
  | .ok a => pure a
  | .error e => throw e

/-- What the controller has done. -/
abbrev Log :=
  List (Entry Command Answer Failure)

/-- The manifests that were saved, in order. The file is replaced at once: a save that raises has
not replaced it, and a process that dies in it may have. -/
def saves (log : Log) (kept : Nat → Bool) : List Manifest :=
  log.zipIdx.filterMap fun (e, i) =>
    match e with
    | ⟨.save m, .ok _⟩ => some m
    | ⟨.save m, .died⟩ => if kept i then some m else none
    | _ => none

/-- What the commands meet: the replies of everything outside, and whether a save in which the
process dies has replaced the file. -/
structure Surroundings where
  reply : Log → (c : Command) → Response Failure (Answer c)
  kept : Nat → Bool

def Surroundings.file (env : Surroundings) (log : Log) : Option Manifest :=
  (saves log env.kept).getLast?

/-- Loading reads the file, unless the process dies or raises. -/
def Surroundings.answer (env : Surroundings) (log : Log) : (c : Command) → Response Failure (Answer c)
  | .load =>
    match env.reply log .load with
    | .ok _ => .ok (env.file log)
    | .raise e => .raise e
    | .died => .died
  | c => env.reply log c

end AwsOps.Release

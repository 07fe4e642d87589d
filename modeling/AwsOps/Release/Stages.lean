import AwsOps.Release.Reads

/-!
# The stages of a release

Each invocation of the controller is one process. It loads the manifest, checks that its turn has
come, proves again what the stages before it have recorded, and saves the manifest with its own
record.
-/

namespace AwsOps.Release

open Py (Fields find get isText isOneOf)

/-- The checks of `load` on the manifest. -/
def Context.accepts (c : Context) (stages : List Stage) (m : Manifest) : Except Failure Unit := do
  require (m.version == 1 && decide (m.context = c)) "manifest_context_mismatch"
  require (stages.contains m.stage) "release_order_invalid"
  require (m.snapshot.serviceArn == c.serviceArn && m.snapshot.clusterArn == c.clusterArn
    && c.isTaskDefinitionArn m.snapshot.taskDefinition && isDeploymentId m.snapshot.primaryId
    && m.snapshot.image == c.repo ++ ":web-latest"
    && decide (0 < m.snapshot.desiredCount ∧ m.snapshot.desiredCount ≤ 1000)) "invalid_snapshot"

/-- The checks of `load` on the file. A file that is absent is no private file. -/
def Controller.checkFile (k : Controller) (stages : List Stage) (checkScope : Bool)
    (file : Option Manifest) : Task Manifest := do
  let m ← lift (expect file "private_file_invalid")
  lift (k.context.accepts stages m)
  if checkScope then do
    let database : Database ← call .checkScope
    lift (require (decide (m.database = database)) "database_context_moved")
    pure m
  else pure m

def Controller.load (k : Controller) (stages : List Stage) (checkScope : Bool) : Task Manifest := do
  let file : Option Manifest ← call .load
  k.checkFile stages checkScope file

def Controller.preflight (k : Controller) (rounds : Nat) : Task Manifest := do
  let file : Option Manifest ← call .load
  lift (require file.isNone "manifest_already_exists")
  let database : Database ← call .checkScope
  let target : Database ← call .executorTarget
  lift (require (decide (target = database)) "migration_target_mismatch")
  call .checkSource
  let snapshot ← k.snapshot rounds
  let m : Manifest :=
    { version := 1
      context := k.context
      database
      stage := .preflight
      snapshot
      build := none
      migration := none
      intent := none
      roll := none
      verified := none
      smoke := none }
  call (.save m)
  call .workflowOutputs
  pure m

def Controller.checkExecutor (k : Controller) : Task Manifest := do
  let m ← k.load [.preflight, .built] true
  let target : Database ← call .executorTarget
  lift (require (decide (target = m.database)) "migration_target_mismatch")
  call .checkSource
  pure m

def Controller.recordBuild (k : Controller) (imageDigest : String) : Task Manifest := do
  let m ← k.load [.preflight] true
  let (build, _) ← k.resolveBuild none imageDigest
  let m := { m with build, stage := .built }
  call (.save m)
  pure m

def Controller.previewMigrations (k : Controller) : Task Manifest := do
  let m ← k.load [.preflight] true
  call (.verifyReceipt true)
  call .checkSource
  pure m

def Controller.migrate (k : Controller) : Task Manifest := do
  let m ← k.load [.built] true
  let _ ← k.buildProof none m
  call (.verifyReceipt false)
  call .checkSource
  let m := { m with migration := k.context.commit, stage := .migrated }
  call (.save m)
  pure m

def Context.migrationProof (c : Context) (m : Manifest) : Except Failure Unit :=
  require (decide (m.migration = some c.commit)) "migration_proof_missing"

def Context.rollIntent (c : Context) (m : Manifest) (build : Build) : Intent :=
  { commit := c.commit
    digest := build.digest
    previousDeploymentId := m.snapshot.primaryId
    taskDefinition := m.snapshot.taskDefinition
    desiredCount := m.snapshot.desiredCount }

/-- The description of the service that `update-service` has returned, if it is one. -/
def suppliedService (result : Fields) : Option Py :=
  match find result "service" with
  | none => some (.dict [])
  | some .none => none
  | some service => some service

/-- One round of `reconcile_roll`: the new deployment. -/
def Controller.newDeployment (k : Controller) (m : Manifest) (intent : Intent)
    (supplied : Option Py) (deadline : Int) (first : Bool) : Task String := do
  let _ ← k.buildProof deadline m
  let latest ← k.ecrImage deadline "imageTag" "web-latest"
  lift (require (latest.digest == intent.digest) "release_tag_moved")
  let service ← k.service deadline (if first then supplied else none)
  lift (require (service.taskDefinition == m.snapshot.taskDefinition
    && decide (service.desiredCount = m.snapshot.desiredCount)) "service_snapshot_moved")
  lift (ready (service.primary.id != m.snapshot.primaryId) "new_deployment_missing")
  lift (require (isOneOf ["IN_PROGRESS", "COMPLETED"] service.primary.rolloutState)
    "deployment_failed_or_unknown")
  call .checkSource
  pure service.primary.id

def Controller.reconcileRoll (k : Controller) (m : Manifest) (supplied : Option Py)
    (rounds : Nat) : Task Manifest := do
  let build ← lift (recorded m.build)
  let intent ← lift (expect (m.intent.filter (· = k.context.rollIntent m build))
    "roll_intent_mismatch")
  let deployment ←
    waitForReads none (k.newDeployment m intent supplied) (120 * 1000) (5 * 1000) rounds
  let m := { m with roll := some ⟨k.context.commit, build.digest, deployment⟩, stage := .rolled }
  call (.save m)
  pure m

/-- The arguments of `put-image`: the manifest gets the tag `web-latest`. -/
def Context.putImage (c : Context) (build : Build) (raw : String) : List String :=
  ["ecr", "put-image", "--registry-id", c.account, "--repository-name", c.repoName, "--image-tag",
    "web-latest", "--image-manifest", raw, "--image-manifest-media-type", build.mediaType,
    "--image-digest", build.digest]

/-- The digest of the image of a response of `put-image`. -/
def promotedDigest (response : Fields) : Except Failure Py := do
  let image ← getDict response "image"
  let imageId ← getDict image "imageId"
  pure (get imageId "imageDigest")

/-- The arguments of `update-service` with a forced new deployment. -/
def Context.updateService (c : Context) : List String :=
  ["ecs", "update-service", "--cluster", c.cluster, "--service", c.serviceName,
    "--force-new-deployment"]

/-- The tag `web-latest` moves to the build, unless it is there. -/
def Controller.promote (k : Controller) (build : Build) (raw : String) : Task Unit := do
  let latest ← k.ecrImage none "imageTag" "web-latest"
  if latest.digest ≠ build.digest then do
    let response ← k.aws none (k.context.putImage build raw)
    let promoted ← lift (promotedDigest response)
    lift (require (isText build.digest promoted) "image_promotion_failed")
  else pure ()

def Controller.rollWeb (k : Controller) (rounds : Nat) : Task Manifest := do
  let m ← k.load [.migrated, .rolling] true
  lift (k.context.migrationProof m)
  if m.stage = .rolling then k.reconcileRoll m none rounds
  else do
    let snapshot ← k.snapshot rounds
    lift (require (decide (snapshot = m.snapshot)) "service_snapshot_moved")
    let (build, raw) ← k.buildProof none m
    k.promote build raw
    let latest ← k.ecrImage none "imageTag" "web-latest"
    lift (require (latest.digest == build.digest) "image_promotion_failed")
    let _ ← k.buildProof none m
    let snapshot ← k.snapshot rounds
    lift (require (decide (snapshot = m.snapshot)) "service_snapshot_moved")
    call .checkSource
    -- the intent is saved before the request, which must not be sent twice
    let m := { m with intent := k.context.rollIntent m build, stage := .rolling }
    call (.save m)
    let result ← k.aws none k.context.updateService
    k.reconcileRoll m (suppliedService result) rounds

/-- `roll_proof`: the recorded rollout. -/
def Controller.rollProof (k : Controller) (deadline : Option Int) (m : Manifest) : Task Roll := do
  lift (k.context.migrationProof m)
  let roll ← lift (expect (m.roll.filter fun roll =>
    roll.commit == k.context.commit && decide (some roll.digest = m.build.map Build.digest)
      && isDeploymentId roll.deploymentId && roll.deploymentId != m.snapshot.primaryId)
    "roll_proof_missing")
  let _ ← k.buildProof deadline m
  let latest ← k.ecrImage deadline "imageTag" "web-latest"
  lift (require (latest.digest == roll.digest) "release_tag_moved")
  pure roll

def Controller.currentDeployment (k : Controller) (deadline : Option Int) (m : Manifest) :
    Task Service := do
  let service ← k.service deadline none
  lift (require (service.taskDefinition == m.snapshot.taskDefinition
    && decide (service.desiredCount = m.snapshot.desiredCount)) "service_snapshot_moved")
  let roll ← lift (recorded m.roll)
  lift (ready (service.primary.id == roll.deploymentId) "deployment_replaced_or_rolled_back")
  lift (require (isOneOf ["COMPLETED", "IN_PROGRESS"] service.primary.rolloutState)
    "deployment_failed_or_unknown")
  pure service

/-- `stable(*current_deployment(state))`. -/
def Controller.stableDeployment (k : Controller) (deadline : Option Int) (m : Manifest) :
    Task Unit := do
  let service ← k.currentDeployment deadline m
  lift service.stable

/-- One round of `verify_web`. -/
def Controller.verifyRead (k : Controller) (m : Manifest) (deadline : Int) :
    Task (Nat × List String) := do
  let _ ← k.rollProof deadline m
  k.stableDeployment deadline m
  let tasks ← k.runningTasks deadline m
  k.stableDeployment deadline m
  pure tasks

def Controller.verifyWeb (k : Controller) (timeout poll : Int) (rounds : Nat) : Task Manifest := do
  let m ← k.load [.rolled] true
  let (taskCount, runtimeDigests) ←
    waitForReads none (fun deadline _ => k.verifyRead m deadline) timeout poll rounds
  call .checkSource
  let roll ← lift (recorded m.roll)
  let m := { m with verified := some ⟨roll, taskCount, runtimeDigests⟩, stage := .verified }
  call (.save m)
  pure m

/-- The checks of `smoke` on the verified rollout. -/
def Manifest.runtimeProof (m : Manifest) (roll : Roll) (build : Build) : Bool :=
  m.verified.any fun verified =>
    decide (verified.roll = roll) && decide ((verified.taskCount : Int) = m.snapshot.desiredCount)
      && !verified.runtimeDigests.isEmpty
      && verified.runtimeDigests.all [build.digest, build.arm64Digest].contains

def Controller.smoke (k : Controller) (rounds : Nat) : Task Manifest := do
  let m ← k.load [.verified] true
  let roll ← k.rollProof none m
  let build ← lift (recorded m.build)
  lift (require (m.runtimeProof roll build) "runtime_proof_missing")
  waitForReads none (fun deadline _ => k.stableDeployment deadline m) (120 * 1000) (5 * 1000) rounds
  let checks : List String ← call .httpChecks
  waitForReads none (fun deadline _ => k.stableDeployment deadline m) (120 * 1000) (5 * 1000) rounds
  call .checkSource
  let m := { m with smoke := some (roll, checks), stage := .smoked }
  call (.save m)
  pure m

def Controller.checkSmoke (k : Controller) : Task Manifest := do
  let m ← k.load [.preflight] false
  let _ : List String ← call .httpChecks
  pure m

/-! ## Invocations -/

/-- The commands of the controller. -/
inductive Invocation where
  | preflight
  | checkSmoke
  | checkExecutor
  | previewMigrations
  | recordBuild (digest : String)
  | migrate
  | rollWeb
  | verifyWeb (timeoutSeconds pollSeconds : Int)
  | smoke
  deriving DecidableEq

/-- The process of an invocation. Each begins with `check_source`. -/
def Controller.main (k : Controller) (rounds : Nat) (invocation : Invocation) : Task Manifest := do
  call .checkSource
  match invocation with
  | .preflight => k.preflight rounds
  | .checkSmoke => k.checkSmoke
  | .checkExecutor => k.checkExecutor
  | .previewMigrations => k.previewMigrations
  | .recordBuild digest => k.recordBuild digest
  | .migrate => k.migrate
  | .rollWeb => k.rollWeb rounds
  | .verifyWeb timeoutSeconds pollSeconds =>
    k.verifyWeb (1000 * timeoutSeconds) (1000 * pollSeconds) rounds
  | .smoke => k.smoke rounds

/-- What has been done after the invocations, one at a time. Each may have its own controller. -/
def logOf (env : Surroundings) (invocations : List (Controller × Nat × Invocation)) : Log :=
  (World.logged env.answer).runAll [] (invocations.map fun (k, rounds, i) => k.main rounds i)

end AwsOps.Release

import AwsOps.Foundation.Json
import AwsOps.Release.Manifest

/-!
# What the controller reads

The service with its deployments, the images and the running tasks, as the responses of the AWS
CLI show them. A response may be anything; what does not have the expected shape raises.
-/

namespace AwsOps.Release

open Py (Fields find get isText isOneOf)

/-- The controller: its context and the JSON parser. -/
structure Controller where
  context : Context
  decodeJson : String → Except Failure Py

/-! ## Names -/

/-- What follows a fixed beginning. -/
def textAfter (lead text : String) : Option (List Char) :=
  if lead.toList.isPrefixOf text.toList then some (text.toList.drop lead.toList.length) else none

/-- A digit of a hexadecimal digest. -/
def isHex (c : Char) : Bool :=
  c.isDigit || ('a' ≤ c && c ≤ 'f')

/-- `sha256_digest`. -/
def isDigest (text : String) : Bool :=
  (textAfter "sha256:" text).any fun rest => rest.length == 64 && rest.all isHex

/-- `deployment_id`. -/
def isDeploymentId (text : String) : Bool :=
  (textAfter "ecs-svc/" text).any fun rest => !rest.isEmpty && rest.all Char.isDigit

namespace Context

def partition (c : Context) : String :=
  if c.region.startsWith "cn-" then "aws-cn"
  else if c.region.startsWith "us-gov-" then "aws-us-gov"
  else "aws"

def repoName (c : Context) : String :=
  c.project ++ "-web"

def repo (c : Context) : String :=
  let domain := if c.partition = "aws-cn" then "amazonaws.com.cn" else "amazonaws.com"
  s!"{c.account}.dkr.ecr.{c.region}.{domain}/{c.repoName}"

def cluster (c : Context) : String :=
  c.project

def serviceName (c : Context) : String :=
  c.project ++ "-web"

def arnLead (c : Context) : String :=
  s!"arn:{c.partition}:ecs:{c.region}:{c.account}:"

def clusterArn (c : Context) : String :=
  c.arnLead ++ "cluster/" ++ c.cluster

def serviceArn (c : Context) : String :=
  s!"{c.arnLead}service/{c.cluster}/{c.serviceName}"

/-- `task_definition_arn`. -/
def isTaskDefinitionArn (c : Context) (text : String) : Bool :=
  (textAfter s!"{c.arnLead}task-definition/{c.serviceName}:" text).any fun rest =>
    match rest with
    | first :: rest => first.isDigit && first != '0' && rest.all Char.isDigit
    | [] => false

def isTaskArn (c : Context) (text : String) : Bool :=
  (textAfter s!"{c.arnLead}task/{c.cluster}/" text).any fun rest =>
    rest.length == 32 && rest.all isHex

end Context

/-! ## Values -/

def expect {α : Type} (value : Option α) (code : String) : Except Failure α :=
  match value with
  | some a => .ok a
  | none => .error ⟨false, code⟩

/-- The value whose method `get` is called. -/
def dict (value : Py) : Except Failure Fields :=
  match value.asDict with
  | some fields => .ok fields
  | none => .error .unexpected

/-- `fields.get(key, {})`. -/
def getDict (fields : Fields) (key : String) : Except Failure Fields :=
  dict ((find fields key).getD (.dict []))

/-- `nonnegative_integer`. -/
def count : Py → Option Int
  | .int n => if 0 ≤ n then some n else none
  | _ => none

/-- A call of the AWS CLI. Within a deadline it gets what is left of it. -/
def Controller.aws (k : Controller) (deadline : Option Int) (args : List String) : Task Fields := do
  match deadline with
  | none => pure ()
  | some deadline => do
      let now : Int ← call .monotonic
      lift (require (decide (0 < min 60000 (deadline - now))) "verification_timeout")
  call (.aws (args ++ ["--region", k.context.region, "--output", "json", "--no-cli-pager",
    "--cli-connect-timeout", "10", "--cli-read-timeout", "30"]))

/-- `wait_for_reads`, with times in milliseconds. The rounds of the loop are bounded, which is one
more way for the process to end. The argument of `read` tells the first round from the others. -/
def waitForReads {α : Type} (deadline : Option Int) (read : Int → Bool → Task α)
    (timeout poll : Int) (rounds : Nat) : Task α := do
  lift (require (decide (1000 ≤ timeout ∧ timeout ≤ 1800 * 1000 ∧ 1000 ≤ poll ∧ poll ≤ 30 * 1000))
    "invalid_wait_bound")
  let now : Int ← call .monotonic
  let limit := match deadline with
    | none => now + timeout
    | some previous => min previous (now + timeout)
  loop limit poll true rounds
where
  /-- The rounds of the loop. -/
  loop (limit poll : Int) (first : Bool) : Nat → Task α
    | 0 => throw ⟨false, "killed"⟩
    | rounds + 1 => do
        let start : Int ← call .monotonic
        lift (require (decide (start < limit)) "verification_timeout")
        tryCatch
          (do
            let result ← read limit first
            let now : Int ← call .monotonic
            lift (require (decide (now ≤ limit)) "verification_timeout")
            pure result)
          fun e =>
            if e.pending then do
              let now : Int ← call .monotonic
              lift (require (decide (0 < limit - now)) "verification_timeout")
              call (.sleep (min poll (limit - now)))
              loop limit poll false rounds
            else throw e

/-! ## The service -/

/-- A deployment of the service. -/
structure Deployment where
  id : String
  status : Py
  rolloutState : Py
  desiredCount : Py
  runningCount : Int
  pendingCount : Int
  taskDefinition : Py

/-- The service, with its primary deployment and the desired count of that. -/
structure Service where
  taskDefinition : String
  desiredCount : Int
  runningCount : Int
  pendingCount : Int
  deployments : List Deployment
  primary : Deployment
  primaryDesiredCount : Int

/-- The entries of a deployment. -/
def Deployment.fields (value : Py) : Except Failure (String × Fields) := do
  let fields ← expect value.asDict "deployment_missing"
  let id ← expect ((get fields "id").asStr.filter isDeploymentId) "deployment_missing"
  pure (id, fields)

def Deployment.read (id : String) (fields : Fields) : Except Failure Deployment := do
  let runningCount ← expect (count (get fields "runningCount")) "deployment_counts_invalid"
  let pendingCount ← expect (count (get fields "pendingCount")) "deployment_counts_invalid"
  pure
    { id
      status := get fields "status"
      rolloutState := get fields "rolloutState"
      desiredCount := get fields "desiredCount"
      runningCount
      pendingCount
      taskDefinition := get fields "taskDefinition" }

/-- The checks of `service` on the description of the service. -/
def Service.read (c : Context) (data : Py) : Except Failure Service := do
  let data ← dict data
  require (isText c.serviceArn (get data "serviceArn") && isText c.clusterArn (get data "clusterArn")
    && isText c.serviceName (get data "serviceName") && isText "ACTIVE" (get data "status"))
    "service_scope_mismatch"
  let controller ← getDict data "deploymentController"
  require (isText "ECS" (get controller "type")) "service_scope_mismatch"
  let taskDefinition ←
    expect ((get data "taskDefinition").asStr.filter c.isTaskDefinitionArn) "service_scope_mismatch"
  let desiredCount ← expect (count (get data "desiredCount")) "service_counts_invalid"
  let runningCount ← expect (count (get data "runningCount")) "service_counts_invalid"
  let pendingCount ← expect (count (get data "pendingCount")) "service_counts_invalid"
  require (decide (0 < desiredCount ∧ desiredCount ≤ 1000)) "service_counts_invalid"
  let items ← expect (get data "deployments").asList "deployment_missing"
  require (!items.isEmpty) "deployment_missing"
  let fields ← items.mapM Deployment.fields
  let deployments ← fields.mapM fun (id, fields) => Deployment.read id fields
  match deployments.filter fun d => isText "PRIMARY" d.status with
  | [primary] => do
      let primaryDesiredCount ← expect (count primary.desiredCount) "deployment_counts_invalid"
      require (isText taskDefinition primary.taskDefinition) "deployment_definition_mismatch"
      pure
        { taskDefinition, desiredCount, runningCount, pendingCount, deployments, primary
          primaryDesiredCount }
  | _ => .error ⟨false, "deployment_missing"⟩

/-- The one service of a response. -/
def describedService (result : Fields) : Except Failure Py := do
  require (!(get result "failures").truthy) "service_unavailable"
  match (get result "services").asList with
  | some [data] => .ok data
  | _ => .error ⟨false, "service_unavailable"⟩

/-- The arguments of `describe-services`. -/
def Context.describeServices (c : Context) : List String :=
  ["ecs", "describe-services", "--cluster", c.cluster, "--services", c.serviceName]

/-- `service`: a description that is at hand, or a new one. -/
def Controller.service (k : Controller) (deadline : Option Int) (data : Option Py) :
    Task Service := do
  let data ← match data with
    | some data => pure data
    | none => do
        let result ← k.aws deadline k.context.describeServices
        lift (describedService result)
  lift (Service.read k.context data)

def Service.stable (s : Service) : Except Failure Unit := do
  require (isOneOf ["COMPLETED", "IN_PROGRESS"] s.primary.rolloutState)
    "deployment_failed_or_unknown"
  ready (isText "COMPLETED" s.primary.rolloutState) "deployment_not_completed"
  ready (decide (s.runningCount = s.desiredCount ∧ s.pendingCount = 0 ∧
    s.primaryDesiredCount = s.desiredCount ∧ s.primary.runningCount = s.desiredCount ∧
    s.primary.pendingCount = 0)) "deployment_counts_mismatch"
  ready (s.deployments.all fun d =>
    d.id == s.primary.id || (d.runningCount == 0 && d.pendingCount == 0)) "old_tasks_remaining"

def Controller.readSnapshot (k : Controller) (deadline : Int) : Task Snapshot := do
  let service ← k.service deadline none
  let image : String ← call (.checkDefinition service.taskDefinition)
  lift (require (image == k.context.repo ++ ":web-latest") "web_image_mismatch")
  call .probeTaskReads
  let after ← k.service deadline none
  lift (ready (after.primary.id == service.primary.id
    && after.taskDefinition == service.taskDefinition
    && decide (after.desiredCount = service.desiredCount)) "service_snapshot_moved")
  pure
    { serviceArn := k.context.serviceArn
      clusterArn := k.context.clusterArn
      taskDefinition := service.taskDefinition
      primaryId := service.primary.id
      desiredCount := service.desiredCount
      image }

def Controller.snapshot (k : Controller) (rounds : Nat) : Task Snapshot :=
  waitForReads none (fun deadline _ => k.readSnapshot deadline) (120 * 1000) (5 * 1000) rounds

/-! ## Images -/

/-- The media types of an image and of an index. -/
def imageTypes : List String :=
  ["application/vnd.oci.image.manifest.v1+json",
    "application/vnd.docker.distribution.manifest.v2+json"]

def indexTypes : List String :=
  ["application/vnd.oci.image.index.v1+json",
    "application/vnd.docker.distribution.manifest.list.v2+json"]

/-- The digest of a manifest. -/
def contentDigest (raw : String) : String :=
  "sha256:" ++ String.ofList (Sha256.hexDigest raw.toList)

/-- An image: its digest and its manifest. -/
structure Image where
  digest : String
  raw : String
  manifest : Fields

def describedImage (response : Fields) : Except Failure Fields := do
  require (!(get response "failures").truthy) "image_unavailable"
  match (get response "images").asList with
  | some [image] => dict image
  | _ => .error ⟨false, "image_unavailable"⟩

/-- The image of a response for the reference `key=value`. -/
def Controller.readImage (k : Controller) (key value : String) (response : Fields) :
    Except Failure Image := do
  let image ← describedImage response
  let imageId ← getDict image "imageId"
  require (isText k.context.account (get image "registryId")
    && isText k.context.repoName (get image "repositoryName")) "image_scope_mismatch"
  let digest ← expect ((get imageId "imageDigest").asStr.filter isDigest) "image_scope_mismatch"
  let raw ← expect (get image "imageManifest").asStr "image_scope_mismatch"
  require (isText value (get imageId key)) "image_reference_mismatch"
  require (contentDigest raw == digest) "image_content_mismatch"
  let manifest ← k.decodeJson raw
  let manifest ← expect manifest.asDict "invalid_image_manifest"
  let mediaType ← expect (get manifest "mediaType").asStr "invalid_image_manifest"
  require (match get manifest "schemaVersion" with
    | .int n => n == 2
    | _ => false) "invalid_image_manifest"
  require (isText mediaType (get image "imageManifestMediaType")) "invalid_image_manifest"
  pure { digest, raw, manifest }

def Controller.ecrImage (k : Controller) (deadline : Option Int) (key value : String) :
    Task Image := do
  let response ← k.aws deadline
    ["ecr", "batch-get-image", "--registry-id", k.context.account, "--repository-name",
      k.context.repoName, "--image-ids", s!"{key}={value}"]
  lift (k.readImage key value response)

def imageManifest (manifest : Fields) : Except Failure Unit := do
  require (isOneOf imageTypes (get manifest "mediaType")) "invalid_image_manifest"
  let config ← getDict manifest "config"
  require ((get config "digest").asStr.any isDigest) "invalid_image_manifest"
  let layers ← expect (get manifest "layers").asList "invalid_image_manifest"
  let layers ← layers.mapM dict
  require (layers.all fun layer => (get layer "digest").asStr.any isDigest)
    "invalid_image_manifest"

/-- A child of an index that is an image for linux/arm64. -/
def isArm64 (child : Fields) : Except Failure Bool := do
  let platform ← getDict child "platform"
  pure (isText "linux" (get platform "os") && isText "arm64" (get platform "architecture")
    && ((get platform "variant").isNone || isText "v8" (get platform "variant")))

/-- `resolve_build`: the build with the expected digest, and its manifest. -/
def Controller.resolveBuild (k : Controller) (deadline : Option Int) (expected : Option String) :
    Task (Build × String) := do
  let expected ← lift (expect (expected.filter isDigest) "invalid_image_digest")
  let image ← k.ecrImage deadline "imageTag" ("web-" ++ k.context.commit)
  lift (require (image.digest == expected) "build_digest_mismatch")
  let mediaType ← lift (expect (get image.manifest "mediaType").asStr "invalid_image_manifest")
  if indexTypes.contains mediaType then do
    let children ← lift (expect (get image.manifest "manifests").asList "invalid_image_index")
    lift (require (decide (0 < children.length ∧ children.length ≤ 32)) "invalid_image_index")
    let children ← lift (children.mapM dict)
    let marked ← lift (children.mapM fun child => do pure (child, ← isArm64 child))
    match marked.filter Prod.snd with
    | [(child, _)] => do
        let arm ← lift (expect ((get child "digest").asStr.filter isDigest) "arm64_image_missing")
        lift (require (isOneOf imageTypes (get child "mediaType")) "arm64_image_missing")
        let armImage ← k.ecrImage deadline "imageDigest" arm
        lift (require (match get child "size" with
          | .int n => n == armImage.raw.utf8ByteSize
          | _ => false) "image_content_mismatch")
        lift (imageManifest armImage.manifest)
        pure (⟨k.context.commit, image.digest, arm, mediaType⟩, image.raw)
    | _ => throw ⟨false, "arm64_image_missing"⟩
  else do
    lift (imageManifest image.manifest)
    pure (⟨k.context.commit, image.digest, image.digest, mediaType⟩, image.raw)

/-- `build_proof`: the recorded build, and its manifest. -/
def Controller.buildProof (k : Controller) (deadline : Option Int) (m : Manifest) :
    Task (Build × String) := do
  let (actual, raw) ← k.resolveBuild deadline (m.build.map Build.digest)
  lift (require (m.build == some actual) "build_proof_mismatch")
  pure (actual, raw)

/-! ## The running tasks -/

/-- A part of the manifest that has to be there. -/
def recorded {α : Type} (part : Option α) : Except Failure α :=
  match part with
  | some a => .ok a
  | none => .error .unexpected

/-- The parameters of `list-tasks`. -/
def Context.listTasks (c : Context) (token : Option String) : List String :=
  let params : List (String × Json) :=
    [("cluster", .str c.cluster), ("serviceName", .str c.serviceName),
      ("desiredStatus", .str "RUNNING"), ("maxResults", .int 100)] ++
    (match token with
      | some token => [("nextToken", .str token)]
      | none => [])
  ["ecs", "list-tasks", "--cli-input-json", String.ofList (Json.dumps (.obj params)),
    "--no-paginate"]

/-- The pages of `list-tasks`: what they list, and whether there are more. -/
def Controller.listTasks (k : Controller) (deadline : Option Int) :
    Nat → List Py → Option String → Task (List Py × Bool)
  | 0, arns, _ => pure (arns, true)
  | pages + 1, arns, token => do
      let page ← k.aws deadline (k.context.listTasks token)
      let items ← lift (expect (get page "taskArns").asList "tasks_missing")
      if (get page "nextToken").truthy then do
        let token ← lift (expect (get page "nextToken").asStr "invalid_task_page")
        k.listTasks deadline pages (arns ++ items) (some token)
      else pure (arns ++ items, false)

/-- The container `web` of a task. -/
def webContainer (task : Fields) : Except Failure Fields := do
  let containers ← match find task "containers" with
    | none => .ok []
    | some containers => match containers.asList with
      | some items => items.mapM dict
      | none => .error .unexpected
  match containers.filter fun c => isText "web" (get c "name") with
  | [web] => .ok web
  | [] => .error ⟨true, "web_container_missing"⟩
  | _ => .error ⟨false, "web_container_invalid"⟩

/-- The checks on one task: its ARN and the digest of its image. -/
def checkTask (c : Context) (m : Manifest) (batch checked : List String) (task : Fields) :
    Except Failure (String × String) := do
  let roll ← recorded m.roll
  let build ← recorded m.build
  let arn ← expect ((get task "taskArn").asStr.filter fun arn =>
    batch.contains arn && !checked.contains arn) "task_release_mismatch"
  require (isText c.clusterArn (get task "clusterArn")
    && isText ("service:" ++ c.serviceName) (get task "group")
    && (get task "startedBy").asStr.any isDeploymentId
    && (get task "taskDefinitionArn").asStr.any c.isTaskDefinitionArn) "task_release_mismatch"
  ready (isText roll.deploymentId (get task "startedBy")
    && isText m.snapshot.taskDefinition (get task "taskDefinitionArn")) "task_release_mismatch"
  ready (isText "RUNNING" (get task "lastStatus") && isText "RUNNING" (get task "desiredStatus")
    && isText "HEALTHY" (get task "healthStatus")) "task_not_healthy"
  let web ← webContainer task
  require (isText m.snapshot.image (get web "image")
    && ((get web "imageDigest").isNone || isText "" (get web "imageDigest")
      || (get web "imageDigest").asStr.any isDigest)) "web_image_mismatch"
  ready (isText "RUNNING" (get web "lastStatus") && isText "HEALTHY" (get web "healthStatus")
    && isOneOf [build.digest, build.arm64Digest] (get web "imageDigest"))
    "web_runtime_digest_or_health_mismatch"
  pure (arn, ((get web "imageDigest").asStr).getD "")

def checkTasks (c : Context) (m : Manifest) (batch : List String) :
    List String × List String → List Fields → Except Failure (List String × List String)
  | seen, [] => .ok seen
  | (checked, digests), task :: rest => do
      let (arn, digest) ← checkTask c m batch checked task
      checkTasks c m batch (checked ++ [arn], digests ++ [digest]) rest

/-- The tasks of a response of `describe-tasks`. -/
def describedTasks (batch : List String) (result : Fields) : Except Failure (List Fields) := do
  let items ← expect (get result "tasks").asList "tasks_unavailable"
  let tasks ← items.mapM fun item => expect item.asDict "tasks_unavailable"
  let failures ← expect ((find result "failures").getD (.list [])).asList "tasks_unavailable"
  require (failures.all fun failure => failure.dictAnd fun f =>
    isText "MISSING" (get f "reason") && isOneOf batch (get f "arn")) "tasks_unavailable"
  ready (failures.isEmpty && tasks.length == batch.length) "tasks_unavailable"
  pure tasks

/-- The arguments of `describe-tasks`. -/
def Context.describeTasks (c : Context) (batch : List String) : List String :=
  ["ecs", "describe-tasks", "--cluster", c.cluster, "--tasks"] ++ batch

def Controller.describeTasks (k : Controller) (deadline : Option Int) (m : Manifest) :
    List (List String) → List String × List String → Task (List String × List String)
  | [], seen => pure seen
  | batch :: rest, seen => do
      let result ← k.aws deadline (k.context.describeTasks batch)
      let tasks ← lift (describedTasks batch result)
      let seen ← lift (checkTasks k.context m batch seen tasks)
      k.describeTasks deadline m rest seen

/-- `arns[start:start + 100]` for each start. -/
def batches (arns : List String) : List (List String) :=
  (List.range ((arns.length + 99) / 100)).map fun i => (arns.drop (100 * i)).take 100

/-- `running_tasks`: the number of tasks and their digests. -/
def Controller.runningTasks (k : Controller) (deadline : Option Int) (m : Manifest) :
    Task (Nat × List String) := do
  let (listed, more) ← k.listTasks deadline 10 [] none
  let arns ← lift (listed.mapM fun item =>
    expect (item.asStr.filter k.context.isTaskArn) "task_scope_mismatch")
  lift (ready (!more && decide ((arns.length : Int) = m.snapshot.desiredCount)
    && decide arns.Nodup) "task_count_mismatch")
  let (checked, digests) ← k.describeTasks deadline m (batches arns) ([], [])
  lift (require (decide (checked.length = arns.length) && arns.all checked.contains)
    "tasks_unavailable")
  pure (checked.length, digests.dedup.mergeSort)

end AwsOps.Release

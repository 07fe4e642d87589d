import Mathlib.Data.List.Sort
import Mathlib.Data.Rat.Defs
import AwsOps.Foundation.Entries
import AwsOps.Foundation.Js
import AwsOps.Foundation.Paging
import AwsOps.Foundation.Text

/-!
# The SDK collectors

What `sync_lambda.py` reads through boto3 because Steampipe cannot supply it: VPC origins of
CloudFront, listener rules of load balancers, buckets and collections. A call of an item that fails
is counted, so that the run is partial and prunes nothing; a denial that will not go away leaves an
attribute unknown and is counted apart.
-/

namespace AwsOps.Inventory.Sdk

open Paging

/-! ## Failures -/

/-- What a call raises: a `ClientError` with its type and code, or anything else. -/
inductive AwsError
  | client (type code : String)
  | raised
  deriving DecidableEq

/-- The result of a call. -/
abbrev Outcome (α : Type) : Type :=
  Except AwsError α

/-- `_SAFE_FAILURE_LABEL_RE`. -/
def isSafeLabel (label : String) : Bool :=
  let cs := label.toList
  1 ≤ cs.length && cs.length ≤ 128 &&
    cs.all fun c => c.isAlphanum || c == '_' || c == '.' || c == ':' || c == '-'

/-- `_safe_sdk_failure_type` of a `ClientError`. -/
def safeSdkFailureType (type code : String) : String :=
  let label := if code = "" then type else type ++ ":" ++ code
  if isSafeLabel label then label else type

def safeSdkResponseFailureType (code : String) : String :=
  let label := if code = "" then "CollectionError" else "CollectionError:" ++ code
  if isSafeLabel label then label else "CollectionError"

/-- `_S3_STEADY_DENIAL_CODES`. -/
def steadyDenialCodes : List String :=
  ["AccessDenied", "AccessDeniedException", "UnauthorizedOperation", "AllAccessDisabled"]

/-- What a part of a collection gives. -/
structure Part (ρ : Type) where
  rows : List ρ
  failures : List String
  unknownAttrs : Nat

/-- Nothing yet. -/
def Part.none {ρ : Type} : Part ρ :=
  ⟨[], [], 0⟩

/-- A failed call, and no row. -/
def Part.failed {ρ : Type} (type code : String) : Part ρ :=
  ⟨[], [safeSdkFailureType type code], 0⟩

/-- One part after the other. -/
def Part.append {ρ : Type} (a b : Part ρ) : Part ρ :=
  ⟨a.rows ++ b.rows, a.failures ++ b.failures, a.unknownAttrs + b.unknownAttrs⟩

/-- Append what an item gives. -/
def Part.step {α ρ : Type} (part : α → Outcome (Part ρ)) (sofar : Part ρ) (item : α) :
    Outcome (Part ρ) :=
  (part item).map sofar.append

/-- What a collector returns. -/
structure Collected (ρ : Type) where
  rows : List ρ
  failureCount : Nat
  failureTypes : List String
  unknownAttributeCount : Nat

def sdkCollection {ρ : Type} (part : Part ρ) : Collected ρ where
  rows := part.rows
  failureCount := part.failures.length
  failureTypes := (part.failures.filter isSafeLabel).dedup.insertionSort (· ≤ ·)
  unknownAttributeCount := part.unknownAttrs

def normalizeSdkCollection {ρ : Type} (result : Collected ρ) : Collected ρ :=
  { result with
    failureTypes := (result.failureTypes.filter isSafeLabel).dedup.insertionSort (· ≤ ·) }

def sdkPartial {ρ : Type} (result : Collected ρ) : Bool :=
  0 < (normalizeSdkCollection result).failureCount

/-! ## The account -/

/-- A VPC origin, with what `get_vpc_origin` answers. -/
structure VpcOriginDetail where
  name : Option String
  arn : Option String
  status : Option String

structure VpcOrigin where
  id : String
  detail : Outcome VpcOriginDetail

structure DistributionOrigin where
  domain : Option String
  vpcOriginId : Option String

/-- A distribution, with what `get_distribution_config` answers. -/
structure Distribution where
  id : String
  origins : Outcome (List DistributionOrigin)

structure Rule where
  ruleArn : String
  priority : Option String
  isDefault : Bool
  conditions : Js
  actions : Js

structure Listener where
  listenerArn : String
  port : Option Nat
  protocol : Option String
  rules : Paged AwsError Rule

structure LoadBalancer where
  loadBalancerArn : String
  type : String
  listeners : Paged AwsError Listener

/-- `PublicAccessBlockConfiguration`. -/
structure PublicAccessBlock where
  blockPublicAcls : Option Bool
  blockPublicPolicy : Option Bool
  restrictPublicBuckets : Option Bool
  ignorePublicAcls : Option Bool

/-- A bucket, with what the calls on it answer: the constraint of its location, whether its policy
is public, the status of versioning, the algorithm of each encryption rule, whether there is a
logging configuration, and the keys and values of its tags. -/
structure Bucket where
  name : String
  creationDate : Option String
  location : Outcome (Option String)
  publicAccessBlock : Outcome PublicAccessBlock
  policyStatus : Outcome (Option Bool)
  versioning : Outcome (Option String)
  encryption : Outcome (List (Option String))
  logging : Outcome Bool
  tagging : Outcome (List (String × String))

structure CollectionDetail where
  name : Option String
  arn : String
  type : Option String
  status : Option String
  description : Option String
  collectionEndpoint : Option String
  dashboardEndpoint : Option String
  kmsKeyArn : Option String
  createdDate : Option Rat
  lastModifiedDate : Option Rat

/-- A collection, with what a batch answers for it: its detail, or the code of an error. -/
structure AossCollection where
  id : String
  detail : Except String CollectionDetail

/-- What there is in the account, and how the calls go. No two VPC origins share an id. -/
structure Aws where
  region : String
  listsVpcOrigins : Bool
  vpcOrigins : Paged AwsError VpcOrigin
  distributions : Paged AwsError Distribution
  loadBalancers : Paged AwsError LoadBalancer
  buckets : Paged AwsError Bucket
  collections : Paged AwsError AossCollection
  batchRaises : Nat → Bool
  vpcOriginIds : (vpcOrigins.listed.map VpcOrigin.id).Nodup

/-! ## VPC origins of CloudFront -/

structure VpcOriginRow where
  vpcOriginId : String
  name : Option String
  arn : Option String
  status : Option String
  distributionIds : List String
  originRefs : List (String × Option String)

/-- An entry of `vos`, if the call succeeds. -/
def vpcOriginPart (origin : VpcOrigin) : Outcome (Part (String × VpcOriginDetail)) :=
  match origin.detail with
  | .ok detail => .ok ⟨[(origin.id, detail)], [], 0⟩
  | .error (.client type code) => .ok (.failed type code)
  | .error .raised => .error .raised

/-- The entry of an origin in `dists` and `refs`, if it is a VPC origin: that, the distribution and
the domain. -/
def originRef (distributionId : String) (origin : DistributionOrigin) :
    Option (String × String × Option String) :=
  match origin.vpcOriginId with
  | none => none
  | some vid => if vid = "" then none else some (vid, distributionId, origin.domain)

/-- The entries of a distribution. -/
def distributionPart (distribution : Distribution) :
    Outcome (Part (String × String × Option String)) :=
  match distribution.origins with
  | .ok origins => .ok ⟨origins.filterMap (originRef distribution.id), [], 0⟩
  | .error (.client type code) => .ok (.failed type code)
  | .error .raised => .error .raised

def vpcOriginRow (refs : List (String × String × Option String))
    (entry : String × VpcOriginDetail) : VpcOriginRow where
  vpcOriginId := entry.1
  name := entry.2.name
  arn := entry.2.arn
  status := entry.2.status
  distributionIds := ((refs.filter fun ref => ref.1 = entry.1).map fun ref =>
    ref.2.1).dedup.insertionSort (· ≤ ·)
  originRefs := (refs.filter fun ref => ref.1 = entry.1).map Prod.snd

def fetchCloudfrontVpcOrigins (aws : Aws) : Outcome (Collected VpcOriginRow) :=
  if aws.listsVpcOrigins then do
    let vos ← aws.vpcOrigins.follow (Part.step vpcOriginPart) .none
    let refs ← aws.distributions.follow (Part.step distributionPart) .none
    let failures := vos.failures ++ refs.failures
    -- a distribution that cannot be read may refer to any origin, so no row is complete
    if refs.failures ≠ [] then pure (sdkCollection ⟨[], failures, 0⟩)
    else
      pure (sdkCollection
        ⟨(Entries.ofList vos.rows).map (vpcOriginRow refs.rows), failures, 0⟩)
  else pure (sdkCollection ⟨[], ["UnsupportedApi"], 0⟩)

/-! ## Listener rules -/

structure RuleRow where
  ruleArn : String
  region : String
  listenerArn : String
  loadBalancerArn : String
  port : Option Nat
  protocol : Option String
  priority : Option String
  isDefault : Bool
  conditions : Js
  actions : Js

def ruleRow (region : String) (lb : LoadBalancer) (listener : Listener) (rule : Rule) : RuleRow where
  ruleArn := rule.ruleArn
  region := region
  listenerArn := listener.listenerArn
  loadBalancerArn := lb.loadBalancerArn
  port := listener.port
  protocol := listener.protocol
  priority := rule.priority
  isDefault := rule.isDefault
  conditions := rule.conditions
  actions := rule.actions

/-- The rows of listeners, up to the first call that fails. The marker of the rules is not looked
at. -/
def listenerRows (region : String) (lb : LoadBalancer) :
    List Listener → List RuleRow × Option AwsError
  | [] => ([], none)
  | listener :: rest =>
    match listener.rules.call none with
    | .error e => ([], some e)
    | .ok (rules, _) =>
      let more := listenerRows region lb rest
      (rules.map (ruleRow region lb listener) ++ more.1, more.2)

/-- What a load balancer gives. Only those of applications have rules. The marker of the listeners
is not looked at. -/
def loadBalancerPart (region : String) (lb : LoadBalancer) : Outcome (Part RuleRow) :=
  if lb.type ≠ "application" then .ok .none
  else
    let found :=
      match lb.listeners.call none with
      | .error e => ([], some e)
      | .ok (listeners, _) => listenerRows region lb listeners
    match found with
    | (rows, none) => .ok ⟨rows, [], 0⟩
    | (rows, some (.client type code)) => .ok ⟨rows, [safeSdkFailureType type code], 0⟩
    | (_, some .raised) => .error .raised

def fetchAlbListenerRules (aws : Aws) : Outcome (Collected RuleRow) := do
  let part ← aws.loadBalancers.follow (Part.step (loadBalancerPart aws.region)) .none
  pure (sdkCollection part)

/-! ## Buckets -/

/-- The record of a bucket while its attributes are read. -/
@[ext] structure Reading (ρ : Type) where
  record : ρ
  failures : List String
  unknownAttrs : Nat
  denied : List String
  transientFailed : Bool

/-- One attribute call: its value, the codes that say that there is nothing to read, a steady
denial, or a failure that may pass. -/
def attempt {α ρ : Type} (outcome : Outcome α) (onValue : α → ρ → ρ) (absentCodes : List String)
    (onAbsent : ρ → ρ) (attributes : List String) (r : Reading ρ) : Outcome (Reading ρ) :=
  match outcome with
  | .ok value => .ok { r with record := onValue value r.record }
  | .error (.client type code) =>
    if code ∈ absentCodes then .ok { r with record := onAbsent r.record }
    else if code ∈ steadyDenialCodes then
      .ok { r with unknownAttrs := r.unknownAttrs + 1, denied := r.denied ++ attributes }
    else
      .ok { r with
        failures := r.failures ++ [safeSdkFailureType type code], transientFailed := true }
  | .error .raised => .error .raised

/-- What a bucket gives. One that cannot be placed is skipped, and so is one of which an attribute
could not be read for now. -/
def bucketPart {ρ : Type} (start : String → ρ) (read : Reading ρ → Outcome (Reading ρ))
    (disclose : List String → ρ → ρ) (bucket : Bucket) : Outcome (Part ρ) :=
  match bucket.location with
  | .error (.client type code) => .ok (.failed type code)
  | .error .raised => .error .raised
  | .ok constraint => do
      let region := if constraint.getD "" = "" then "us-east-1" else constraint.getD ""
      let r ← read ⟨start region, [], 0, [], false⟩
      if r.transientFailed then pure ⟨[], r.failures, r.unknownAttrs⟩
      else pure ⟨[disclose r.denied r.record], r.failures, r.unknownAttrs⟩

/-- The buckets that `list_buckets` answers, one after the other. The continuation token is not
looked at. -/
def eachBucket {ρ : Type} (aws : Aws) (part : Bucket → Outcome (Part ρ)) : Outcome (Collected ρ) := do
  let (buckets, _) ← aws.buckets.call none
  let found ← buckets.foldlM (Part.step part) .none
  pure (sdkCollection found)

/-- A row of `s3_public_access`. An attribute that is `none` was not told; those that were denied
are named. -/
structure S3PublicAccessRow where
  name : String
  region : String
  bucketPolicyIsPublic : Option Bool
  blockPublicAcls : Option Bool
  blockPublicPolicy : Option Bool
  restrictPublicBuckets : Option Bool
  ignorePublicAcls : Option Bool
  attributesUnknown : List String

/-- The attributes of `s3_public_access`. -/
def readPublicAccess (bucket : Bucket) (r : Reading S3PublicAccessRow) :
    Outcome (Reading S3PublicAccessRow) := do
  let r ← attempt bucket.publicAccessBlock
    (fun config rec => { rec with
      blockPublicAcls := config.blockPublicAcls
      blockPublicPolicy := config.blockPublicPolicy
      restrictPublicBuckets := config.restrictPublicBuckets
      ignorePublicAcls := config.ignorePublicAcls })
    ["NoSuchPublicAccessBlockConfiguration", "NoSuchPublicAccessBlock"]
    (fun rec => { rec with
      blockPublicAcls := some false
      blockPublicPolicy := some false
      restrictPublicBuckets := some false
      ignorePublicAcls := some false })
    ["block_public_acls", "block_public_policy", "restrict_public_buckets", "ignore_public_acls"] r
  attempt bucket.policyStatus (fun isPublic rec => { rec with bucketPolicyIsPublic := isPublic })
    ["NoSuchBucketPolicy"] (fun rec => { rec with bucketPolicyIsPublic := some false })
    ["bucket_policy_is_public"] r

def fetchS3PublicAccess (aws : Aws) : Outcome (Collected S3PublicAccessRow) :=
  eachBucket aws fun bucket =>
    bucketPart (fun region => ⟨bucket.name, region, none, none, none, none, none, []⟩)
      (readPublicAccess bucket) (fun denied rec => { rec with attributesUnknown := denied }) bucket

/-- A row of `s3`. -/
structure S3SecurityRow where
  name : String
  region : String
  arn : String
  creationDate : Option String
  versioningEnabled : Option Bool
  encryption : Option String
  loggingEnabled : Option Bool
  tags : Option (List (String × String))
  bucketPolicyIsPublic : Option Bool
  attributesUnknown : List String

/-- The algorithm of the first encryption rule. -/
def encryptionOf (rules : List (Option String)) : String :=
  match rules with
  | some algo :: _ => if algo = "" then "enabled" else algo
  | _ => "enabled"

/-- The attributes of `s3`. -/
def readSecurity (bucket : Bucket) (r : Reading S3SecurityRow) : Outcome (Reading S3SecurityRow) := do
  let r ← attempt bucket.versioning
    (fun status rec => { rec with versioningEnabled := some (status == some "Enabled") })
    [] id ["versioning_enabled"] r
  let r ← attempt bucket.encryption
    (fun rules rec => { rec with encryption := some (encryptionOf rules) })
    ["ServerSideEncryptionConfigurationNotFoundError"]
    (fun rec => { rec with encryption := some "none" }) ["encryption"] r
  let r ← attempt bucket.logging (fun enabled rec => { rec with loggingEnabled := some enabled })
    [] id ["logging_enabled"] r
  let r ← attempt bucket.tagging
    (fun tags rec => { rec with
      tags := some (Entries.ofList (tags.filter fun tag => tag.1 ≠ "")) })
    ["NoSuchTagSet"] (fun rec => { rec with tags := some [] }) ["tags"] r
  attempt bucket.policyStatus (fun isPublic rec => { rec with bucketPolicyIsPublic := isPublic })
    ["NoSuchBucketPolicy"] (fun rec => { rec with bucketPolicyIsPublic := some false })
    ["bucket_policy_is_public"] r

def fetchS3Security (aws : Aws) : Outcome (Collected S3SecurityRow) :=
  eachBucket aws fun bucket =>
    bucketPart
      (fun region => ⟨bucket.name, region, "arn:aws:s3:::" ++ bucket.name, bucket.creationDate, none,
        none, none, none, none, []⟩)
      (readSecurity bucket) (fun denied rec => { rec with attributesUnknown := denied }) bucket

/-! ## Collections of OpenSearch Serverless -/

structure AossRow where
  id : String
  name : Option String
  region : String
  accountId : String
  arn : String
  type : Option String
  status : Option String
  description : Option String
  collectionEndpoint : Option String
  dashboardEndpoint : Option String
  kmsKeyArn : Option String
  createdDate : Option String
  lastModifiedDate : Option String

def accountOfArn (arn : String) : String :=
  let parts := Text.split [':'] arn.toList
  if 6 ≤ parts.length then String.ofList (parts.getD 4 []) else ""

section Collections

-- `datetime.fromtimestamp(seconds, tz=timezone.utc).isoformat()`
variable (isoformat : Rat → String)

def aossRow (region id : String) (detail : CollectionDetail) : AossRow where
  id := id
  name := detail.name
  region := region
  accountId := accountOfArn detail.arn
  arn := detail.arn
  type := detail.type
  status := detail.status
  description := detail.description
  collectionEndpoint := detail.collectionEndpoint
  dashboardEndpoint := detail.dashboardEndpoint
  kmsKeyArn := detail.kmsKeyArn
  createdDate := detail.createdDate.map fun v => isoformat (v / 1000)
  lastModifiedDate := detail.lastModifiedDate.map fun v => isoformat (v / 1000)

/-- The slices of a hundred. -/
def batches {α : Type} (items : List α) : List (List α) :=
  (List.range ((items.length + 99) / 100)).map fun i => (items.drop (100 * i)).take 100

/-- `batch_get_collection` and what is made of its answer. A collection is among the details or
among the errors. -/
def batchPart (aws : Aws) (batch : List AossCollection × Nat) : Outcome (Part AossRow) :=
  if aws.batchRaises batch.2 then .error .raised
  else
    let rows := batch.1.filterMap fun collection =>
      match collection.detail with
      | .ok detail => some (aossRow isoformat aws.region collection.id detail)
      | .error _ => none
    let failures := batch.1.filterMap fun collection =>
      match collection.detail with
      | .ok _ => none
      | .error code => some (safeSdkResponseFailureType code)
    .ok ⟨rows, failures, 0⟩

def fetchOpensearchServerless (aws : Aws) : Outcome (Collected AossRow) := do
  let ids ← aws.collections.follow (fun ids collection => .ok (ids ++ [collection])) []
  let part ← (batches ids).zipIdx.foldlM (Part.step (batchPart isoformat aws)) .none
  pure (sdkCollection part)

end Collections

end AwsOps.Inventory.Sdk

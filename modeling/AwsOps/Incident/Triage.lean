import AwsOps.Foundation.Text
import AwsOps.Incident.Tables

/-!
# Triage, in the web tier and in the worker

Both tiers make the same write: they insert an incident under the correlation key of the alert, and
the one that loses links its alert to the active incident with that key. The web tier then enqueues
the first stage; the worker's stage goes on with the investigation.
-/

namespace AwsOps.Incident

open Text (Unicode)

/-- The recovery of an alert that lost the insert: link it to the active incident with its key. -/
def linkExisting (key : List Char) : Handler (Option String) := do
  let found : Option String ← sql (.touchActive key)
  match found with
  | some id => do
      sql (.insertLink ⟨id, key, "dedup-race-or-lookback"⟩)
      pure (some id)
  | none => pure none

/-! ## The web tier -/

namespace Web

/-- The environment of the web tier and its SSM parameter. -/
structure Config where
  auroraEndpoint : Option String
  incidentLifecycleEnabled : Option String
  jobsQueueUrl : Option String
  agentSpaceVersion : Option String
  minSeverity : Option String

def Config.enabled (config : Config) : Bool :=
  config.auroraEndpoint.getD "" != "" && config.incidentLifecycleEnabled == some "true"

def severityRank : AlertSeverity → Nat
  | .critical => 3
  | .warning => 2
  | .info => 1

/-- `readMinSeverity`, from the value of the parameter. -/
def readMinSeverity (value : Option String) : AlertSeverity :=
  if value.getD "warning" = "critical" then .critical
  else if value.getD "warning" = "info" then .info
  else .warning

/-- The value of a field, or `null`. -/
def fieldOrNull (fields : List (String × String)) (name : String) : Json :=
  ((fields.find? fun field => field.1 == name).map fun field => .str field.2).getD .null

def buildTriggerSnapshot (event : AlertEvent) : Json :=
  let account := match fieldOrNull event.labels "account_id" with
    | .null => fieldOrNull event.annotations "accountId"
    | account => account
  .obj [("id", .str event.id), ("severity", .str event.severity.text),
    ("source", .str event.source), ("alertName", .str event.alertName),
    ("services", strings event.services), ("resources", strings event.resources),
    ("labels", stringFields event.labels), ("metric", event.metric.getD .null),
    ("timestamp", .str event.timestamp), ("account", account),
    ("alarmArn", (event.alarmArn.map .str).getD .null)]

/-- What `triageAndCreateOrLink` returns. -/
inductive TriageResult
  | new (incidentId : String)
  | linked (incidentId : Option String)
  | skipped
  | disabled
  deriving DecidableEq

def incidentRow (config : Config) (uuid : String) (event : AlertEvent) : IncidentRow where
  id := uuid
  correlationKey := correlationKey event
  fingerprint := .str event.id
  status := .triaged
  severity := .str event.severity.text
  triggerSource := .str event.source
  services := event.services.map .str
  resources := event.resources.map .str
  agentSpaceVersion := config.agentSpaceVersion
  rca := none
  triggerEvent := none

/-- `triageAndCreateOrLink`, with the id that `randomUUID` gives. -/
def triageAndCreateOrLink (config : Config) (uuid : String) (event : AlertEvent) :
    Handler TriageResult :=
  if !config.enabled then pure .disabled
  else if severityRank event.severity < severityRank (readMinSeverity config.minSeverity) then
    pure .skipped
  else do
    let won : Option String ← sql (.insertIncident (incidentRow config uuid event))
    match won with
    | none => do
        let incidentId ← linkExisting (correlationKey event)
        pure (.linked incidentId)
    | some _ => do
        sql (.saveTrigger uuid (buildTriggerSnapshot event))
        pure (.new uuid)

/-- A row of `worker_jobs` for the first stage. -/
structure StageJob where
  jobId : String
  type : String
  payload : Json
  dryRun : Bool
  status : String

/-- `enqueueInitialStage`, with the id that `randomUUID` gives: the row it inserts and the message
it sends, if there is a queue. -/
def enqueueInitialStage (config : Config) (jobId incidentId : String) :
    Option (StageJob × Option (List (String × Json))) :=
  if config.auroraEndpoint.getD "" = "" then none
  else
    let payload : Json := .obj [("incident_id", .str incidentId), ("stage", .str "triage")]
    some (⟨jobId, "incident_stage", payload, false, "queued"⟩,
      if config.jobsQueueUrl.getD "" = "" then none
      else some [("job_id", .str jobId), ("type", .str "incident_stage"), ("payload", payload),
        ("dry_run", .bool false)])

end Web

/-! ## The worker -/

namespace Worker

/-- The knobs of the lifecycle. -/
structure Caps where
  windowMin : Int
  stageTimeoutS : Int
  maxConcurrent : Int
  fanoutMax : Int
  minSeverity : String

/-- A knob that is an integer. -/
def intCap (U : Unicode) (value : Option String) (default : Int) : Int :=
  (value.bind fun v => Text.int U v.toList).getD default

/-- A knob that is a severity. -/
def severityCap (U : Unicode) (value : Option String) (default : String) : String :=
  match value with
  | none => default
  | some v =>
    let v := Text.lower U (String.ofList (Text.strip v.toList))
    if v ∈ ["critical", "warning", "info"] then v else default

/-- `read_caps`, from the values of the parameters. -/
def readCaps (U : Unicode) (param : String → Option String) : Caps where
  windowMin := intCap U (param "correlation-window-minutes") 20
  stageTimeoutS := intCap U (param "stage-timeout-seconds") 600
  maxConcurrent := intCap U (param "max-concurrent-investigations") 5
  fanoutMax := intCap U (param "subagent-fanout-max") 4
  minSeverity := severityCap U (param "min-severity") "warning"

/-- `_SEVERITY_RANK.get(text, 1)`. -/
def rank (text : String) : Nat :=
  if text = "critical" then 3 else if text = "warning" then 2 else 1

/-- `severity_rank`. It raises on a value that is neither a text nor empty. -/
def severityRank (U : Unicode) (severity : Json) : Option Nat :=
  if severity.truthy then (asString severity).map fun text => rank (Text.lower U text)
  else some (rank "")

def stageIdempotencyKey (incidentId stage : String) (attempt : Int) : List Char :=
  Sha256.hexDigest (incidentId ++ ":" ++ stage ++ ":" ++ toString attempt).toList

/-- A value can be sliced: it is a list or a text. -/
def sliceable : Json → Bool
  | .arr _ | .str _ => true
  | value => !value.truthy

/-- The fields of an object, or none for an empty value. -/
def asFields : Json → Option (List (String × Json))
  | .obj fields => some fields
  | value => if value.truthy then none else some []

/-- `isolate_payload` returns. The view that it returns is not used. -/
def isolates (payload : List (String × Json)) : Bool :=
  sliceable (get payload "services") && sliceable (get payload "resources") &&
    (asFields (get payload "labels")).isSome

/-- `value or []`. -/
def orEmpty (value : Json) : Json :=
  if value.truthy then value else .arr []

def buildTriggerSnapshot (p : List (String × Json)) : Option Json := do
  let labels ← asFields (get p "labels")
  let annotations ← asFields (get p "annotations")
  let account := match get labels "account_id" with
    | .null => get annotations "accountId"
    | account => account
  some (.obj [("id", get p "id"), ("severity", get p "severity"), ("source", get p "source"),
    ("alertName", get p "alertName"), ("services", orEmpty (get p "services")),
    ("resources", orEmpty (get p "resources")), ("labels", .obj labels),
    ("metric", get p "metric"), ("timestamp", get p "timestamp"), ("account", account),
    ("alarmArn", get p "alarmArn")])

structure StageInput where
  jobId : String
  incidentId : Option String
  payload : List (String × Json)
  attempt : Int

/-- The decisions of the Triage stage. -/
inductive Decision
  | skipped | linked | new
  deriving DecidableEq

structure TriageOutput where
  jobId : String
  incidentId : Option String
  decision : Decision
  rosterRequest : Bool
  maxConcurrency : Option Int
  deriving DecidableEq

/-- `dict.get` with a default for a missing key. -/
def getOr (fields : List (String × Json)) (name : String) (default : Json) : Json :=
  ((fields.find? fun field => field.1 == name).map Prod.snd).getD default

/-- The items of `list(value or [])`. -/
def items (value : Json) : List Json :=
  if value.truthy then (value.iterate).getD [] else []

/-- The row that `_dedup_insert` inserts. -/
def incidentRow (incidentId : String) (key : List Char) (event : List (String × Json)) :
    IncidentRow where
  id := incidentId
  correlationKey := key
  fingerprint := get event "id"
  status := .triaged
  severity := getOr event "severity" (.str "warning")
  triggerSource := getOr event "source" (.str "generic")
  services := items (get event "services")
  resources := items (get event "resources")
  agentSpaceVersion := none
  rca := none
  triggerEvent := none

def createStage (incidentId : String) (key : List Char) (jobId : Option String) (timeoutS : Int) :
    Handler (Option Nat) := do
  let created : Option Nat ← sql (.insertStage
    ⟨incidentId, "triage", key, jobId, .running, some timeoutS, .obj []⟩)
  match created with
  | some stage => pure (some stage)
  | none => sql (.findStage incidentId key)

/-- Checkpoint the stage and close it, if there is one. -/
def finishStage : Option Nat → Handler Unit
  | some stage => do
      let _ ← sql (.checkpoint stage)
      let _ ← sql (.transitionStage stage .succeeded)
      pure ()
  | none => pure ()

/-- Persist the snapshot, if it could be built. -/
def persistTrigger (incidentId : String) : Option Json → Handler Unit
  | some snapshot => sql (.saveTrigger incidentId snapshot)
  | none => pure ()

/-- The Triage stage after it has won the insert. -/
def startInvestigation (castUuid : String → Option String) (caps : Caps) (input : StageInput)
    (incidentId : String) : Handler TriageOutput := do
  let key := stageIdempotencyKey incidentId "triage" input.attempt
  let stage ← createStage incidentId key (castUuid input.jobId) caps.stageTimeoutS
  finishStage stage
  sql (.investigate incidentId)
  persistTrigger incidentId (buildTriggerSnapshot input.payload)
  pure ⟨input.jobId, some incidentId, .new, true, some caps.fanoutMax⟩

/-- `incident_id or _uuid()`. -/
def StageInput.idOr (input : StageInput) (uuid : String) : String :=
  if input.incidentId.getD "" = "" then uuid else input.incidentId.getD ""

/-- `lambda_handler` of the Triage stage, with the id that `_uuid` gives. It returns nothing when
it raises before its first statement. -/
def triage (U : Unicode) (castUuid : String → Option String) (param : String → Option String)
    (uuid : String) (input : StageInput) : Handler (Option TriageOutput) :=
  let caps := readCaps U param
  match severityRank U (get input.payload "severity"), correlationKey input.payload with
  | none, _ => pure none
  | some severity, key =>
    if severity < rank (Text.lower U caps.minSeverity) then
      pure (some ⟨input.jobId, none, .skipped, false, none⟩)
    else if !isolates input.payload then pure none
    else
      match key with
      | none => pure none
      | some key => do
          let row := incidentRow (input.idOr uuid) key input.payload
          let won : Option String ← sql (.insertIncident row)
          match won with
          | none => do
              let linked ← linkExisting key
              pure (some ⟨input.jobId, linked, .linked, false, none⟩)
          | some incidentId => do
              let output ← startInvestigation castUuid caps input incidentId
              pure (some output)

end Worker

end AwsOps.Incident

import AwsOps.Incident.Triage

/-!
# Writing the root cause back

The WriteBack stage renders the root cause of an incident and writes it to OpsCenter or to Incident
Manager, at most once, as the row of `incident_writeback` with the key of the incident is meant to
guarantee. It reads the row, makes the external write, and then upserts the row. Skips and dry runs
upsert the same row.
-/

namespace AwsOps.Incident.WriteBack

open Text (Unicode)
open Worker (asString)

/-! ## The tables -/

/-- The values of the column `incident_writeback.status`. -/
inductive Status
  | pending | rendered | succeeded | failed | resolved | skipped
  deriving DecidableEq

/-- `status in ("succeeded", "resolved")`. -/
def Status.finished : Status → Bool
  | succeeded | resolved => true
  | _ => false

def Status.text : Status → String
  | pending => "pending"
  | rendered => "rendered"
  | succeeded => "succeeded"
  | failed => "failed"
  | resolved => "resolved"
  | skipped => "skipped"

/-- The values of the column `target_system`. -/
inductive Target
  | opscenter | incidentManager
  deriving DecidableEq

def Target.text : Target → String
  | opscenter => "opscenter"
  | incidentManager => "incident_manager"

/-- The columns of an incident that the stage reads and sets, and its findings: their number and
their distinct sub-agents. -/
structure IncidentView where
  id : String
  severity : String
  agentSpaceVersion : Option String
  rca : Option Json
  lastEventAt : String
  triggerSource : String
  writebackStatus : Option Status
  findingCount : Nat
  dataSources : List String

/-- A row of `incident_writeback`. -/
structure Row where
  incidentId : String
  dedupKey : List Char
  target : Target
  status : Status
  sourceObjectId : Option String
  rcaVersion : String
  slackThread : Option String
  detail : Json

/-- What is asked of the external system: a timeline event of an incident, or an OpsItem. -/
inductive ObjectRequest
  | timelineEvent (arn eventTime description : String)
  | opsItem (title source severity description : String)

/-- What the external system does with the next request: it creates the object and says so, it
refuses, or it creates the object and the answer is lost. -/
inductive Service
  | creates (id : String)
  | refuses (error : String)
  | loses (error : String)

/-- The tables, the external system with the objects that it has created, and the messages that
were posted. -/
structure Store where
  incidents : List IncidentView
  rows : List Row
  service : Service
  objects : List ObjectRequest
  posts : List String

def Store.row (s : Store) (key : List Char) : Option Row :=
  s.rows.find? fun row => row.dedupKey == key

/-- `INSERT INTO incident_writeback ... ON CONFLICT (dedup_key) DO UPDATE`. -/
def Store.upsert (s : Store) (new : Row) : Store :=
  match s.row new.dedupKey with
  | none => { s with rows := s.rows ++ [new] }
  | some _ =>
    { s with rows := s.rows.map fun row =>
        if row.dedupKey == new.dedupKey then
          { row with
            status := new.status
            sourceObjectId := new.sourceObjectId <|> row.sourceObjectId
            slackThread := new.slackThread <|> row.slackThread
            detail := new.detail }
        else row }

/-! ## The statements -/

/-- A statement of the stage. -/
inductive Statement
  | loadIncident (id : String)
  | countFindings (id : String)
  /-- `SELECT status, slack_thread_ts FROM incident_writeback`. -/
  | claim (key : List Char)
  /-- The external write. -/
  | write (request : ObjectRequest)
  /-- The message to Slack. -/
  | post (text : String)
  | upsert (row : Row)
  /-- `UPDATE incidents SET writeback_status`. -/
  | setStatus (id : String) (status : Status)

/-- The answers. The external write gives the id of the object, or the text of the exception. -/
abbrev Statement.Answer : Statement → Type
  | loadIncident _ => Option IncidentView
  | countFindings _ => Nat × List String
  | claim _ => Option (Status × Option String)
  | write _ => Except String String
  | _ => Unit

/-- The programs of the stage. -/
abbrev Handler (α : Type) : Type :=
  Program Statement Statement.Answer α

/-- Run a statement. -/
def sql (c : Statement) : Handler c.Answer :=
  Program.command c

/-- The id that the external write returns: the one of the new OpsItem, or the record of the
incident. -/
def ObjectRequest.returned (created : String) : ObjectRequest → String
  | timelineEvent arn _ _ => arn
  | opsItem _ _ _ _ => created

/-- Execute a statement. -/
def Store.exec : (c : Statement) → Store → Option (c.Answer × Store)
  | .loadIncident id, s => some (s.incidents.find? fun incident => incident.id == id, s)
  | .countFindings id, s =>
    some ((s.incidents.find? fun incident => incident.id == id).elim (0, []) fun incident =>
      (incident.findingCount, incident.dataSources), s)
  | .claim key, s => some ((s.row key).map fun row => (row.status, row.slackThread), s)
  | .write request, s =>
    match s.service with
    | .creates id => some (.ok (request.returned id), { s with objects := s.objects ++ [request] })
    | .refuses error => some (.error error, s)
    | .loses error => some (.error error, { s with objects := s.objects ++ [request] })
  | .post text, s => some ((), { s with posts := s.posts ++ [text] })
  | .upsert row, s => some ((), s.upsert row)
  | .setStatus id status, s =>
    some ((), { s with incidents := s.incidents.map fun incident =>
      if incident.id == id then { incident with writebackStatus := some status } else incident })

/-! ## Rendering -/

/-- The environment of the stage, with `json.loads` and the text functions. The map of response
plans is absent when it is no JSON object. -/
structure Config where
  unicode : Unicode
  loads : String → Option Json
  defang : Json → Nat → String
  publicBase : String
  planMap : Option (List (String × String))
  opscenterSource : String
  slackEnabled : Bool

def rcaVersion : String :=
  "rca-2026-06-10"

def validCategory : List String :=
  ["deployment", "capacity", "configuration", "dependency", "security", "infrastructure", "unknown"]

def validConfidence : List String :=
  ["high", "medium", "low"]

def isOneOf (texts : List String) (value : Json) : Bool :=
  (asString value).any fun text => texts.contains text

def dedupKey (incidentId : String) : List Char :=
  Sha256.hexDigest (incidentId ++ ":writeback").toList

/-- The verdict of `sanitize_writeback_body`. -/
inductive Sanity
  | ok (fields : List (String × Json))
  | drop (reason : String)
  | raises

/-- The root cause is empty, or the fallback of a failed analysis. -/
def isFallback (U : Unicode) (root : String) : Bool :=
  let root := Text.strip root.toList
  root.isEmpty || "analysis unavailable".toList.isPrefixOf (U.lower root)

/-- `sanitize_writeback_body`. It raises on a root cause that is neither a text nor empty. -/
def sanitizeWritebackBody (U : Unicode) : Option Json → Sanity
  | some (.obj fields) =>
    let root := Worker.get fields "root_cause"
    match if root.truthy then asString root else some "" with
    | none => .raises
    | some root =>
      if isFallback U root then .drop "rca-fallback"
      else if !isOneOf validCategory (Worker.get fields "category") then .drop "bad-category"
      else if !isOneOf validConfidence (Worker.get fields "confidence") then
        .drop "bad-confidence"
      else .ok fields
  | _ => .drop "rca-missing"

/-- The body of a write-back. -/
structure Body where
  title : String
  description : String

/-- The first characters of a text. -/
def prefixOf (n : Nat) (text : String) : String :=
  String.ofList (text.toList.take n)

def textOf (value : Json) : String :=
  (asString value).getD ""

def buildRecommendationBody (config : Config) (incident : IncidentView) (rca : List (String × Json))
    (evidence : String) (findingCount : Nat) (dataSources : List String) : Body :=
  let root := config.defang (Worker.get rca "root_cause") 512
  let markdown := config.defang (Worker.getOr rca "markdown" (.str "")) 3400
  let space := if incident.agentSpaceVersion.getD "" = "" then "n/a"
    else incident.agentSpaceVersion.getD ""
  let sources := ", ".intercalate (sortedBy codePoints dataSources)
  { title := config.defang (.str ("AWSops recommendation: " ++ root)) 1000
    description := prefixOf 4000 ("\n".intercalate [
      "AWSops recommendation (NOT a confirmed root cause).",
      "Confidence: " ++ textOf (Worker.get rca "confidence") ++ "   Category: " ++
        textOf (Worker.get rca "category"),
      "Evidence: " ++ evidence ++ "  (findings: " ++ toString findingCount ++ ")",
      "Data sources: " ++ prefixOf 512 sources,
      "RCA version: " ++ rcaVersion ++ "   Agent space: " ++ config.defang (.str space) 64,
      "Generated: " ++ incident.lastEventAt,
      "",
      "--- analysis (recommendation only) ---",
      markdown]) }

/-- A body as a value. -/
def Body.json (body : Body) : Json :=
  .obj [("title", .str body.title), ("description", .str body.description)]

/-- `_route`. It raises when the map is no JSON object. -/
def route (config : Config) (incident : IncidentView) : Option (Option String) :=
  config.planMap.map fun plans =>
    (plans.find? fun plan => plan.1 == incident.triggerSource).map Prod.snd

def routeDecision (matched : Option String) : Target :=
  if matched.getD "" = "" then .opscenter else .incidentManager

def sev (U : Unicode) (severity : String) : String :=
  let severity := Text.lower U severity
  if severity = "critical" then "1" else if severity = "info" then "4" else "3"

/-- The external write for a target. -/
def objectRequest (config : Config) (incident : IncidentView) (matched : Option String) (body : Body) :
    ObjectRequest :=
  match routeDecision matched with
  | .incidentManager =>
    .timelineEvent (matched.getD "") incident.lastEventAt body.description
  | .opscenter =>
    .opsItem body.title config.opscenterSource (sev config.unicode incident.severity)
      (if body.description = "" then body.title else body.description)

/-! ## The handler -/

/-- What the stage returns. -/
structure Output where
  writeback : String
  reason : Option String := none
  body : Option Body := none
  target : Option Target := none
  sourceObjectId : Option String := none

/-- `_load`: the incident, with its root cause parsed, and its findings. -/
def load (config : Config) (incidentId : String) :
    Handler (Option (IncidentView × Nat × List String)) := do
  let found : Option IncidentView ← sql (.loadIncident incidentId)
  match found with
  | none => pure none
  | some incident => do
      let rca := match incident.rca with
        | some (.str text) => config.loads text
        | rca => rca
      let counted : Nat × List String ← sql (.countFindings incidentId)
      pure (some ({ incident with rca }, counted))

def record (incidentId : String) (row : Row) : Handler Unit := do
  sql (.upsert row)
  sql (.setStatus incidentId row.status)

/-- The row that a call of `_record` writes. -/
def recordRow (incidentId : String) (target : Target) (status : Status) (detail : Json)
    (sourceObjectId slackThread : Option String := none) : Row :=
  { incidentId, dedupKey := dedupKey incidentId, target, status, sourceObjectId, rcaVersion,
    slackThread, detail }

/-- `post_best_effort`: it posts when Slack is enabled, and returns the thread it was given. -/
def postBestEffort (config : Config) (title : String) (prior : Option String) :
    Handler (Option String) :=
  if config.slackEnabled then do
    sql (.post (prefixOf 3000 title))
    pure prior
  else pure prior

/-- What is recorded after the external write: it has succeeded, or it has failed. -/
def outcomeRow (incidentId : String) (target : Target) (answer : Except String String)
    (slackThread : Option String) : Row :=
  match answer with
  | .ok id =>
    recordRow incidentId target .succeeded
      (.obj [("target", .str target.text), ("marker", .str "AWSops-AIOps")]) (some id) slackThread
  | .error error =>
    recordRow incidentId target .failed
      (.obj [("target", .str target.text), ("error", .str (prefixOf 1000 error))]) none slackThread

/-- The external write and its record. -/
def writeBack (config : Config) (incidentId : String) (incident : IncidentView)
    (matched : Option String) (body : Body) (prior : Option String) : Handler (Option Output) := do
  let answer : Except String String ← sql (.write (objectRequest config incident matched body))
  let thread ← postBestEffort config body.title prior
  let row := outcomeRow incidentId (routeDecision matched) answer thread
  record incidentId row
  pure (some ⟨row.status.text, none, none, some row.target, row.sourceObjectId⟩)

/-- The stage on a root cause that can be written back. -/
def renderAndWrite (config : Config) (incidentId phase : String) (incident : IncidentView)
    (matched : Option String) (body : Body) : Handler (Option Output) :=
  if phase = "dry_run" then do
    record incidentId
      (recordRow incidentId (routeDecision matched) .rendered (.obj [("body", body.json)]))
    pure (some { writeback := "rendered", body := some body })
  else do
    let existing : Option (Status × Option String) ← sql (.claim (dedupKey incidentId))
    if (existing.map Prod.fst).any Status.finished then pure (some { writeback := "already-done" })
    else writeBack config incidentId incident matched body (existing.bind Prod.snd)

/-- `lambda_handler`. It returns nothing when it raises between two statements. -/
def lambdaHandler (config : Config) (incidentId phase : String) : Handler (Option Output) := do
  let loaded ← load config incidentId
  match loaded with
  | none => pure (some { writeback := "skipped", reason := some "no-incident" })
  | some (incident, findingCount, dataSources) =>
    match sanitizeWritebackBody config.unicode incident.rca, route config incident with
    | .raises, _ => pure none
    | .drop reason, _ => do
        record incidentId
          (recordRow incidentId .opscenter .skipped (.obj [("reason", .str reason)]))
        pure (some { writeback := "skipped", reason := some reason })
    | .ok _, none => pure none
    | .ok rca, some matched =>
      let evidence := if config.publicBase = "" then incidentId
        else config.publicBase ++ "/incidents/" ++ incidentId
      renderAndWrite config incidentId phase incident matched
        (buildRecommendationBody config incident rca evidence findingCount dataSources)

end AwsOps.Incident.WriteBack

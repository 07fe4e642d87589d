import AwsOps.Agent.ToolQuality

/-!
# The producers with status fields

`tool_receipts.py`, second part: the producers of the inventory, of rightsizing, of asynchronous
queries and of the shallow tools. A producer reads a fixed set of fields of a result, marks the
quality and gives an outcome. The status `partial` is written `partly` here.
-/

namespace AwsOps.Agent

open Py (Fields)
open Chat (Outcome)

/-- A producer: it marks the quality, and may raise a `TypeError`. -/
abbrev Producing : Type → Type :=
  StateT Fields Option

variable (env : Python)

/-- `q[key] = True`. -/
def flag (key : String) : Producing Unit :=
  modify (mark key true)

/-- `q[key] = True` where a problem is found. -/
def flagIf (key : String) (found : Bool) : Producing Unit :=
  modify (mark key found)

/-- A result that breaks the shape of its producer. -/
def malformed : Producing Outcome := do
  flag "invalid"
  return .unverified

/-- `"success" if rows else "empty"`. -/
def ofRows {α : Type} (rows : List α) : Outcome :=
  if rows.isEmpty then .empty else .success

/-! ## Inventory -/

def inventoryProjectedTypes : List String :=
  ["target_group", "alb", "nlb", "cloudfront", "ebs"]

/-- `[a-z][a-z0-9_]{0,60}`. -/
def isTypeName : List Char → Bool
  | first :: rest =>
    first.isLower && rest.length ≤ 60 && rest.all fun c => c.isLower || c.isDigit || c == '_'
  | [] => false

/-- `[A-Z0-9]{5,32}`. -/
def isIdentity (s : List Char) : Bool :=
  5 ≤ s.length && s.length ≤ 32 && s.all fun c => c.isUpper || c.isDigit

/-- A change of `q["collection"]`. -/
def modifyCollection (change : Fields → Fields) : Producing Unit :=
  modify fun q => Py.set q "collection" (.dict (change (fieldsOf q "collection")))

/-- One clock of a row: what it records, and whether it is a problem. -/
def sourceClock (healthy : Bool) (row : Fields) (key : String) : Option Py × Bool :=
  match Py.find row key with
  | none => (none, false)
  | some .none => (some .none, healthy && key != "finished_at")
  | some value =>
    let read := if matching (Patterns.isClockText (isDigit env)) 40 value then
        value.asStr.bind fun s => env.stamp (s.replace "Z" "+00:00")
      else none
    match read.map Py.int with
    | some stamp => if number stamp then (some stamp, false) else (none, true)
    | none => (none, true)

def inventorySource (row : Py) : Producing (Fields × Outcome) := do
  match row.asDict with
  | none =>
    flag "invalid"
    return ([("status", .str "unknown")], .unverified)
  | some row =>
    let mut source : Fields := []
    let mut valid := true
    let rtype := Py.get row "resource_type"
    if matching isTypeName 128 rtype then
      source := [("sourceId", .str ("inventory:" ++ rtype.asStr.getD ""))]
    else
      flagIf "invalid" (Py.has row "resource_type")
    let fresh := Py.get row "freshness"
    let healthy := fresh.isText "healthy"
    let current := Py.get row "current_count"
    if !fresh.isOneOf ["healthy", "degraded", "stale", "unavailable"] || (count current).isNone then
      flag (if Py.has row "freshness" && Py.has row "current_count" then "invalid" else "unknown")
      valid := false
    else
      source := Py.set source "itemCount" current
    match Py.find row "status" with
    | none => pure ()
    | some status =>
      if status.isNone then
        source := Py.set source "producerStatus" (.str "unknown")
      else if status.isOneOf ["succeeded", "failed", "partial", "running"] then
        source := Py.set source "producerStatus" status
      else
        flag "invalid"
        valid := false
      if healthy && !status.isText "succeeded" then
        flag "invalid"
        valid := false
    for key in ["row_count", "last_success_row_count", "unknown_attribute_count", "age_minutes",
        "stale_after_minutes"] do
      if (Py.find row key).any fun value => !value.isNone && (count value).isNone then
        flag "invalid"
        valid := false
    if healthy && (Py.find row "unknown_attribute_count").any fun value => !value.isZero then
      flag "invalid"
      valid := false
    for (key, dest) in [("latest_success_at", "capturedAtMs"),
        ("last_success_at", "lastSuccessAtMs"), ("finished_at", "finishedAtMs")] do
      let (stamp, problem) := sourceClock env healthy row key
      if let some stamp := stamp then
        source := Py.set source dest stamp
      if problem then
        flag "invalid"
        valid := false
    if !valid then
      return (Py.set source "status" (.str "unknown"), .unverified)
    if healthy then
      if current.isZero then
        return (Py.set source "status" (.str "empty"), .empty)
      return (Py.set source "status" (.str "ok"), .success)
    if fresh.isText "stale" then
      modifyCollection fun c => Py.set c "stale" (.bool true)
    if fresh.isOneOf ["stale", "degraded"] || current.truthy then
      return (Py.set source "status" (.str "partial"), .partly)
    if (Py.get row "status").isText "failed" then
      return (Py.set source "status" (.str "error"), .error)
    return (Py.set source "status" (.str "unavailable"), .unverified)

def inventoryStatus : Outcome → String
  | .success => "ok"
  | .unverified => "unavailable"
  | outcome => outcome.text

/-- The page of `query_inventory`, given the outcome of its source. -/
def inventoryPage (body source : Fields) (outcome : Outcome) : Producing Outcome := do
  let mut outcome := outcome
  match (Py.get body "resources").asList with
  | none => malformed
  | some resources =>
    if !counts resources.length (Py.get body "count") then
      return ← malformed
    let rtype := Py.get body "resource_type"
    if !rtype.hashable then
      failure
    if !rtype.isOneOf inventoryProjectedTypes then
      flag "unknown"
      if outcome.positive then
        outcome := .partly
        modifyCollection fun c => Py.set c "status" (.str "partial")
    let current := count (Py.get source "itemCount")
    flagIf "invalid" (current.any fun n => n < resources.length)
    let filteredIdentity := rtype.isText "cloudfront" &&
      (Py.get body "projection").isText "identity_only" &&
      matching isIdentity 32 (Py.get body "resource_id")
    flagIf "truncated" ((current.any fun n => resources.length < n) && !filteredIdentity)
    if outcome.positive then
      return if (Py.get (← get) "truncated").truthy then .partly else ofRows resources
    return if resources.isEmpty then outcome else .partly

def inventoryEvidence (body : Fields) (tool : String) : Producing Outcome := do
  if Py.has (← get) "collection" then
    flag "unsupported"
    return .unverified
  modify fun q => Py.set q "collection" (.dict
    [("status", .str "unknown"), ("evidenceKind", .str "inventory"), ("sources", .list [])])
  let rows := if tool = "inventory_summary" then Py.get body "sync"
    else .list [Py.get body "freshness"]
  match rows.asList with
  | none => malformed
  | some rows =>
    if rows.isEmpty then
      modifyCollection fun c => Py.set c "status" (.str "unavailable")
      return .unverified
    let mut outcomes : List Outcome := []
    let mut sources : List Fields := []
    if rows.length > 8 then
      flag "truncated"
      outcomes := [.unverified]
    for row in rows.take 8 do
      let (source, outcome) ← inventorySource env row
      sources := sources ++ [source]
      outcomes := outcomes ++ [outcome]
    let outcome := combined outcomes
    let listed := Py.list (sources.map Py.dict)
    modifyCollection fun c =>
      Py.set (Py.set c "sources" listed) "status" (.str (inventoryStatus outcome))
    if tool = "query_inventory" then
      inventoryPage body (sources.headD []) outcome
    else
      return outcome

/-! ## Rightsizing -/

def rightsizingService (entry : Py) : Producing Outcome := do
  match entry.asDict with
  | none => malformed
  | some entry =>
    let error := Py.find entry "error"
    let errors := Py.find entry "errors"
    let truncated := Py.find entry "truncated"
    let failed := (error.any fun value => value.isStr && value.truthy) ||
      errors.any fun value => value.isList && value.truthy
    let mut bad := (error.any fun value => !(value.isStr && value.truthy)) ||
      (errors.any fun value => !value.isList) || truncated.any fun value => !value.isBool
    flagIf "truncated" (truncated.any Py.isTrue)
    let mut outcome : Outcome := .unverified
    if failed && !Py.has entry "recommendations" && !Py.has entry "count" then
      outcome := .error
    else
      match (Py.get entry "recommendations").asList with
      | none => bad := true
      | some recs =>
        if !counts recs.length (Py.get entry "count") then
          bad := true
        else if failed then
          outcome := if recs.isEmpty then .error else .partly
        else
          outcome := ofRows recs
    if bad then
      malformed
    else if truncated.any Py.isTrue then
      return .partly
    else
      return outcome

def rightsizingEvidence (body : Fields) : Producing Outcome := do
  let services := ["ec2", "rds", "ecs", "lambda"]
  match (Py.get body "resourceType").asStr, (Py.get body "results").asDict with
  | some selected, some results =>
    if !(services ++ ["all"]).contains selected then
      return ← malformed
    let expected := if selected = "all" then services else [selected]
    flagIf "unsupported" (results.length ≠ (expected.filter (Py.has results)).length)
    let total := Py.get body "totalEstimatedMonthlySavings"
    flagIf "unknown" total.isNone
    flagIf "invalid" (!total.isNone && !number total)
    let mut outcomes : List Outcome := []
    for service in expected do
      match Py.find results service with
      | none =>
        flag "unknown"
        outcomes := outcomes ++ [.unverified]
      | some entry =>
        let outcome ← rightsizingService entry
        outcomes := outcomes ++ [outcome]
    let outcome := combined outcomes
    flagIf "invalid" (outcome == .empty && number total && !total.isZero)
    flagIf "partial" (outcomes.contains .error || outcomes.contains .partly)
    return outcome
  | _, _ => malformed

/-! ## Asynchronous queries -/

/-- A continuation token: a text leaves rows out, any other value breaks the shape. -/
def continuation (token : Py) : Producing Unit := do
  if !token.isNone && !token.isText "" then
    flag (if token.isStr then "truncated" else "invalid")

def queryEvidence (body : Fields) (tool : String) : Producing Outcome := do
  match (Py.get body "status").asStr with
  | none => malformed
  | some state =>
    if ["execute_log_insights_query", "lake_query"].contains tool then
      flag "unknown"
      return .unverified
    let cloudwatch := tool == "get_logs_insight_query_results"
    let failed := if cloudwatch then ["Failed", "Cancelled", "Timeout"]
      else ["FAILED", "CANCELLED", "TIMED_OUT"]
    if failed.contains state then
      return .error
    if state != (if cloudwatch then "Complete" else "FINISHED") then
      flag "unknown"
      return .unverified
    continuation (Py.get body "nextToken")
    if tool = "get_query_status" then
      return .success
    match (Py.get body "results").asList with
    | none => malformed
    | some rows =>
      if !counts rows.length (Py.get body "count") then
        return ← malformed
      flagIf "unknown" (rows.length ≥ 50 && !Py.has body "truncated")
      return ofRows rows

/-! ## Shallow tools -/

/-- `reported_error`: whether an error is reported, if the field is a text. -/
def reportedError (value : Fields) : Producing (Option Bool) := do
  match Py.find value "error" with
  | none => return some false
  | some error =>
    if error.isStr && error.truthy then
      return some true
    flag "invalid"
    return none

def trustedAdvisorCheck (check : Py) : Producing Outcome := do
  match check.asDict with
  | none => malformed
  | some check =>
    let failed ← reportedError check
    let status := Py.get check "status"
    if failed = some true then
      flag "unknown"
      return .error
    else if failed = none || !(status.isStr && status.truthy) then
      malformed
    else if !status.isOneOf ["ok", "warning", "error"] then
      flag "unknown"
      return .unverified
    else
      if Py.has check "flaggedCount" || Py.has check "flaggedResources" then
        match count (Py.get check "flaggedCount"), (Py.get check "flaggedResources").asList with
        | some total, some resources =>
          if total < resources.length then flag "invalid"
          else flagIf "truncated" (total > resources.length || resources.length > 10)
        | _, _ => flag "invalid"
      return .success

def trustedAdvisorEvidence (body : Fields) : Producing Outcome := do
  match (Py.get body "checks").asList with
  | none => malformed
  | some checks =>
    flagIf "invalid" ((Py.find body "totalChecks").any fun n => !counts checks.length n)
    let outcomes ← (checks.take 15).mapM trustedAdvisorCheck
    if checks.length > 15 || (Py.get (← get) "truncated").truthy then
      flag "truncated"
      return .partly
    if checks.length = 15 && !Py.has body "truncated" then
      flag "unknown"
      return .partly
    return if checks.isEmpty then .empty else combined outcomes

/-- `(status == "empty") != (not rows)`. -/
def contradicts (status : Py) (isEmpty : Bool) : Bool :=
  status.isText "empty" != isEmpty

/-- One domain of OpenSearch. -/
def opensearchDomain (tool : String) (domain : Py) : Producing Outcome := do
  match domain.asDict with
  | none => malformed
  | some domain =>
    let failed ← reportedError domain
    let status := Py.get domain "collectionStatus"
    if !Py.has domain "collectionStatus" then
      flag "unknown"
    else if !status.isOneOf ["ok", "empty", "error"] then
      return ← malformed
    match Py.find domain "truncated" with
    | none => pure ()
    | some (.bool b) => flagIf "truncated" b
    | some _ => flag "invalid"
    if failed = some true || status.isText "error" then
      return .error
    else if failed = none then
      return .unverified
    else if tool = "opensearch_schema" then
      match (Py.get domain "indices").asList with
      | none => malformed
      | some indices =>
        if !status.isNone && contradicts status indices.isEmpty then malformed
        else return ofRows indices
    else if status.isText "empty" then
      malformed
    else
      return .success

def opensearchEvidence (body : Fields) (tool : String) : Producing Outcome := do
  match (Py.get body "domains").asList with
  | none => malformed
  | some domains =>
    let status := Py.get body "collectionStatus"
    if !Py.has body "collectionStatus" then
      flag "unknown"
    else
      flagIf "invalid" (!status.isOneOf ["ok", "empty"] || contradicts status domains.isEmpty)
    let outcomes ← (domains.take 20).mapM (opensearchDomain tool)
    flagIf "truncated" (domains.length > 20)
    if (Py.get (← get) "truncated").truthy then
      return .partly
    return if domains.isEmpty then .empty else combined outcomes

def istioCounts : List String :=
  ["virtualservices", "destinationrules", "gateways", "serviceentries", "authorizationpolicies",
    "peerauthentications"]

def meshCount (counts : Fields) (key : String) : Producing Outcome := do
  match Py.find counts key with
  | none =>
    flag "unknown"
    return .unverified
  | some .none =>
    flag "unknown"
    return .error
  | some value =>
    match count value with
    | none => malformed
    | some n => return if n = 0 then .empty else .success

def meshEvidence (body : Fields) : Producing Outcome := do
  match (Py.get body "counts").asDict, (Py.get body "injected_namespaces").asList with
  | some counts, some namespaces =>
    flagIf "unsupported" (counts.length ≠ (istioCounts.filter (Py.has counts)).length)
    let outcomes ← istioCounts.mapM (meshCount counts)
    let status := Py.get body "namespaceCollectionStatus"
    if !Py.has body "namespaceCollectionStatus" then
      flag "unknown"
      let last : Outcome := if namespaces.isEmpty then .unverified else .success
      return combined (outcomes ++ [last])
    else if status.isText "error" then
      let last : Outcome := if namespaces.isEmpty then .error else .partly
      return combined (outcomes ++ [last])
    else if !status.isOneOf ["ok", "empty"] || contradicts status namespaces.isEmpty then
      flag "invalid"
      return combined (outcomes ++ [.unverified])
    else
      return combined (outcomes ++ [ofRows namespaces])
  | _, _ => malformed

/-- `source_collection`: the outcome that the status of the collection alone decides. -/
def sourceCollection (body : Fields) (key : String) : Producing (Option Outcome) := do
  match Py.find body key with
  | none =>
    let restricted := incomplete (← get)
    flag "unknown"
    return some (if restricted then .partly else .unverified)
  | some status =>
    if status.isText "unknown" then
      flag "unknown"
      return some .unverified
    else if status.isText "partial" then
      flag "partial"
      return some .partly
    else if status.isText "error" then
      return some .error
    else if !status.isOneOf ["ok", "empty"] then
      return some (← malformed)
    else
      return none

def iamLists : List (String × String) :=
  [("list_users", "users"), ("list_roles", "roles"), ("list_groups", "groups"),
    ("list_policies", "policies")]

def countedLists : List (String × String × String) :=
  [("search_opensearch_logs", "hits", "total"), ("get_dimension_values", "values", "count"),
    ("list_tables", "tables", "count"), ("query_table", "items", "count"),
    ("scan_table", "items", "count")]

def paginatedTools : List String :=
  iamLists.map Prod.fst ++ ["list_tables", "query_table", "scan_table", "get_dimension_values"]

/-- The validation of a template. -/
def templateEvidence (body : Fields) : Producing Outcome := do
  match (Py.get body "validation").asDict, (Py.get body "compliance_issues").asList with
  | some validation, some _ =>
    match Py.get validation "valid" with
    | .bool valid =>
      let failed ← reportedError validation
      if failed = some true then
        flag "unknown"
        return .partly
      else if failed = none || !valid then
        flag "unknown"
        return .unverified
      else
        return .success
    | _ => malformed
  | _, _ => malformed

/-- One item of a table. -/
def itemEvidence (body : Fields) : Producing Outcome := do
  match Py.get body "found", Py.find body "item" with
  | .bool true, some (.dict _) => return .success
  | .bool false, some .none => return .empty
  | _, _ => malformed

/-- The rows of a list, with the count that is reported beside them. -/
def listEvidence (body : Fields) (tool field : String) : Producing Outcome := do
  match (Py.get body field).asList with
  | none => malformed
  | some rows =>
    let logs := tool == "search_opensearch_logs"
    if logs && contradicts (Py.get body "collectionStatus") rows.isEmpty then
      return ← malformed
    match countedLists.lookup tool with
    | none => return ofRows rows
    | some (_, totalField) =>
      match count (Py.get body totalField) with
      | none => malformed
      | some total =>
        if total < rows.length then
          return ← malformed
        flagIf "truncated" (total > rows.length)
        if logs && (Py.find body "count").any fun n => !counts rows.length n then
          malformed
        else
          return ofRows rows

/-- The network that is described: exactly one of the lists. -/
def describedNetwork (body : Fields) : Producing Outcome := do
  let keys := ["SecurityGroups", "NetworkAcls", "RouteTables", "Subnets", "Vpcs"].filter
    (Py.has body)
  match keys with
  | [field] =>
    continuation (Py.get body "NextToken")
    listEvidence body "describe_network" field
  | _ => malformed

def searchedLogs (body : Fields) : Producing (Option Outcome) := do
  match ← sourceCollection body "collectionStatus" with
  | some verdict => return some verdict
  | none =>
    match Py.get body "timedOut", count (Py.get body "failedShards") with
    | .bool timedOut, some failedShards =>
      if timedOut || failedShards > 0 then
        flag "partial"
        return some .partly
      return none
    | _, _ =>
      flag "unknown"
      return some .unverified

def shallowEvidence (body : Fields) (tool : String) : Producing Outcome := do
  if tool = "get_trusted_advisor_cost_checks" then
    trustedAdvisorEvidence body
  else if ["list_opensearch_domains", "opensearch_schema"].contains tool then
    opensearchEvidence body tool
  else if tool = "mesh_overview" then
    meshEvidence body
  else if tool = "check_cloudformation_template_compliance" then
    templateEvidence body
  else if tool = "get_item" then
    itemEvidence body
  else
    let verdict ← if tool = "search_opensearch_logs" then searchedLogs body else pure none
    match verdict with
    | some verdict => return verdict
    | none =>
      flagIf "unknown" (paginatedTools.contains tool && !Py.has body "truncated")
      if tool = "describe_network" then
        describedNetwork body
      else
        let field := match countedLists.lookup tool with
          | some (field, _) => field
          | none => (iamLists.lookup tool).getD "result"
        listEvidence body tool field

end AwsOps.Agent

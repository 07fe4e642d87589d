import AwsOps.Agent.Producers
import AwsOps.Foundation.IpAddress

/-!
# The producers with positive shapes

`tool_receipts.py`, third part: the producers of the network, of the topology, of pages, of metrics
and of traces, and the choice of a producer by the name of the tool. Each of these gives an outcome
only for a result whose whole shape it knows, and none otherwise.
-/

namespace AwsOps.Agent

open Py (Fields)
open Chat (Outcome)

variable (env : Python)

/-! ## Names of tools -/

def asyncQueryTools : List String :=
  ["execute_log_insights_query", "get_logs_insight_query_results", "lake_query",
    "get_query_status", "get_query_results"]

def shallowTools : List String :=
  countedLists.map Prod.fst ++ iamLists.map Prod.fst ++
    ["get_trusted_advisor_cost_checks", "list_opensearch_domains", "opensearch_schema",
      "mesh_overview", "check_cloudformation_template_compliance", "describe_network", "get_item"]

def metricQueries : List String :=
  ["prometheus_query", "prometheus_query_range", "mimir_query", "mimir_query_range"]

def lokiQueries : List String :=
  ["loki_query", "loki_query_range"]

/-- `NAMED_LISTS`: the field, its limit, and the class of its items. -/
def namedLists : List (String × String × Nat × (Py → Bool)) :=
  [("prometheus_labels", "labels", 1000, Py.isStr), ("mimir_labels", "labels", 1000, Py.isStr),
    ("prometheus_series", "series", 50, Py.isDict), ("mimir_series", "series", 50, Py.isDict),
    ("loki_labels", "labels", 1000, Py.isStr), ("loki_label_values", "values", 1000, Py.isStr)]

def metricTraceTools : List String :=
  metricQueries ++ lokiQueries ++ namedLists.map Prod.fst ++ ["tempo_search", "tempo_get_trace"]

def positiveTools : List String :=
  metricTraceTools ++ ["get_eni_details", "find_ip_address", "get_topology", "notion_search",
    "notion_query_database", "notion_fetch_page"]

def inventoryTools : List String :=
  ["query_inventory", "inventory_summary", "get_rightsizing_recommendations"]

/-! ## Shared tests -/

def boundedList (limit : Nat) (value : Py) : Producing (Option (List Py)) := do
  match value.asList with
  | none => return none
  | some rows =>
    if rows.length > limit then
      flag "truncated"
      return none
    else
      return some rows

/-- `ip`, with the address. -/
def ip (value : Py) : Option IpAddress.Address :=
  if text 64 value then value.asStr.bind fun s => IpAddress.ipAddress s.toList else none

/-- `all(test(item) for item in items)`, for items that are dictionaries. -/
def allDicts (test : Fields → Bool) (items : List Py) : Bool :=
  items.all fun item => item.asDict.any test

/-! ## Network -/

def resourceField (kind field : String) (row : Fields) : Bool :=
  matching (Patterns.isResourceOf [kind]) 128 (Py.get row field)

def identity (row : Fields) : Bool :=
  resourceField "eni" "eniId" row && resourceField "vpc" "vpcId" row &&
    resourceField "subnet" "subnetId" row && (ip (Py.get row "privateIp")).isSome

/-- The interfaces with an address. -/
def findIpEvidence (body : Fields) : Producing (Option Outcome) := do
  match ← boundedList 10 (Py.get body "enis") with
  | none => return none
  | some rows =>
    if (ip (Py.get body "ip")).map (·.version) ≠ some .v4 ||
        !counts rows.length (Py.get body "count") || !allDicts identity rows then
      return none
    else
      -- This producer silently slices at ten matches.
      flagIf "unknown" (rows.length = 10 && !Py.has body "truncated")
      return some (ofRows rows)

/-- The configuration of one interface. -/
def eniEvidence (body : Fields) : Option Outcome :=
  let selection := (Py.get body "routeSelection").asDict
  if identity body && (Py.get body "partial").isFalse &&
      (Py.get body "unknown").asList.any List.isEmpty &&
      ["securityGroups", "nacl", "routes"].all (fun key => (Py.get body key).isList) &&
      resourceField "acl" "naclId" body && resourceField "rtb" "routeTableId" body &&
      selection.any fun selection => (Py.get selection "status").isText "selected" &&
        (Py.get selection "basis").isOneOf ["explicit", "main"] then
    some .success
  else none

def networkEvidence (body : Fields) (tool : String) : Producing (Option Outcome) := do
  if tool = "find_ip_address" then findIpEvidence body else return eniEvidence body

/-! ## Topology -/

/-- A limit of the truncation: a flag, and a bound of the rows up to a cap. -/
def boundedBy (truncation : Fields) (key limitKey : String) (cap : Nat) (rows : List Py) : Bool :=
  (Py.get truncation key).isBool && (count (Py.get truncation limitKey)).any fun limit =>
    0 < limit && limit ≤ cap && rows.length ≤ limit

/-- The sources of the collection under a key. -/
def goodSources (coll : Fields) (key : String) : Bool :=
  (Py.get coll key).asList.any fun sources => !sources.isEmpty && allDicts
    (fun s => !failedStatus s && text 80 (Py.get s "sourceId") && (count (Py.get s "itemCount")).isSome)
    sources

def nodeIds (nodes : List Py) : List String :=
  nodes.filterMap fun node => node.asDict.bind fun node => (Py.get node "id").asStr

/-- A text that is one of the ids. -/
def isKnown (ids : List String) (value : Py) : Bool :=
  text 4096 value && value.isOneOf ids

def isNode (node : Fields) : Bool :=
  ["id", "kind", "label"].all fun key => text 4096 (Py.get node key)

/-- One edge between nodes. -/
def isEdge (ids : List String) (edge : Fields) : Bool :=
  isKnown ids (Py.get edge "source") && isKnown ids (Py.get edge "target") &&
    text 128 (Py.get edge "rel")

/-- The whole shape of a topology, the collection being the one of the quality. -/
def isTopology (body coll : Fields) (nodes edges : List Py) : Bool :=
  let cls := Py.get body "class"
  let ids := nodeIds nodes
  (Py.get body "selection").asDict.any fun selection =>
    (Py.get body "truncation").asDict.any fun truncation =>
      cls.isOneOf ["flow", "infra", "trace"] &&
      counts nodes.length (Py.get body "node_count") &&
      counts edges.length (Py.get body "edge_count") &&
      !failedStatus coll && (Py.get coll "stale").isFalse && text 40 (Py.get coll "captured_at") &&
      boundedBy truncation "nodes" "node_limit" 500 nodes &&
      boundedBy truncation "edges" "edge_limit" 1000 edges &&
      goodSources coll "sources" &&
      (cls.isText "trace" || goodSources coll "publishedSources") &&
      allDicts isNode nodes && ids.Nodup && allDicts (isEdge ids) edges &&
      ((Py.get selection "status").isText "all" || (Py.get selection "status").isText "resolved" &&
        isKnown ids (Py.get selection "resolved_id"))

def topologyEvidence (body : Fields) : Producing (Option Outcome) := do
  let nodes ← boundedList 500 (Py.get body "nodes")
  let edges ← boundedList 1000 (Py.get body "edges")
  let coll := fieldsOf (← get) "collection"
  match nodes, edges with
  | some nodes, some edges =>
    if !isTopology body coll nodes edges then
      return none
    else if (Py.get coll "status").isText "empty" then
      return if nodes.isEmpty && edges.isEmpty then some .empty else none
    else
      return if nodes.isEmpty then none else some .success
  | _, _ => return none

/-! ## Pages -/

/-- `[a-fA-F0-9]`. -/
def isHex (c : Char) : Bool :=
  c.isDigit || ('a' ≤ c && c ≤ 'f') || ('A' ≤ c && c ≤ 'F')

/-- The id of a page: 32 hexadecimal digits, or a UUID. -/
def isNotionId (s : List Char) : Bool :=
  let groups := Text.split ['-'] s
  groups.all (fun group => group.all isHex) &&
    [[32], [8, 4, 4, 4, 12]].contains (groups.map List.length)

def identified (objects : List String) (row : Fields) : Bool :=
  (Py.get row "object").isOneOf objects && matching isNotionId 36 (Py.get row "id")

/-- The verdict of a list of rows whose collection has a status that was checked. -/
def collected (status : Py) (rows : List Py) (confirmed : Outcome) : Option Outcome :=
  some (if contradicts status rows.isEmpty then .unverified else confirmed)

/-- One page with its blocks. -/
def fetchPageEvidence (body : Fields) : Producing (Option Outcome) := do
  match Py.find body "blocks_error" with
  | none => pure ()
  | some error => flag (if error.isStr && error.truthy then "partial" else "invalid")
  match ← sourceCollection body "collectionStatus" with
  | some verdict => return some verdict
  | none =>
    if !(Py.get body "collectionStatus").isText "ok" ||
        !(Py.get body "page").asDict.any (identified ["page"]) then
      return some .unverified
    match ← sourceCollection body "blocksCollectionStatus" with
    | some _ =>
      -- The metadata of a page survives a failed collection of its children.
      flag "partial"
      return some .partly
    | none =>
      match ← boundedList 25 (Py.get body "blocks") with
      | none => return none
      | some blocks =>
        if !(Py.get body "truncated").isBool || !allDicts (fun block =>
            identified ["block"] block && text 80 (Py.get block "type")) blocks then
          return none
        else
          return collected (Py.get body "blocksCollectionStatus") blocks .success

/-- The pages that a search or a query finds. -/
def pagesEvidence (body : Fields) : Producing (Option Outcome) := do
  match Py.find body "has_more" with
  | none => pure ()
  | some (.bool more) => flagIf "truncated" more
  | some _ => flag "invalid"
  let cursor := Py.get body "next_cursor"
  if !cursor.isNone then
    flag (if text 4096 cursor then "truncated" else "invalid")
  match ← sourceCollection body "collectionStatus" with
  | some verdict => return some verdict
  | none =>
    match ← boundedList 25 (Py.get body "results") with
    | none => return none
    | some rows =>
      if !(Py.get body "has_more").isBool || !allDicts (identified ["page", "database"]) rows then
        return none
      else
        return collected (Py.get body "collectionStatus") rows (ofRows rows)

def notionEvidence (body : Fields) (tool : String) : Producing (Option Outcome) :=
  if tool = "notion_fetch_page" then fetchPageEvidence body else pagesEvidence body

/-! ## Metrics and traces -/

/-- A pair of a list. -/
def isPair (first second : Py → Bool) (value : Py) : Bool :=
  match value.asList with
  | some [a, b] => first a && second b
  | _ => false

/-- `\d{1,20}`. -/
def isStamp (s : List Char) : Bool :=
  1 ≤ s.length && s.length ≤ 20 && s.all (isDigit env)

/-- One line of a stream. -/
def isLogLine : Py → Bool :=
  isPair (matching (isStamp env) 128) fun line => line.asStr.any fun s => s.utf8ByteSize ≤ 4096

/-- The lines of a stream. -/
def streamValues (row : Fields) : Producing (Option (List Py)) := do
  let values ← boundedList 200 (Py.get row "values")
  let labelled := (Py.get row "stream").asDict.any fun labels => labels.all fun label => label.2.isStr
  return values.filter fun values => labelled && !values.isEmpty && values.all (isLogLine env)

/-- The samples of a row of a vector or a matrix. -/
def metricValues (kind : Py) (row : Fields) : Producing (Option (List Py)) := do
  if !(Py.get row "metric").isDict then
    return none
  else if kind.isText "vector" then
    return some [Py.get row "value"]
  else
    boundedList 500 (Py.get row "values")

/-- The rows of a query, while there are at most 5000 samples. -/
def queryRows (kind : Py) (rows : List Py) : Producing (Option Outcome) := do
  let mut samples := 0
  for row in rows do
    let values ← match row.asDict with
      | none => pure none
      | some row => if kind.isText "streams" then streamValues env row else metricValues kind row
    match values with
    | none => return none
    | some values =>
      samples := samples + values.length
      if samples > 5000 then
        flag "truncated"
        return none
      if !kind.isText "streams" && !values.all (isPair number (text 128)) then
        return none
  return some (ofRows rows)

/-- The spans of the batches of a trace. -/
def traceEvidence (body : Fields) : Producing (Option Outcome) := do
  match ← boundedList 50 (Py.get body "batches") with
  | none => return none
  | some batches =>
    let mut scopesSeen := 0
    let mut spansSeen := 0
    for batch in batches do
      let fields := batch.asDict.getD []
      let listed := (Py.find fields "scopeSpans").getD
        (Py.get fields "instrumentationLibrarySpans")
      match ← boundedList 200 listed with
      | none => return none
      | some scopes =>
        scopesSeen := scopesSeen + scopes.length
        if scopesSeen > 200 then
          flag "truncated"
          return none
        for scope in scopes do
          match ← boundedList 5000 (Py.get (scope.asDict.getD []) "spans") with
          | none => return none
          | some spans =>
            spansSeen := spansSeen + spans.length
            if spansSeen > 5000 then
              flag "truncated"
              return none
            if !allDicts (fun span => text 128 (Py.get span "traceId") &&
                text 128 (Py.get span "spanId")) spans then
              return none
    return some (if spansSeen = 0 then .empty else .success)

/-- The tools of metrics and traces, their collection being checked. -/
def checkedMetrics (body : Fields) (tool : String) : Producing (Option Outcome) := do
  let status := Py.get body "collectionStatus"
  if !(Py.get body "truncated").isBool then
    return none
  match namedLists.lookup tool with
  | some (field, limit, kind) =>
    match ← boundedList limit (Py.get body field) with
    | none => return none
    | some rows => return if rows.all kind then collected status rows (ofRows rows) else none
  | none =>
    if (metricQueries ++ lokiQueries).contains tool then
      let kind := Py.get body "resultType"
      let allowed := (if lokiQueries.contains tool then ["streams"] else []) ++ ["vector", "matrix"]
      match ← boundedList 50 (Py.get body "result") with
      | none => return none
      | some rows =>
        if !kind.isOneOf allowed then
          return none
        else if contradicts status rows.isEmpty then
          return some .unverified
        else
          queryRows env kind rows
    else if tool = "tempo_search" then
      match ← boundedList 50 (Py.get body "traces") with
      | none => return none
      | some traces =>
        let isTrace := matching (fun s => !s.isEmpty && s.all isHex) 128
        return if allDicts (fun trace => isTrace (Py.get trace "traceID")) traces then
            collected status traces (ofRows traces)
          else none
    else
      traceEvidence body

def metricTraceEvidence (body : Fields) (tool : String) : Producing (Option Outcome) := do
  let verdict ← if tool = "tempo_get_trace" then pure none
    else sourceCollection body "collectionStatus"
  match verdict with
  | some verdict => return some verdict
  | none => checkedMetrics env body tool

/-! ## The curated producers -/

/-- `tool.rsplit("___", 1)[-1]`: the text after the last separator. -/
def baseName (tool : String) : String :=
  let s := tool.toList
  match s.tails.reverse.find? ("___".toList.isPrefixOf ·) with
  | some rest => String.ofList (rest.drop 3)
  | none => tool

def producerEvidence (body : Fields) (tool : String) : Producing (Option Outcome) :=
  let name := baseName tool
  if asyncQueryTools.contains name then
    some <$> queryEvidence body name
  else if ["query_inventory", "inventory_summary"].contains name then
    some <$> inventoryEvidence env body name
  else if name = "get_rightsizing_recommendations" then
    some <$> rightsizingEvidence body
  else if shallowTools.contains name then
    some <$> shallowEvidence body name
  else if ["find_ip_address", "get_eni_details"].contains name then
    networkEvidence body name
  else if name = "get_topology" then
    topologyEvidence body
  else if ["notion_search", "notion_query_database", "notion_fetch_page"].contains name then
    notionEvidence body name
  else if metricTraceTools.contains name then
    metricTraceEvidence env body name
  else
    pure none

/-- The tools with a curated producer, which give objects. -/
def curatedTools : List String :=
  asyncQueryTools ++ shallowTools ++ positiveTools ++ inventoryTools

theorem producer_evidence_of_not_curated {body : Fields} {tool : String}
    (h : baseName tool ∉ curatedTools) : producerEvidence env body tool = pure none := by
  unfold producerEvidence
  simp only [curatedTools, positiveTools, inventoryTools, metricTraceTools, List.mem_append,
    List.mem_cons, List.not_mem_nil, or_false, not_or] at h
  simp [metricTraceTools, h]

end AwsOps.Agent

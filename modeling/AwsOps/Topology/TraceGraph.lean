import AwsOps.Foundation.Entries
import AwsOps.Foundation.JsonText
import AwsOps.Foundation.Sha256
import AwsOps.Foundation.Text

/-!
# The trace graph

`buildTraceGraph` turns sampled spans and metric calls into services, databases, workloads and
queues with the edges between them. A node is identified by a digest of the scope in which it was
observed and its name. The scope names the datasource first, so that an unknown account or region
does not join what two datasources report.
-/

namespace AwsOps.Topology

open Entries

/-! ## Spans -/

/-- The scope of an observation. What is absent is unknown. -/
structure TraceIdentity where
  sourceId : Option String := none
  accountId : Option String := none
  region : Option String := none
  environment : Option String := none
  serviceNamespace : Option String := none
  k8sNamespace : Option String := none
  k8sCluster : Option String := none

structure SpanLink where
  traceId : String
  spanId : String

inductive SpanStatus
  | ok | error | unset
  deriving DecidableEq

/-- One span, as far as the graph reads it. -/
structure TraceSpan extends TraceIdentity where
  traceId : String
  spanId : String
  parentSpanId : Option String := none
  service : String
  kind : String := ""
  status : Option SpanStatus := none
  links : Option (List SpanLink) := none
  messagingSystem : Option String := none
  messagingDestination : Option String := none
  messagingBroker : Option String := none
  dbSystem : Option String := none
  dbName : Option String := none
  dbHost : Option String := none
  k8sPod : Option String := none
  k8sDeployment : Option String := none
  durationMs : Float := 0

/-- A count of calls between two services that a metric reports. -/
structure ServiceGraphCall where
  client : String
  server : String
  count : Float
  clientIdentity : Option TraceIdentity := none
  serverIdentity : Option TraceIdentity := none

/-- A node of the infrastructure graph: its identifier and `meta.host` as a text. -/
structure InfraNodeLike where
  id : String
  host : Option String

/-- The text of an optional string that is there and not empty, as a condition reads it. -/
def given (text : Option String) : Option String :=
  text.filter (· != "")

/-! ## Nodes and edges -/

/-- The kinds of nodes. -/
inductive NodeKind
  | service | db | workload | queue
  deriving DecidableEq

/-- The kind in an identifier. -/
def NodeKind.tag : NodeKind → String
  | service => "svc"
  | db => "db"
  | workload => "workload"
  | queue => "queue"

/-- What is known about a service. -/
structure ServiceMeta where
  service : String
  sourceId : Option String
  accountId : Option String
  region : Option String
  environment : Option String
  serviceNamespace : Option String
  cluster : Option String
  namespace_ : Option String
  spanCount : Nat
  errorSpanCount : Nat
  unknownStatusSpanCount : Nat
  sampledDurationMs : Float
  traceIds : List String

/-- What is known about a database. -/
structure DbMeta where
  system : String
  host : Option String
  dbName : Option String
  sourceId : Option String
  environment : Option String
  infraRef : Option String

/-- What is known about a workload. -/
structure WorkloadMeta where
  namespace_ : String
  deployment : String
  cluster : Option String
  environment : Option String
  sourceId : Option String
  pods : List String

/-- What is known about a queue: telemetry claims it, nothing verifies it. -/
structure QueueMeta where
  system : String
  destination : String
  broker : Option String
  cluster : Option String
  sourceId : Option String
  environment : Option String
  claimedAccountId : Option String
  claimedRegion : Option String
  identityProvenance : String

/-- The `meta` of a node. -/
inductive NodeMeta
  | service (data : ServiceMeta)
  | db (data : DbMeta)
  | workload (data : WorkloadMeta)
  | queue (data : QueueMeta)

/-- A node of the graph. -/
structure TraceNode where
  id : String
  kind : NodeKind
  label : String
  data : NodeMeta

/-- An edge of the graph, with the spans and the metric calls that it stands for. -/
structure TraceEdge where
  source : String
  target : String
  rel : String
  confidence : String
  spanCount : Nat
  metricCount : Float

def scope (identity : TraceIdentity) : String :=
  String.ofList (Json.stringify (.arr ([identity.sourceId.getD "", identity.accountId.getD "",
    identity.region.getD "", identity.environment.getD "", identity.serviceNamespace.getD "",
    identity.k8sCluster.getD "", identity.k8sNamespace.getD ""].map .str)))

/-- The text that identifies a node among those of its kind. -/
def nodeKey (identity : TraceIdentity) (name : String) : List Char :=
  Json.stringify (.arr ([scope identity, name].map .str))

def nodeId (kind : NodeKind) (identity : TraceIdentity) (name : String) : String :=
  kind.tag ++ ":" ++ String.ofList (Sha256.hexDigest (nodeKey identity name))

def resourceScope (identity : TraceIdentity) : TraceIdentity :=
  { sourceId := identity.sourceId, accountId := identity.accountId, region := identity.region,
    environment := identity.environment }

def spanKey (sourceId : Option String) (traceId spanId : String) : List Char :=
  Json.stringify (.arr ([sourceId.getD "", traceId, spanId].map .str))

def TraceSpan.key (span : TraceSpan) : List Char :=
  spanKey span.sourceId span.traceId span.spanId

def edgeKey (source target rel : String) : List Char :=
  Json.stringify (.arr ([source, target, rel].map .str))

/-! ## Destinations of messages -/

/-- `trim`. -/
def trimmed (text : String) : String :=
  String.ofList (Text.stripBy Text.isTrimmed text.toList)

/-- The account and the region of a destination. -/
structure DestinationArn where
  accountId : String
  region : Option String

/-- The characters of a name in an ARN: `[a-z0-9-]`. -/
def isArnChar (c : Char) : Bool :=
  c.isLower || c.isDigit || c == '-'

@[irreducible] def queueDestinationArn (value : String) : Option DestinationArn :=
  match Text.split [':'] (trimmed value).toList with
  | scheme :: partition :: service :: region :: account :: first :: rest =>
    if scheme = "arn".toList ∧ partition ≠ [] ∧ partition.all isArnChar ∧ service ≠ [] ∧
        service.all isArnChar ∧ region.all isArnChar ∧ account.length = 12 ∧
        account.all Char.isDigit ∧ (first ≠ [] ∨ rest ≠ []) ∧
        (first :: rest).all (fun part => part.all fun c => !Text.isTrimmed c) then
      some ⟨String.ofList account, if region = [] then none else some (String.ofList region)⟩
    else none
  | _ => none

def queueClaimMeta (system destination : String) (broker cluster sourceId environment : Option String) :
    QueueMeta :=
  let arn := queueDestinationArn destination
  ⟨system, destination, broker, cluster, sourceId, environment, arn.map (·.accountId),
    arn.bind (·.region), "telemetry_claim"⟩

/-! ## Infrastructure -/

def resolveInfraRef (U : Text.Unicode) (dbHost : Option String) (infraNodes : List InfraNodeLike) :
    Option String :=
  (given dbHost).bind fun dbHost =>
    let host := Text.lower U dbHost
    (infraNodes.find? fun node =>
      let candidate := Text.lower U (node.host.getD "")
      candidate != "" && (candidate == host || (host ++ ".").toList.isPrefixOf candidate.toList)).map
      (·.id)

/-- The trusted account of the host is twelve digits. -/
def isAccountNumber (text : String) : Bool :=
  text.toList.length == 12 && text.toList.all Char.isDigit

/-- Whether an observation is about the host account. -/
def isHost (trustedHostAccountId accountId : Option String) : Bool :=
  match given accountId with
  | none => true
  | some account =>
    account == "self" ||
      trustedHostAccountId.any fun trusted => isAccountNumber trusted && account == trusted

/-! ## Building -/

/-- The graph under construction. -/
structure Build where
  nodes : List (String × TraceNode) := []
  edges : List (List Char × TraceEdge) := []
  orphanSpans : Nat := 0
  unresolvedMessaging : Nat := 0

/-- The first 240 code units of a text. A character of which only one half fits is left out. -/
def clip : Nat → List Char → List Char
  | _, [] => []
  | room, c :: rest =>
    let size := if c.toNat < 0x10000 then 1 else 2
    if size ≤ room then c :: clip (room - size) rest else []

/-- A service that no span was counted for yet. -/
def newService (id service : String) (identity : TraceIdentity) : TraceNode where
  id := id
  kind := .service
  label := String.ofList (clip 240 service.toList)
  data := .service ⟨service, identity.sourceId, identity.accountId, identity.region,
    identity.environment, identity.serviceNamespace, identity.k8sCluster, identity.k8sNamespace,
    0, 0, 0, 0, []⟩

/-- Set the node of an identifier to what `f` makes of the one that is there. -/
def Build.setNode (g : Build) (id : String) (f : Option TraceNode → TraceNode) : Build :=
  { g with nodes := upsert id f g.nodes }

def Build.changeNode (g : Build) (id : String) (f : TraceNode → TraceNode) : Build :=
  { g with nodes := modify id f g.nodes }

def Build.serviceNode (g : Build) (service : String) (identity : TraceIdentity) : Build :=
  let id := nodeId .service identity service
  g.setNode id (·.getD (newService id service identity))

def Build.edge (g : Build) (source target rel : String) (spanCount : Nat) (metricCount : Float) :
    Build :=
  { g with edges := upsert (edgeKey source target rel) (fun current =>
      match current with
      | some e => { e with spanCount := e.spanCount + spanCount,
                           metricCount := e.metricCount + metricCount }
      | none => ⟨source, target, rel, "observed", spanCount, metricCount⟩) g.edges }

def TraceSpan.serviceId (span : TraceSpan) : String :=
  nodeId .service span.toTraceIdentity span.service

/-- The duration that counts: `Math.max(0, Number(duration) || 0)`. -/
def sampledDuration (duration : Float) : Float :=
  if 0 < duration then duration else 0

def TraceNode.count (span : TraceSpan) (node : TraceNode) : TraceNode :=
  match node.data with
  | .service m =>
    { node with data := .service { m with
        spanCount := m.spanCount + 1
        errorSpanCount := m.errorSpanCount + if span.status = some .error then 1 else 0
        unknownStatusSpanCount := m.unknownStatusSpanCount +
          if span.status = none ∨ span.status = some .unset then 1 else 0
        sampledDurationMs := m.sampledDurationMs + sampledDuration span.durationMs
        traceIds := if m.traceIds.length < 20 ∧ span.traceId ∉ m.traceIds
          then m.traceIds ++ [span.traceId] else m.traceIds } }
  | _ => node

def Build.countSpan (g : Build) (span : TraceSpan) : Build :=
  (g.serviceNode span.service span.toTraceIdentity).changeNode span.serviceId (·.count span)

/-- The spans by their keys. -/
abbrev SpanIndex : Type :=
  List (List Char × TraceSpan)

/-- A span that is named and not there. -/
def Build.orphan (g : Build) : Build :=
  { g with orphanSpans := g.orphanSpans + 1 }

/-- A message without a known queue. -/
def Build.unresolved (g : Build) : Build :=
  { g with unresolvedMessaging := g.unresolvedMessaging + 1 }

/-- An edge of a span from or to a span that it names, which is an orphan if the index does not
have it. -/
def Build.relate (g : Build) (byId : SpanIndex) (sourceId : Option String) (traceId spanId : String)
    (sid rel : String) : Build :=
  match get byId (spanKey sourceId traceId spanId) with
  | some other =>
    let g := g.serviceNode other.service other.toTraceIdentity
    if other.serviceId ≠ sid then g.edge other.serviceId sid rel 1 0 else g
  | none => g.orphan

def Build.visitParent (g : Build) (byId : SpanIndex) (span : TraceSpan) : Build :=
  match given span.parentSpanId with
  | some parent => g.relate byId span.sourceId span.traceId parent span.serviceId "calls"
  | none => g

def Build.visitLinks (g : Build) (byId : SpanIndex) (span : TraceSpan) : Build :=
  (span.links.getD []).foldl
    (fun g link => g.relate byId span.sourceId link.traceId link.spanId span.serviceId "linked") g

/-- The name of the database of a span. -/
def TraceSpan.dbLabel (span : TraceSpan) (system : String) : String :=
  system ++ ":" ++ span.dbHost.getD "unknown" ++ "/" ++ span.dbName.getD ""

def TraceSpan.dbNode (U : Text.Unicode) (infraNodes : List InfraNodeLike)
    (trustedHostAccountId : Option String) (span : TraceSpan) (system : String) : TraceNode :=
  let infraRef := if isHost trustedHostAccountId span.accountId
    then resolveInfraRef U span.dbHost infraNodes else none
  { id := nodeId .db (resourceScope span.toTraceIdentity) (span.dbLabel system)
    kind := .db
    label := span.dbLabel system
    data := .db ⟨system, span.dbHost, span.dbName, span.sourceId, span.environment,
      given infraRef⟩ }

/-- A span queries its database. -/
def Build.visitDb (g : Build) (U : Text.Unicode) (infraNodes : List InfraNodeLike)
    (trustedHostAccountId : Option String) (span : TraceSpan) : Build :=
  match given span.dbSystem with
  | some system =>
    let node := span.dbNode U infraNodes trustedHostAccountId system
    (g.setNode node.id fun _ => node).edge span.serviceId node.id "queries" 1 0
  | none => g

/-- The workload of a span, before a pod is known. -/
def TraceSpan.workloadNode (span : TraceSpan) (k8sNamespace k8sDeployment : String) : TraceNode :=
  let name := k8sNamespace ++ "/" ++ k8sDeployment
  { id := nodeId .workload span.toTraceIdentity name
    kind := .workload
    label := name
    data := .workload ⟨k8sNamespace, k8sDeployment, span.k8sCluster, span.environment,
      span.sourceId, []⟩ }

/-- A pod is noted once. -/
def TraceNode.addPod (pod : Option String) (node : TraceNode) : TraceNode :=
  match node.data, given pod with
  | .workload m, some pod =>
    { node with data := .workload { m with
        pods := if pod ∈ m.pods then m.pods else m.pods ++ [pod] } }
  | _, _ => node

/-- The service of a span runs on its workload. -/
def Build.visitWorkload (g : Build) (span : TraceSpan) : Build :=
  match given span.k8sNamespace, given span.k8sDeployment with
  | some k8sNamespace, some k8sDeployment =>
    let node := span.workloadNode k8sNamespace k8sDeployment
    ((g.setNode node.id (·.getD node)).changeNode node.id (·.addPod span.k8sPod)).edge
      span.serviceId node.id "runs_on" 1 0
  | _, _ => g

/-- The scope of a queue: that of the claimed ARN, or that in which a broker was observed. -/
def TraceSpan.queueIdentity (span : TraceSpan) (qualified : Option DestinationArn) : TraceIdentity :=
  match qualified with
  | some arn =>
    { sourceId := span.sourceId, environment := span.environment,
      region := some (arn.region.getD ""), accountId := some arn.accountId }
  | none =>
    { resourceScope span.toTraceIdentity with
      k8sCluster := span.k8sCluster
      k8sNamespace := if span.messagingBroker.any (·.toList.contains '.') then none
        else span.k8sNamespace }

/-- The broker that identifies the queue of a span, unless an ARN does. -/
def TraceSpan.queueBroker (span : TraceSpan) (destination : String) : Option String :=
  if (queueDestinationArn destination).isSome then none else span.messagingBroker

def TraceSpan.queueName (span : TraceSpan) (system destination : String) : String :=
  String.ofList (Json.stringify (.arr [.str system,
    ((span.queueBroker destination).map Json.str).getD .null, .str destination]))

/-- The queue of a span, with its system and its trimmed destination. -/
def TraceSpan.queueNode (span : TraceSpan) (system destination : String) : TraceNode :=
  let qualified := queueDestinationArn destination
  { id := nodeId .queue (span.queueIdentity qualified) (span.queueName system destination)
    kind := .queue
    label := system ++ ":" ++ destination
    data := .queue (queueClaimMeta system destination (span.queueBroker destination)
      (if qualified.isSome then none else span.k8sCluster) span.sourceId span.environment) }

/-- A span publishes to a queue or consumes from it. A bare name is no evidence of a queue. -/
def Build.joinQueue (g : Build) (span : TraceSpan) (system destination : String) : Build :=
  if (queueDestinationArn destination).isNone ∧ (given span.messagingBroker).isNone then g.unresolved
  else
    let node := span.queueNode system destination
    let g := g.setNode node.id fun _ => node
    let g := if span.kind = "PRODUCER" then g.edge span.serviceId node.id "publishes" 1 0 else g
    if span.kind = "CONSUMER" then g.edge node.id span.serviceId "consumes" 1 0 else g

def Build.visitQueue (g : Build) (span : TraceSpan) : Build :=
  match given span.messagingSystem, given span.messagingDestination with
  | some system, some destination => g.joinQueue span system (trimmed destination)
  | _, _ => g

/-- One round of the loop over the spans. -/
def Build.visit (U : Text.Unicode) (infraNodes : List InfraNodeLike)
    (trustedHostAccountId : Option String) (byId : SpanIndex) (g : Build) (span : TraceSpan) : Build :=
  ((((g.countSpan span).visitParent byId span).visitLinks byId span).visitDb U infraNodes
    trustedHostAccountId span).visitWorkload span |>.visitQueue span

/-- A metric call adds its services and their edge. -/
def Build.visitCall (g : Build) (call : ServiceGraphCall) : Build :=
  if !call.count.isFinite || call.count ≤ 0 then g
  else
    let client := call.clientIdentity.getD {}
    let server := call.serverIdentity.getD {}
    ((g.serviceNode call.client client).serviceNode call.server server).edge
      (nodeId .service client call.client) (nodeId .service server call.server) "calls" 0 call.count

/-- Whether a span has the fields that identify it. -/
def TraceSpan.isValid (span : TraceSpan) : Bool :=
  span.traceId != "" && span.spanId != "" && span.service != ""

/-- The index of the valid spans, of which the last one with a key counts. -/
def byId (spans : List TraceSpan) : SpanIndex :=
  ofList ((spans.filter (·.isValid)).map fun span => (span.key, span))

/-- What `buildTraceGraph` returns. -/
structure TraceGraph where
  nodes : List TraceNode
  edges : List TraceEdge
  orphanSpans : Nat
  invalidSpans : Nat
  unresolvedMessaging : Nat

/-- The graph that was built. -/
def Build.finish (g : Build) (invalidSpans : Nat) : TraceGraph where
  nodes := values g.nodes
  edges := values g.edges
  orphanSpans := g.orphanSpans
  invalidSpans := invalidSpans
  unresolvedMessaging := g.unresolvedMessaging

/-- The graph under construction after the spans. -/
def visitSpans (U : Text.Unicode) (infraNodes : List InfraNodeLike)
    (trustedHostAccountId : Option String) (spans : List TraceSpan) : Build :=
  (values (byId spans)).foldl (Build.visit U infraNodes trustedHostAccountId (byId spans)) {}

def buildTraceGraph (U : Text.Unicode) (spans : List TraceSpan) (metricCalls : List ServiceGraphCall)
    (infraNodes : List InfraNodeLike) (trustedHostAccountId : Option String) : TraceGraph :=
  (metricCalls.foldl Build.visitCall (visitSpans U infraNodes trustedHostAccountId spans)).finish
    (spans.filter fun span => !span.isValid).length

end AwsOps.Topology

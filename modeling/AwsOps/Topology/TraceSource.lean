import Mathlib.Data.Rat.Floor
import AwsOps.Foundation.Js
import AwsOps.Topology.TraceGraph

/-!
# Trace and metric sources

`trace-source.ts`: what the adapters of ClickHouse, Tempo and Prometheus or Mimir make of the answers
of their connectors. A read has items, a status and reasons, and may forbid the deletion of what an
earlier read left. The status `partial` is written `partly` here.
-/

namespace AwsOps.Topology

open Js (Fields get)

/-! ## Reads -/

/-- The conversions of JavaScript that the adapters use: the character database, the finite value of
`Number` and of `Date.parse`, `String`, and the double of a number. -/
structure Engine where
  unicode : Text.Unicode
  number : String → Option Rat
  parseDate : String → Option Rat
  string : Js → String
  float : Rat → Float

/-- `Reason`, with those of a source that failed as a whole. -/
inductive Reason
  | missing_configuration | configuration_failed | query_failed | malformed_payload
  | malformed_rows | payload_truncated | trace_fetch_failed | cap_reached | invalid_request
  | incomplete_collection | empty_not_confirmed | source_failed | registry_read_failed
  deriving DecidableEq

inductive ReadStatus
  | ok | partly | unavailable | error
  deriving DecidableEq

structure ReadWindow where
  startMs : Rat
  endMs : Rat

structure SourceRead (α : Type) where
  items : List α
  status : ReadStatus
  sourceId : String
  reasons : List Reason
  window : ReadWindow
  canSweep : Bool

structure StartedSpan where
  span : TraceSpan
  startMs : Float

def object : Option Js → Option Fields
  | some (.obj fields) => some fields
  | _ => none

/-- `Array.isArray`, with the items. -/
def array : Option Js → Option (List Js)
  | some (.arr items) => some items
  | _ => none

/-- A property of an object that may not be there. -/
def prop (o : Option Fields) (key : String) : Option Js :=
  o.bind fun fields => get fields key

/-- `value ?? other`. -/
def orElse (value other : Option Js) : Option Js :=
  match value with
  | none | some .null => other
  | _ => value

/-- A value is the text. -/
def isText (s : String) : Option Js → Bool
  | some (.str t) => t == s
  | _ => false

/-- `value === true`. -/
def isTrue : Option Js → Bool
  | some (.bool b) => b
  | _ => false

def text : Option Js → Option String
  | some (.str s) => if trimmed s = "" then none else some s
  | _ => none

def numeric (engine : Engine) : Option Js → Option Rat
  | some (.num (.finite n)) => some n
  | value => (text value).bind engine.number

def readWindow (windowMins endMs : Rat) : ReadWindow where
  startMs := endMs - (max 1 ⌊windowMins⌋) * 60000
  endMs := endMs

def isSafeInteger (n : Rat) : Bool :=
  n.den == 1 && n.num.natAbs ≤ 9007199254740991

def validWindow (window : ReadWindow) : Bool :=
  isSafeInteger window.startMs && isSafeInteger window.endMs

def statusOf (noItems : Bool) (reasons : List Reason) : ReadStatus :=
  if reasons.isEmpty then .ok
  else if !noItems || reasons.all
      [.cap_reached, .incomplete_collection, .empty_not_confirmed].contains then .partly
  else .error

def readResult {α : Type} (sourceId : String) (window : ReadWindow) (items : List α)
    (reasons : List Reason) (status : Option ReadStatus := none) : SourceRead α where
  items := items
  status := status.getD (statusOf items.isEmpty reasons.eraseDups)
  sourceId := sourceId
  reasons := reasons.eraseDups
  window := window
  canSweep := !reasons.any [.empty_not_confirmed, .trace_fetch_failed].contains

def envelopeReasons (o : Option Fields) : List Reason :=
  let failed := (prop o "error").isSome || isText "error" (prop o "status")
  let collection :=
    match prop o "collectionStatus" with
    | none => []
    | some status =>
      if isText "error" (some status) then [.query_failed]
      else if isText "partial" (some status) then [.incomplete_collection]
      else if isText "ok" (some status) || isText "empty" (some status) then []
      else [.malformed_payload]
  (if failed then [.query_failed] else []) ++
    (if isTrue (prop o "truncated") then [.payload_truncated] else []) ++ collection

/-- The payload says that the collection completed. -/
def emptyProof (payload : Js) : Bool :=
  let outer := object (some payload)
  let inner := object (prop outer "result")
  let status := orElse (prop outer "collectionStatus") (prop inner "collectionStatus")
  isText "ok" status || isText "empty" status

def requireEmptyProof {α : Type} (payload : Js) (items : List α) (reasons : List Reason) :
    List Reason :=
  if items.isEmpty && reasons.isEmpty && !emptyProof payload then [.empty_not_confirmed]
  else reasons

/-- `resolveSource`: the identity of a source, and why it has no configuration. -/
structure ResolvedSource where
  sourceId : String
  reason : Option Reason

/-- The read of a source without a configuration. -/
def unresolved {α : Type} (sourceId : String) (window : ReadWindow) (reason : Reason) :
    SourceRead α :=
  readResult sourceId window [] [reason]
    (some (if reason = .missing_configuration then .unavailable else .error))

def inWindow (engine : Engine) (window : ReadWindow) (item : StartedSpan) : Bool :=
  engine.float window.startMs ≤ item.startMs && item.startMs ≤ engine.float window.endMs

def StartedSpan.at (sourceId : String) (item : StartedSpan) : TraceSpan :=
  { item.span with sourceId := some sourceId }

/-! ## Metadata of spans -/

/-- `String(value ?? '').toUpperCase()` without a prefix. -/
def enumName (engine : Engine) (namePrefix : String) (value : Option Js) : String :=
  let name := Text.upper engine.unicode ((orElse value none).elim "" engine.string)
  match namePrefix.toList.isPrefixOf name.toList with
  | true => String.ofList (name.toList.drop namePrefix.length)
  | false => name

def spanStatus (engine : Engine) (value : Option Js) : Option SpanStatus :=
  let name := enumName engine "STATUS_CODE_" value
  if ["0", "UNSET"].contains name then some .unset
  else if ["1", "OK"].contains name then some .ok
  else if ["2", "ERROR"].contains name then some .error
  else none

def spanKinds : List String :=
  ["UNSPECIFIED", "INTERNAL", "SERVER", "CLIENT", "PRODUCER", "CONSUMER"]

def spanKind (engine : Engine) (value : Option Js) : String :=
  let name := enumName engine "SPAN_KIND_" value
  match ["0", "1", "2", "3", "4", "5"].idxOf? name with
  | some i => spanKinds.getD i "UNSPECIFIED"
  | none => if spanKinds.contains name then name else "UNSPECIFIED"

def mapLinks (value : Option Js) : List SpanLink :=
  ((array value).getD []).filterMap fun v => do
    let r := object (some v)
    let traceId ← (text (prop r "traceId")).or (text (prop r "TraceId"))
    let spanId ← (text (prop r "spanId")).or (text (prop r "SpanId"))
    pure ⟨traceId, spanId⟩

/-- `spanMetadata`: the scope of the resource and what the span says of databases and queues. -/
def spanMetadata (engine : Engine) (resource attributes : Fields) (out : TraceSpan) : TraceSpan :=
  let res (key : String) := text (get resource key)
  let att (key : String) := text (get attributes key)
  let number (key : String) := numeric engine (get attributes key)
  let address := (att "server.address").or (att "net.peer.name")
  let port := (number "server.port").or (number "net.peer.port")
  { out with
    accountId := res "cloud.account.id"
    region := res "cloud.region"
    environment := (res "deployment.environment.name").or (res "deployment.environment")
    serviceNamespace := res "service.namespace"
    k8sNamespace := res "k8s.namespace.name"
    k8sCluster := res "k8s.cluster.name"
    k8sPod := res "k8s.pod.name"
    k8sDeployment := res "k8s.deployment.name"
    dbSystem := att "db.system"
    dbName := att "db.name"
    dbHost := address
    messagingSystem := att "messaging.system"
    messagingDestination := (att "messaging.destination.name").or (att "messaging.destination")
    messagingBroker :=
      match att "messaging.system", address, port with
      | some _, some address, some port =>
        if port.den = 1 ∧ 0 < port ∧ port ≤ 65535 then
          some (Text.lower engine.unicode (trimmed address) ++ ":" ++ toString port.num)
        else none
      | _, _, _ => none }

/-! ## ClickHouse -/

def timestamp (engine : Engine) : Option Js → Option Rat
  | some (.num n) => numeric engine (some (.num n))
  | value => (text value).bind engine.parseDate

def otelLinks (row : Fields) : Option (List Js) :=
  match array (get row "Links") with
  | some links => some links
  | none =>
    let nested := object (get row "Links")
    let traceIds := orElse (get row "Links.TraceId") (prop nested "TraceId")
    let spanIds := orElse (get row "Links.SpanId") (prop nested "SpanId")
    if traceIds.isNone && spanIds.isNone then
      if (get row "Links").isNone then none else some [.null]
    else
      match array traceIds, array spanIds with
      | some traceIds, some spanIds =>
        some ((List.range (max traceIds.length spanIds.length)).map fun i =>
          .obj ((traceIds[i]?.toList.map fun id => ("traceId", id)) ++
            spanIds[i]?.toList.map fun id => ("spanId", id)))
      | _, _ => some [.null]

def mapOtelRow (engine : Engine) (row : Fields) : StartedSpan :=
  let resource := (object (get row "ResourceAttributes")).getD []
  let attributes := (object (get row "SpanAttributes")).getD []
  let out : TraceSpan :=
    { traceId := (text (get row "TraceId")).getD ""
      spanId := (text (get row "SpanId")).getD ""
      service := ((text (get row "ServiceName")).or (text (get resource "service.name"))).getD "unknown"
      kind := spanKind engine (get row "SpanKind")
      parentSpanId := text (get row "ParentSpanId")
      status := spanStatus engine (get row "StatusCode")
      links := (otelLinks row).map fun links => mapLinks (some (.arr links))
      durationMs := engine.float ((numeric engine (get row "Duration")).getD 0) / 1000000 }
  { span := spanMetadata engine resource attributes out
    startMs := engine.float ((timestamp engine (get row "Timestamp")).getD 0) }

def clickhouseRowCap : Nat :=
  1000

/-- `clickhouseRows`: the rows, if there are any to read, and the reasons of the envelopes. -/
def clickhouseRows (payload : Js) : Option (List Js) × List Reason :=
  match payload with
  | .arr rows => (some rows, [])
  | _ =>
    let r := object (some payload)
    let inner := object (prop r "result")
    let reasons := envelopeReasons r ++ envelopeReasons inner
    if reasons.contains .query_failed then (none, reasons)
    else
      let rows :=
        if (prop r "rows").isSome then prop r "rows"
        else if (prop r "data").isSome then prop r "data"
        else prop inner "rows"
      match array rows with
      | some rows => (some rows, reasons)
      | none => (none, reasons ++ [.malformed_payload])

/-- One row: its span, if the required fields are there, and whether something is malformed. -/
def clickhouseRow (engine : Engine) (value : Js) : Option StartedSpan × List Reason :=
  match object (some value) with
  | none => (none, [.malformed_rows])
  | some row =>
    let required := (text (get row "TraceId")).isSome && (text (get row "SpanId")).isSome &&
      (timestamp engine (get row "Timestamp")).isSome &&
      (numeric engine (get row "Duration")).any (0 ≤ ·)
    if !required then (none, [.malformed_rows])
    else
      let item := mapOtelRow engine row
      let broken (key : String) := (get row key).isSome && (object (get row key)).isNone
      let flawed := broken "ResourceAttributes" || broken "SpanAttributes" ||
        ((get row "StatusCode").isSome && item.span.status.isNone) ||
        (otelLinks row).any fun links => (item.span.links.getD []).length ≠ links.length
      (some item, if flawed then [.malformed_rows] else [])

/-- A collection: the items, the reasons, and whether a child was missing. -/
structure Collected (α : Type) where
  items : List α
  reasons : List Reason
  missingChild : Bool := false

/-- What the rows of ClickHouse give. -/
def clickhouseCollected (engine : Engine) (sourceId : String) (window : ReadWindow) (limit : Nat)
    (rows : List Js) (reasons : List Reason) : Collected TraceSpan where
  items := (((rows.take limit).filterMap fun row => (clickhouseRow engine row).1).filter
    (inWindow engine window)).map (StartedSpan.at sourceId)
  reasons := reasons ++ (if limit ≤ rows.length then [.cap_reached] else []) ++
    (rows.take limit).flatMap fun row => (clickhouseRow engine row).2

/-- The read of a collection: without items and reasons it needs a proof that it completed, and a
missing child forbids a deletion. -/
def Collected.read {α : Type} (c : Collected α) (sourceId : String) (window : ReadWindow)
    (payload : Js) : SourceRead α :=
  let read := readResult sourceId window c.items (requireEmptyProof payload c.items c.reasons)
  { read with canSweep := read.canSweep && !c.missingChild }

/-- The number of items that a read is asked for: the floor of a finite cap, at least 0. -/
def limitOf (cap : JsNumber) : Option Nat :=
  match cap with
  | .finite cap => some ⌊cap⌋.toNat
  | .infinite _ => none

/-- A ClickHouse instance: its configuration, and what its connector answers. `none` is an
exception. -/
structure ClickHouseOtelTraceSource where
  resolved : ResolvedSource
  answer : Option Js

def ClickHouseOtelTraceSource.recentSpans (engine : Engine) (source : ClickHouseOtelTraceSource)
    (windowMins : Rat) (cap : JsNumber) (endMs : Rat) : SourceRead TraceSpan :=
  let window := readWindow windowMins endMs
  let sourceId := source.resolved.sourceId
  match source.resolved.reason with
  | some reason => unresolved sourceId window reason
  | none =>
    match validWindow window, limitOf cap with
    | true, some limit =>
      let limit := min clickhouseRowCap limit
      if limit = 0 then readResult sourceId window [] [.cap_reached]
      else
        match source.answer with
        | none => readResult sourceId window [] [.query_failed]
        | some payload =>
          match clickhouseRows payload with
          | (none, reasons) => readResult sourceId window [] reasons
          | (some rows, reasons) =>
            (clickhouseCollected engine sourceId window limit rows reasons).read sourceId
              window payload
    | _, _ => readResult sourceId window [] [.invalid_request]

/-! ## Tempo -/

def tempoTraceCap : Nat :=
  20

/-- A digit of a hexadecimal text. -/
def isHexDigit (c : Char) : Bool :=
  c.isDigit || ('a' ≤ c && c ≤ 'f') || ('A' ≤ c && c ≤ 'F')

/-- The value of a character of base64. -/
def sextet (c : Char) : Option Nat :=
  if c.isUpper then some (c.toNat - 65)
  else if c.isLower then some (c.toNat - 71)
  else if c.isDigit then some (c.toNat + 4)
  else if c = '+' then some 62
  else if c = '/' then some 63
  else none

/-- The bytes of a canonical base64 text of that many bytes, in hexadecimal. -/
def base64Hex (bytes : Nat) (raw : List Char) : Option (List Char) := do
  let body := raw.takeWhile (· ≠ '=')
  let pads := raw.length - body.length
  let digits ← body.mapM sextet
  let value := Text.ofDigits 64 digits
  let spare := 6 * digits.length % 8
  if raw.drop body.length = List.replicate pads '=' ∧ pads ≤ 2 ∧ raw.length % 4 = 0 ∧
      6 * digits.length / 8 = bytes ∧ value % 2 ^ spare = 0 then
    some (Text.numeral 16 (2 * bytes) (value / 2 ^ spare))
  else none

def normalizeTempoId (bytes : Nat) (value : Option Js) (allowZero : Bool := false) :
    Option String := do
  let raw ← text value
  let chars := raw.toList
  let keep (hex : List Char) : Option String :=
    if allowZero || hex.any (· ≠ '0') then some (String.ofList hex) else none
  if chars.all isHexDigit then
    if 2 * bytes < chars.length ∨ (bytes = 8 ∧ chars.length ≠ 16) then none
    else keep (List.replicate (2 * bytes - chars.length) '0' ++ chars.map Char.toLower)
  else
    match base64Hex bytes chars with
    | some hex => keep hex
    | none => some raw

/-- One attribute: a scalar is kept as a text. -/
def otlpAttr (engine : Engine) (acc : Fields × List Reason) (entry : Js) : Fields × List Reason :=
  let a := object (some entry)
  match text (prop a "key"), object (prop a "value") with
  | some key, some v =>
    let scalar := orElse (get v "stringValue") (orElse (get v "intValue")
      (orElse (get v "boolValue") (get v "doubleValue")))
    match scalar with
    | some (.str s) => (Js.set acc.1 key (.str s), acc.2)
    | some (.num n) => (Js.set acc.1 key (.str (engine.string (.num n))), acc.2)
    | some (.bool b) => (Js.set acc.1 key (.str (engine.string (.bool b))), acc.2)
    | _ => acc
  | _, _ => (acc.1, acc.2 ++ [.malformed_rows])

def otlpAttrs (engine : Engine) (value : Option Js) : Fields × List Reason :=
  match value with
  | none => ([], [])
  | some (.arr entries) => entries.foldl (otlpAttr engine) ([], [])
  | some _ => ([], [.malformed_rows])

/-- What a part of a payload gives. -/
abbrev Parsed (α : Type) : Type :=
  List α × List Reason

/-- The parts after each other. -/
def Parsed.all {α : Type} (parts : List (Parsed α)) : Parsed α :=
  (parts.flatMap Prod.fst, parts.flatMap Prod.snd)

def parseTempoSpan (engine : Engine) (traceId : String) (resource : Fields) (value : Js) :
    Parsed StartedSpan :=
  let s := object (some value)
  match s, normalizeTempoId 8 (prop s "spanId"), numeric engine (prop s "startTimeUnixNano"),
    numeric engine (prop s "endTimeUnixNano") with
  | some fields, some spanId, some start, some stop =>
    let foreign := (get fields "traceId").isSome &&
      normalizeTempoId 16 (get fields "traceId") != some traceId
    if start < 0 ∨ stop < start ∨ foreign then ([], [.malformed_rows])
    else
      let (attrs, attrReasons) := otlpAttrs engine (get fields "attributes")
      let hasParent := (get fields "parentSpanId").any fun id => !isText "" (some id)
      let parent := normalizeTempoId 8 (get fields "parentSpanId") true
      let status := (object (get fields "status")).bind fun status =>
        spanStatus engine (orElse (get status "code") (some (Js.ofNat 0)))
      let links := (mapLinks (get fields "links")).filterMap fun link => do
        let traceId ← normalizeTempoId 16 (some (.str link.traceId))
        let spanId ← normalizeTempoId 8 (some (.str link.spanId))
        pure (⟨traceId, spanId⟩ : SpanLink)
      let brokenLinks := (get fields "links").isSome &&
        (array (get fields "links")).all fun given => given.length ≠ links.length
      let item : TraceSpan :=
        { traceId
          spanId
          service := (text (get resource "service.name")).getD "unknown"
          kind := spanKind engine (get fields "kind")
          durationMs := (engine.float stop - engine.float start) / 1000000
          parentSpanId :=
            if hasParent then parent.filter (· ≠ "0000000000000000") else none
          status
          links := if (get fields "links").isSome then some links else none }
      ([⟨spanMetadata engine resource attrs item, engine.float start / 1000000⟩],
        attrReasons ++ (if hasParent && parent.isNone then [.malformed_rows] else []) ++
          (if (get fields "status").isSome && status.isNone then [.malformed_rows] else []) ++
          if brokenLinks then [.malformed_rows] else [])
  | _, _, _, _ => ([], [.malformed_rows])

def parseTempoScope (engine : Engine) (traceId : String) (resource : Fields) (value : Js) :
    Parsed StartedSpan :=
  match array (prop (object (some value)) "spans") with
  | none => ([], [.malformed_rows])
  | some spans => Parsed.all (spans.map (parseTempoSpan engine traceId resource))

/-- The spans of one resource. -/
def parseTempoBatch (engine : Engine) (traceId : String) (value : Js) : Parsed StartedSpan :=
  let b := object (some value)
  let resource := prop b "resource"
  let broken : List Reason :=
    if resource.isSome && (object resource).isNone then [.malformed_rows] else []
  let (attrs, attrReasons) := otlpAttrs engine (prop (object resource) "attributes")
  let scopes : Parsed StartedSpan :=
    match array (orElse (prop b "scopeSpans") (prop b "instrumentationLibrarySpans")) with
    | none => ([], [.malformed_rows])
    | some scopes => Parsed.all (scopes.map (parseTempoScope engine traceId attrs))
  (scopes.1, broken ++ attrReasons ++ scopes.2)

def parseTempoTrace (engine : Engine) (traceId : String) (payload : Js) : Parsed StartedSpan :=
  let r := object (some payload)
  let reasons := envelopeReasons r
  if reasons.contains .query_failed then ([], reasons)
  else
    match normalizeTempoId 16 (some (.str traceId)) with
    | none => ([], reasons ++ [.malformed_rows])
    | some traceId =>
      match array (orElse (prop r "batches") (prop r "resourceSpans")) with
      | none => ([], reasons ++ [.malformed_payload])
      | some batches =>
        let parsed := Parsed.all (batches.map (parseTempoBatch engine traceId))
        (parsed.1, reasons ++ parsed.2)

/-- A Tempo instance: its configuration, the answer to the search, and the answer for each trace.
`none` is an exception. -/
structure TempoTraceSource where
  resolved : ResolvedSource
  search : Option Js
  trace : String → Option Js

def fetchTrace (engine : Engine) (trace : String → Option Js) (sourceId : String)
    (window : ReadWindow) (limit : Nat) (c : Collected TraceSpan) (traceId : String) :
    Collected TraceSpan :=
  match trace traceId with
  | none => { c with reasons := c.reasons ++ [.trace_fetch_failed] }
  | some payload =>
    let parsed := parseTempoTrace engine traceId payload
    let missing := parsed.1.isEmpty && parsed.2.isEmpty
    let selected := parsed.1.filter (inWindow engine window)
    let room := limit - c.items.length
    { items := c.items ++ (selected.take room).map (StartedSpan.at sourceId)
      reasons := c.reasons ++ parsed.2 ++ (if missing then [.incomplete_collection] else []) ++
        if room < selected.length then [.cap_reached] else []
      missingChild := c.missingChild || missing }

/-- Fetch the traces until the limit is reached. -/
def fetchTraces (engine : Engine) (trace : String → Option Js) (sourceId : String)
    (window : ReadWindow) (limit : Nat) : Collected TraceSpan → List String → Collected TraceSpan
  | c, [] => c
  | c, traceId :: rest =>
    if limit ≤ c.items.length then { c with reasons := c.reasons ++ [.cap_reached] }
    else
      fetchTraces engine trace sourceId window limit
        (fetchTrace engine trace sourceId window limit c traceId) rest

/-- The ids of the traces that a search found, without repetitions. -/
def foundTraces (traces : List Js) : List String :=
  ((traces.filterMap fun t => normalizeTempoId 16 (prop (object (some t)) "traceID")).eraseDups).take
    tempoTraceCap

/-- What a search found wanting. -/
def searchReasons (traces : List Js) : List Reason :=
  (if tempoTraceCap ≤ traces.length then [.cap_reached] else []) ++
    traces.flatMap fun t =>
      if (normalizeTempoId 16 (prop (object (some t)) "traceID")).isNone then [.malformed_rows]
      else []

def TempoTraceSource.recentSpans (engine : Engine) (source : TempoTraceSource) (windowMins : Rat)
    (cap : JsNumber) (endMs : Rat) : SourceRead TraceSpan :=
  let window := readWindow windowMins endMs
  let sourceId := source.resolved.sourceId
  match source.resolved.reason with
  | some reason => unresolved sourceId window reason
  | none =>
    match validWindow window, limitOf cap with
    | true, some limit =>
      if limit = 0 then readResult sourceId window [] [.cap_reached]
      else
        match source.search with
        | none => readResult sourceId window [] [.query_failed]
        | some payload =>
          let search := object (some payload)
          let reasons := envelopeReasons search
          if reasons.contains .query_failed then readResult sourceId window [] reasons
          else
            match array (prop search "traces") with
            | none => readResult sourceId window [] (reasons ++ [.malformed_payload])
            | some traces =>
              (fetchTraces engine source.trace sourceId window limit
                { items := [], reasons := reasons ++ searchReasons traces }
                (foundTraces traces)).read sourceId window payload
    | _, _ => readResult sourceId window [] [.invalid_request]

/-! ## Prometheus and Mimir -/

/-- `METRIC_IDENTITY_LABELS`, of one field. -/
def identityKeys (prefixes aliases : List String) : List String :=
  (prefixes.flatMap fun first => aliases.map fun name => first ++ "_" ++ name) ++ aliases

/-- `metricIdentity`, without the source. -/
def metricIdentity (metric : Fields) (prefixes : List String) : TraceIdentity :=
  let find (aliases : List String) : Option String :=
    (identityKeys prefixes aliases).findSome? fun key => text (get metric key)
  { accountId := find ["cloud_account_id", "account_id"]
    region := find ["cloud_region", "region"]
    environment := find ["deployment_environment_name", "deployment_environment", "environment"]
    serviceNamespace := find ["service_namespace"]
    k8sNamespace := find ["k8s_namespace_name", "k8s_namespace", "workload_namespace", "namespace"]
    k8sCluster := find ["k8s_cluster_name", "k8s_cluster", "cluster"] }

/-- One sample: no traffic gives no call. -/
def parseSample (engine : Engine) (row : Js) : Parsed ServiceGraphCall :=
  let sample := object (some row)
  let metric := object (prop sample "metric")
  let client := (text (prop metric "client")).or (text (prop metric "source_workload"))
  let server := (text (prop metric "server")).or (text (prop metric "destination_workload"))
  let count : Option Rat :=
    match array (prop sample "value") with
    | some [at_, value] =>
      if (numeric engine (some at_)).isSome then numeric engine (some value) else none
    | _ => none
  match metric, client, server, count with
  | some metric, some client, some server, some count =>
    if count < 0 then ([], [.malformed_rows])
    else if count = 0 then ([], [])
    else
      ([{ client
          server
          count := engine.float count
          clientIdentity := some (metricIdentity metric ["client", "source"])
          serverIdentity := some (metricIdentity metric ["server", "destination"]) }], [])
  | _, _, _, _ => ([], [.malformed_rows])

def parseServiceGraphCalls (engine : Engine) (payload : Js) : Parsed ServiceGraphCall :=
  let r := object (some payload)
  let reasons := envelopeReasons r
  if reasons.contains .query_failed then ([], reasons)
  else
    match array (prop r "result") with
    | some rows =>
      if (prop r "resultType").all fun type => isText "vector" (some type) then
        let parsed := Parsed.all (rows.map (parseSample engine))
        (parsed.1, reasons ++ parsed.2)
      else ([], reasons ++ [.malformed_payload])
    | none => ([], reasons ++ [.malformed_payload])

/-- A Prometheus or Mimir instance: its configuration, and what its connector answers. -/
structure MetricsCallsSource where
  resolved : ResolvedSource
  answer : Option Js

def ServiceGraphCall.at (sourceId : String) (call : ServiceGraphCall) : ServiceGraphCall :=
  let stamped (identity : Option TraceIdentity) : Option TraceIdentity :=
    some { identity.getD {} with sourceId := some sourceId }
  { call with
    clientIdentity := stamped call.clientIdentity
    serverIdentity := stamped call.serverIdentity }

def MetricsCallsSource.calls (engine : Engine) (source : MetricsCallsSource) (windowMins endMs : Rat) :
    SourceRead ServiceGraphCall :=
  let window := readWindow windowMins endMs
  let sourceId := source.resolved.sourceId
  match source.resolved.reason with
  | some reason => unresolved sourceId window reason
  | none =>
    if !validWindow window then readResult sourceId window [] [.invalid_request]
    else
      match source.answer with
      | none => readResult sourceId window [] [.query_failed]
      | some payload =>
        let parsed := parseServiceGraphCalls engine payload
        let c : Collected ServiceGraphCall :=
          { items := parsed.1.map (ServiceGraphCall.at sourceId), reasons := parsed.2 }
        c.read sourceId window payload

end AwsOps.Topology

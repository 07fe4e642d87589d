import AwsOps.Foundation.Js
import AwsOps.Chat.Patterns

/-!
# The evidence of an answer

`chat-evidence.ts`: receipts of tool calls, the outcome of each domain, and the evidence of a whole
answer, read from a JSON value that may come from storage. Everything is projected onto a whitelist
of properties, and the status is computed again at each level. What the projection leaves out is
marked as truncated, invalid or unsupported. The status `partial` is written `partly` here.
-/

namespace AwsOps.Chat

open Js (Fields get set units)

/-! ## Values -/

/-- How numbers are written, and whether a value compares as more than 32. The comparison raises
for an object without a primitive value. -/
structure Engine where
  number : JsNumber → List Char
  over32 : Js → Option Bool

inductive Outcome
  | success | error | empty | unverified | partly
  deriving DecidableEq

def Outcome.text : Outcome → String
  | success => "success"
  | error => "error"
  | empty => "empty"
  | unverified => "unverified"
  | partly => "partial"

/-- The outcome with a text. -/
def Outcome.read : Option Js → Option Outcome
  | some (.str s) =>
    [success, error, empty, unverified, partly].find? fun outcome => outcome.text == s
  | _ => none

/-- `['success', 'empty'].includes(status)`. -/
def Outcome.positive : Outcome → Bool
  | success | empty => true
  | _ => false

/-- The outcome of a receipt: an outcome, or `unfinished`. -/
inductive ReceiptOutcome
  | known (outcome : Outcome)
  | unfinished
  deriving DecidableEq

def ReceiptOutcome.text : ReceiptOutcome → String
  | known outcome => outcome.text
  | unfinished => "unfinished"

def ReceiptOutcome.read (value : Option Js) : Option ReceiptOutcome :=
  match Outcome.read value with
  | some outcome => some (known outcome)
  | none =>
    match value with
    | some (.str s) => if s = "unfinished" then some unfinished else none
    | _ => none

def obj : Option Js → Fields
  | some (.obj fields) => fields
  | _ => []

/-- `value === true`. -/
def isTrue : Option Js → Bool
  | some (.bool b) => b
  | _ => false

/-- `value === false`. -/
def isFalse : Option Js → Bool
  | some (.bool b) => !b
  | _ => false

/-- A value is one of the texts. -/
def isOneOf (texts : List String) : Js → Bool
  | .str s => texts.contains s
  | _ => false

/-- `!!value`. -/
def truthy : Option Js → Bool
  | none | some .null => false
  | some (.bool b) => b
  | some (.num n) => n ≠ .finite 0
  | some (.str s) => s ≠ ""
  | some (.arr _) | some (.obj _) => true

/-- `typeof value === 'boolean'`. -/
def isBoolean : Js → Bool
  | .bool _ => true
  | _ => false

/-- `num`. -/
def isNum : Js → Bool
  | .num (.finite value) => 0 ≤ value ∧ value ≤ 8640000000000000
  | _ => false

/-- `value === null`. -/
def isNull : Js → Bool
  | .null => true
  | _ => false

/-- `match`: a text of bounded length that matches a pattern. -/
def isMatch (pattern : List Char → Bool) (max : Nat) : Js → Bool
  | .str s => units s.toList ≤ max && pattern s.toList
  | _ => false

/-! ## Patterns -/

/-- `id`. -/
def isId (s : List Char) : Bool :=
  !s.isEmpty && s.all fun c => Patterns.isDashed c || c == '_'

/-- `account`. -/
def isAccount : List Char → Bool :=
  Patterns.isAccount Char.isDigit

/-- `region`. -/
def isRegion : List Char → Bool :=
  Patterns.isRegion Char.isDigit

/-- A resource id with one of the prefixes. -/
def isResourceOf : List String → List Char → Bool :=
  Patterns.isResourceOf

/-- `resource`. -/
def isResource : List Char → Bool :=
  isResourceOf Patterns.resourceKinds

/-- `/^\d{4}-\d\d-\d\d[T ][0-9:.+-]+Z?$/`. -/
def isClockText : List Char → Bool :=
  Patterns.isClockText Char.isDigit

/-- The pattern of a `sourceId`. -/
def isSourceId : List Char → Bool :=
  Patterns.isSourceId Char.isDigit

/-- `clock`. -/
def isClock (value : Js) : Bool :=
  isNull value || isMatch isClockText 40 value

/-! ## Quality -/

/-- What a property has to be. -/
abbrev Rules : Type :=
  List (String × (Js → Bool))

def statuses : List String :=
  ["ok", "empty", "partial", "unavailable", "error", "unknown"]

def reasons : List String :=
  ["missing_ledger", "unknown_account_coverage", "source_failed", "incomplete_collection",
    "unknown_attributes", "empty_not_confirmed", "unknown_capture", "publication_failed",
    "read_failed", "response_missing", "truncated", "scope_missing", "ambiguous", "missing",
    "identity_missing", "target_missing", "destination_missing", "snapshot_changed"]

/-- The rules of the own properties of a quality. -/
def ownRules : Rules :=
  [("partial", isBoolean), ("unknown", isBoolean), ("truncated", isBoolean),
    ("invalid", isBoolean), ("unsupported", isBoolean),
    ("selection", isOneOf ["all", "resolved", "not_found", "ambiguous"])]

/-- The nested properties of a quality. -/
def nestedKeys : List String :=
  ["routeSelection", "truncation", "collection"]

/-- The rules of `routeSelection`. -/
def routeRules : Rules :=
  [("basis", fun value => isNull value || isOneOf ["explicit", "main"] value),
    ("reason", isOneOf reasons)]

/-- The rules of `truncation`. -/
def truncationRules : Rules :=
  [("nodes", isBoolean), ("edges", isBoolean), ("node_limit", isNum), ("edge_limit", isNum)]

/-- The rules of `collection`. -/
def collectionRules : Rules :=
  [("stale", isBoolean), ("retainedPrevious", isBoolean), ("snapshotConsistent", isBoolean),
    ("captured_at", isClock), ("attempted_at", isClock),
    ("evidenceKind", isOneOf ["inventory", "trace"]), ("infraUnavailable", isBoolean),
    ("inputTruncated", isBoolean), ("graphTruncated", isBoolean), ("windowStartMs", isNum),
    ("windowEndMs", isNum), ("nodeDrops", isNum), ("edgeDrops", isNum), ("orphanSpans", isNum),
    ("invalidSpans", isNum), ("unresolvedMessaging", isNum)]

def sourceRules : Rules :=
  let stamp value := isNull value || isNum value
  [("sourceId", isMatch isSourceId 80), ("scope", isOneOf ["account", "aggregate"]),
    ("producerStatus", isOneOf ["succeeded", "failed", "partial", "running", "unknown"]),
    ("capturedAtMs", stamp), ("lastSuccessAtMs", stamp), ("attemptedAtMs", stamp),
    ("finishedAtMs", stamp), ("itemCount", stamp), ("windowStartMs", stamp),
    ("windowEndMs", stamp)]

/-- A marker of a quality is set. -/
def mark (key : String) (found : Bool) (q : Fields) : Fields :=
  if found then set q key (.bool true) else q

/-- There is a property without a rule that is not one of the others. -/
def hasForeign (rules : Rules) (others : List String) (source : Fields) : Bool :=
  source.any fun field => !(rules.map Prod.fst).contains field.1 && !others.contains field.1

/-- There is a property that breaks its rule. -/
def hasBroken (rules : Rules) (source : Fields) : Bool :=
  rules.any fun rule => (get source rule.1).any fun value => !rule.2 value

/-- What `fields` marks, for a destination other than the quality itself. -/
def flagged (rules : Rules) (others : List String) (source q : Fields) : Fields :=
  mark "invalid" (hasBroken rules source) (mark "unsupported" (hasForeign rules others source) q)

/-- What `fields` copies. -/
def projected (rules : Rules) (source : Fields) : Fields :=
  rules.filterMap fun rule =>
    ((get source rule.1).filter rule.2).map fun value => (rule.1, value)

/-- The markers that a false value cannot clear. -/
def stickyMarkers : List String :=
  ["invalid", "unsupported", "truncated"]

/-- One own property of a quality. -/
def ownField (source q : Fields) (rule : String × (Js → Bool)) : Fields :=
  match get source rule.1 with
  | none => q
  | some value =>
    if rule.2 value then
      if stickyMarkers.contains rule.1 && isTrue (get q rule.1) then q else set q rule.1 value
    else set q "invalid" (.bool true)

/-- `fields` on the quality itself. -/
def ownFields (source q : Fields) : Fields :=
  ownRules.foldl (ownField source) (mark "unsupported" (hasForeign ownRules nestedKeys source) q)

/-- The status of a nested value: one of the texts, or the default. -/
def statusOf (texts : List String) (source : Fields) : String × Js :=
  match get source "status" with
  | some (.str s) => ("status", .str (if texts.contains s then s else "unknown"))
  | _ => ("status", .str "unknown")

/-- The status of a nested value is none of the texts. -/
def badStatus (texts : List String) (source : Fields) : Bool :=
  !(get source "status").any (isOneOf texts)

def routeSelection (value q : Fields) : Fields :=
  let status := statusOf ["selected", "unknown"] value
  let q := set q "routeSelection" (.obj (status :: projected routeRules value))
  flagged routeRules ["status"] value (mark "invalid" (badStatus ["selected", "unknown"] value) q)

def truncation (value q : Fields) : Fields :=
  flagged truncationRules [] value
    (set q "truncation" (.obj (projected truncationRules value)))

def keptReasons (items : List Js) : List Js :=
  (items.take 6).filter (isOneOf reasons)

def sourceReasons (source : Fields) : Fields :=
  match get source "reasons" with
  | some (.arr items) => [("reasons", .arr (keptReasons items))]
  | _ => []

def flagReasons (source q : Fields) : Fields :=
  match get source "reasons" with
  | none => q
  | some (.arr items) => mark "truncated" ((keptReasons items).length ≠ items.length) q
  | some _ => mark "invalid" true q

/-- One source: its record, and what it marks. -/
def projectSource (acc : Fields × List Js) (raw : Js) : Fields × List Js :=
  match raw with
  | .obj source =>
    let q := mark "invalid" (badStatus statuses source) acc.1
    let q := flagReasons source (flagged sourceRules ["status", "reasons"] source q)
    (q, acc.2 ++ [.obj (statusOf statuses source :: projected sourceRules source ++
      sourceReasons source)])
  | _ => (mark "invalid" true acc.1, acc.2)

/-- `sources` or `publishedSources`: the list, and what it marks. -/
def projectSources (name : String) (value q : Fields) : Fields × Fields :=
  match get value name with
  | none => (q, [])
  | some (.arr items) =>
    let (q, records) :=
      (items.take 8).foldl projectSource (mark "truncated" (items.length > 8) q, [])
    (q, [(name, .arr records)])
  | some _ => (mark "invalid" true q, [(name, .arr [])])

def collection (value q : Fields) : Fields :=
  let q := mark "invalid" (badStatus statuses value) q
  let q := flagged collectionRules ["status", "sources", "publishedSources"] value q
  let (q, sources) := projectSources "sources" value q
  let (q, published) := projectSources "publishedSources" value q
  set q "collection"
    (.obj (statusOf statuses value :: projected collectionRules value ++ sources ++ published))

/-- A nested property: it has to be an object. -/
def nested (key : String) (project : Fields → Fields → Fields) (source q : Fields) : Fields :=
  match get source key with
  | none => q
  | some (.obj value) => project value q
  | some _ => mark "invalid" true q

def quality (value : Js) : Fields :=
  let source := obj (some value)
  let q := match value with
    | .obj _ => []
    | _ => mark "invalid" true []
  let q := ownFields source q
  let q := nested "routeSelection" routeSelection source q
  let q := nested "truncation" truncation source q
  nested "collection" collection source q

/-- A positive number. -/
def isPositive : Js → Bool
  | .num (.finite value) => 0 < value
  | .num (.infinite negative) => !negative
  | _ => false

/-- There is a source whose status is neither `ok` nor `empty`. -/
def hasFailedSource : Option Js → Bool
  | some (.arr sources) =>
    sources.any fun source => !(get (obj (some source)) "status").any (isOneOf ["ok", "empty"])
  | _ => false

def incomplete (q : Fields) : Bool :=
  ["partial", "unknown", "truncated", "invalid", "unsupported"].any (fun key => truthy (get q key))
    || (get q "selection").any (isOneOf ["not_found", "ambiguous"])
    || (get (obj (get q "routeSelection")) "status").any (isOneOf ["unknown"])
    || ["nodes", "edges"].any (fun key => truthy (get (obj (get q "truncation")) key))
    || match get q "collection" with
      | some (.obj c) =>
        truthy (get c "stale") || truthy (get c "retainedPrevious")
          || isFalse (get c "snapshotConsistent")
          || !(get c "status").any (isOneOf ["ok", "empty"])
          || ["infraUnavailable", "inputTruncated", "graphTruncated"].any
            (fun key => truthy (get c key))
          || ["nodeDrops", "edgeDrops", "orphanSpans", "invalidSpans",
            "unresolvedMessaging"].any (fun key => (get c key).any isPositive)
          || hasFailedSource (get c "sources") || hasFailedSource (get c "publishedSources")
      | _ => false

/-! ## Receipts -/

/-- The text of a record that matches its pattern. -/
def matched (fields : Fields) (pattern : String × (List Char → Bool)) : Option (String × String) :=
  match get fields pattern.1 with
  | some (.str s) => if isMatch pattern.2 128 (.str s) then some (pattern.1, s) else none
  | _ => none

def strings (patterns : List (String × (List Char → Bool))) (value : Option Js) :
    List (String × String) :=
  patterns.filterMap (matched (obj value))

/-- The patterns of `inputs`. -/
def inputPatterns : List (String × (List Char → Bool)) :=
  [("target_account_id", isAccount), ("account_id", isAccount), ("region", isRegion),
    ("resource_id", isResource), ("eni_id", isResourceOf ["eni"]), ("vpc_id", isResourceOf ["vpc"])]

/-- The patterns of the scopes. -/
def scopePatterns : List (String × (List Char → Bool)) :=
  [("accountId", isAccount), ("region", isRegion), ("resourceId", isResource)]

/-- `ToolReceipt`. A receipt without a quality has an empty one. -/
structure ToolReceipt where
  callId : String
  tool : String
  observedAt : Rat
  terminalObservedAt : Option Rat
  outcome : ReceiptOutcome
  inputs : List (String × String)
  requestedScope : List (String × String)
  observedScope : List (String × String)
  quality : Fields

def record (texts : List (String × String)) : Js :=
  .obj (texts.map fun text => (text.1, .str text.2))

/-- A receipt as a value. -/
def ToolReceipt.json (r : ToolReceipt) : Js :=
  .obj ([("version", Js.ofNat 1), ("callId", .str r.callId), ("tool", .str r.tool),
    ("observedAt", .num (.finite r.observedAt))] ++
    (r.terminalObservedAt.map fun at' => ("terminalObservedAt", .num (.finite at'))).toList ++
    [("outcome", .str r.outcome.text), ("inputs", record r.inputs),
      ("requestedScope", record r.requestedScope), ("observedScope", record r.observedScope)] ++
    if r.quality.isEmpty then [] else [("quality", .obj r.quality)])

/-- `JSON.stringify` of a receipt. -/
def ToolReceipt.text (engine : Engine) (r : ToolReceipt) : List Char :=
  Js.stringify engine.number r.json

/-- A text that is an id. -/
def readId (max : Nat) : Option Js → Option String
  | some (.str s) => if isMatch isId max (.str s) then some s else none
  | _ => none

/-- A number that is a clock. -/
def readNum : Option Js → Option Rat
  | some (.num (.finite value)) => if isNum (.num (.finite value)) then some value else none
  | _ => none

/-- `value === 1`. -/
def isOne : Option Js → Bool
  | some (.num n) => n = .finite 1
  | _ => false

/-- The outcome that a receipt is given: unverified when it has no terminal clock, and partial when
its quality is incomplete. -/
def receiptOutcome (outcome : ReceiptOutcome) (finished : Option Rat) (q : Fields) :
    ReceiptOutcome :=
  match outcome with
  | .unfinished => .unfinished
  | .known outcome =>
    let outcome := if finished.isNone then .unverified else outcome
    .known (if outcome.positive && incomplete q then .partly else outcome)

def normalizeReceipt (value : Js) : Option ToolReceipt := do
  let o := obj (some value)
  if !isOne (get o "version") then none
  else
    let callId ← readId 128 (get o "callId")
    let tool ← readId 128 (get o "tool")
    let observedAt ← readNum (get o "observedAt")
    let outcome ← ReceiptOutcome.read (get o "outcome")
    let quality := ((get o "quality").map quality).getD []
    let terminalObservedAt :=
      (readNum (get o "terminalObservedAt")).filter fun finished => observedAt ≤ finished
    some
      { callId, tool, observedAt, terminalObservedAt, quality
        outcome := receiptOutcome outcome terminalObservedAt quality
        inputs := strings inputPatterns (get o "inputs")
        requestedScope := strings scopePatterns (get o "requestedScope")
        observedScope := strings scopePatterns (get o "observedScope") }

/-- `ReceiptBuffer`, with the receipt count of the completion. -/
structure ReceiptBuffer where
  receipts : List ToolReceipt := []
  truncated : Bool := false
  completion : Option Nat := none

def normalizeCompletion (value : Js) : Option Nat :=
  let o := obj (some value)
  if !isOne (get o "version") then none
  else
    match get o "receiptCount" with
    | some (.num (.finite n)) =>
      if n.den = 1 ∧ 0 ≤ n ∧ n ≤ 32 then some n.num.toNat else none
    | _ => none

/-- The completion as a value. -/
def completionJson (receiptCount : Nat) : Js :=
  .obj [("version", Js.ofNat 1), ("receiptCount", Js.ofNat receiptCount)]

def ReceiptBuffer.finish (buffer : ReceiptBuffer) (value : Js) : ReceiptBuffer :=
  match normalizeCompletion value with
  | none => { buffer with truncated := true }
  | some receiptCount =>
    { buffer with
      truncated := buffer.truncated || buffer.completion.isSome ||
        receiptCount != buffer.receipts.length
      completion := some receiptCount }

/-- The receipt is pushed, unless there is no room. -/
def ReceiptBuffer.push (engine : Engine) (buffer : ReceiptBuffer) (receipt : ToolReceipt) :
    ReceiptBuffer :=
  if buffer.receipts.length ≥ 32 ||
      Js.textLength engine.number (.arr (buffer.receipts.map ToolReceipt.json)) +
        Js.textLength engine.number receipt.json > 16000 then
    { buffer with truncated := true }
  else { buffer with receipts := buffer.receipts ++ [receipt] }

def ReceiptBuffer.add (engine : Engine) (buffer : ReceiptBuffer) (value : Js) : ReceiptBuffer :=
  let buffer := { buffer with truncated := buffer.truncated || buffer.completion.isSome }
  match normalizeReceipt value with
  | none => { buffer with truncated := true }
  | some receipt =>
    match buffer.receipts.find? fun r => r.callId == receipt.callId with
    | none => buffer.push engine receipt
    | some existing =>
      -- only an unfinished observation may advance
      if existing.outcome = .unfinished then
        let others := buffer.receipts.eraseP fun r => r.callId == receipt.callId
        { buffer with receipts := others }.push engine receipt
      else if existing.text engine = receipt.text engine then buffer
      else { buffer with truncated := true }

/-! ## Domains and answers -/

def aggregate (states : List Outcome) : Outcome :=
  if states.contains .partly then .partly
  else if states.any Outcome.positive then
    if states.any fun s => s == .error || s == .unverified then .partly
    else if states.contains .success then .success
    else .empty
  else if states.contains .error then
    if states.all fun s => s == .error then .error else .partly
  else .unverified

structure DomainOutcome where
  gateway : String
  status : Outcome
  receipts : List ToolReceipt
  truncated : Bool := false
  invalid : Bool := false
  completion : Option Nat := none

def ToolReceipt.state (r : ToolReceipt) : Outcome :=
  match r.outcome with
  | .known outcome => outcome
  | .unfinished => .unverified

/-- `!text.trim()`. -/
def isBlank (text : String) : Bool :=
  text.toList.all Text.isTrimmed

def domainOutcome (engine : Engine) (gateway text : String) (receipts : List Js) (truncated : Bool)
    (runtimeError : Bool) (completion : Option Js) (runtimeUnverified : Bool) : DomainOutcome :=
  let buffer := receipts.foldl (ReceiptBuffer.add engine) {}
  let buffer := match completion with
    | some value => buffer.finish value
    | none => buffer
  let status := aggregate (buffer.receipts.map ToolReceipt.state)
  let status := if runtimeUnverified && (status.positive || status == .unverified) then .unverified
    else status
  let status := if runtimeError then if isBlank text then .error else .partly else status
  let omitted := truncated || buffer.truncated
  let status :=
    if (omitted || buffer.completion.isNone || isBlank text) && status.positive then
      if status == .empty && buffer.completion.isSome && !omitted then status else .partly
    else status
  { gateway, status, receipts := buffer.receipts, truncated := omitted
    completion := buffer.completion }

structure ChatEvidence where
  status : Outcome
  domains : List DomainOutcome
  interrupted : Bool := false
  fallback : Bool := false
  truncated : Bool := false
  invalid : Bool := false

def answerEvidence (domains : List DomainOutcome) : ChatEvidence :=
  { status := aggregate (domains.map DomainOutcome.status), domains }

def conservativeStatus (computed : Outcome) (incoming : Option Js) : Outcome :=
  match Outcome.read incoming with
  | some .error => .error
  | some .partly => .partly
  | some .unverified => .unverified
  | some .empty => if computed = .success then .partly else computed
  | _ => computed

def malformedMarker (o : Fields) : Bool :=
  ["invalid", "truncated"].any fun key => (get o key).any fun value => !isBoolean value

/-- `d.receipts?.length > 32`. -/
def tooMany (engine : Engine) : Option Js → Option Bool
  | some (.arr items) => some (items.length > 32)
  | some (.str s) => some (units s.toList > 32)
  | some (.obj fields) =>
    match get fields "length" with
    | some length => engine.over32 length
    | none => some false
  | _ => some false

def isArray : Option Js → Bool
  | some (.arr _) => true
  | _ => false

/-- The items of an array. -/
def items : Option Js → List Js
  | some (.arr items) => items
  | _ => []

/-- `d.truncated === true || d.receipts?.length > 32`. -/
def domainTruncated (engine : Engine) (d : Fields) : Option Bool :=
  if isTrue (get d "truncated") then some true else tooMany engine (get d "receipts")

def invalidDomain (d : Fields) : Bool :=
  isTrue (get d "invalid") || malformedMarker d || (Outcome.read (get d "status")).isNone ||
    !isArray (get d "receipts")

/-- A domain of `normalizeEvidence`. It is dropped without a gateway, and nothing is returned when
the comparison raises. -/
def normalizeDomain (engine : Engine) (value : Js) : Option (Option DomainOutcome) :=
  let d := obj (some value)
  match readId 64 (get d "gateway") with
  | none => some none
  | some gateway => do
      let truncated ← domainTruncated engine d
      let normalized := domainOutcome engine gateway "restored" ((items (get d "receipts")).take 33)
        truncated false (get d "completion") false
      let status := conservativeStatus normalized.status (get d "status")
      some (some
        (if invalidDomain d then
          { normalized with invalid := true, status := if status.positive then .partly else status }
        else { normalized with status }))

/-- `normalizeEvidence`. It returns nothing when it raises, and `none` for a value that is no
evidence. -/
def normalizeEvidence (engine : Engine) (value : Js) : Option (Option ChatEvidence) :=
  let o := obj (some value)
  if !isOne (get o "version") || !isArray (get o "domains") then some none
  else do
    let normalized ← ((items (get o "domains")).take 3).mapM (normalizeDomain engine)
    let invalid := isTrue (get o "invalid") || malformedMarker o ||
      (Outcome.read (get o "status")).isNone || normalized.any Option.isNone
    let truncated := isTrue (get o "truncated") || (items (get o "domains")).length > 3
    let evidence := answerEvidence (normalized.filterMap id)
    let interrupted := (get o "synthesis").any (isOneOf ["interrupted"])
    let status := conservativeStatus evidence.status (get o "status")
    let status := if interrupted then .partly else status
    let status := if (truncated || invalid) && status.positive then .partly else status
    some (some
      { evidence with
        status, interrupted, truncated, invalid
        fallback := (get o "fallback").any (isOneOf ["unverified"]) })

/-! ## Evidence as a value -/

/-- A property that is there when it is true. -/
def flag (key : String) (present : Bool) (value : Js) : Fields :=
  if present then [(key, value)] else []

def DomainOutcome.json (d : DomainOutcome) : Js :=
  .obj ([("gateway", .str d.gateway), ("status", .str d.status.text),
    ("receipts", .arr (d.receipts.map ToolReceipt.json))] ++
    flag "truncated" d.truncated (.bool true) ++
    (d.completion.map fun receiptCount => ("completion", completionJson receiptCount)).toList ++
    flag "invalid" d.invalid (.bool true))

/-- The evidence as a value. -/
def ChatEvidence.json (e : ChatEvidence) : Js :=
  .obj ([("version", Js.ofNat 1), ("status", .str e.status.text),
    ("domains", .arr (e.domains.map DomainOutcome.json))] ++
    flag "fallback" e.fallback (.str "unverified") ++
    flag "synthesis" e.interrupted (.str "interrupted") ++
    flag "truncated" e.truncated (.bool true) ++ flag "invalid" e.invalid (.bool true))

end AwsOps.Chat

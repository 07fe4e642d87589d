import AwsOps.Chat.Evidence
import AwsOps.Foundation.Py

/-!
# The quality of a tool result

`tool_receipts.py`, first part: what is kept of the explicit quality of a result, when a quality is
incomplete, how a payload is decoded and how outcomes are combined. Fields that are present and
invalid taint; absent fields stay absent. The outcomes are those of the web tier, which combines
them in the same way.
-/

namespace AwsOps.Agent

open Py (Fields)
open Chat (Outcome statuses reasons)

/-- What the agent asks of Python's libraries: the character database, `json.loads`, which fails for
a text that is no JSON or nested too deeply, and the milliseconds of an ISO date and time, read as
UTC unless it names an offset, which fail for a text that is none. -/
structure Python where
  unicode : Text.Unicode
  loads : String → Option Py
  stamp : String → Option Int

variable (env : Python)

/-! ## Tests -/

/-- `\d`. -/
def isDigit (c : Char) : Bool :=
  (env.unicode.digit c).isSome

def matching (pattern : List Char → Bool) (limit : Nat) (value : Py) : Bool :=
  value.asStr.any fun s => s.length ≤ limit && pattern s.toList

/-- The bound of `number`. -/
def maxNumber : Nat :=
  9007199254740991

def number : Py → Bool
  | .int n => 0 ≤ n && n ≤ maxNumber
  | .float (.finite x) => 0 ≤ x && x ≤ (maxNumber : Rat)
  | _ => false

/-- `count`, with the number. -/
def count : Py → Option Nat
  | .int n => if 0 ≤ n ∧ n ≤ maxNumber then some n.toNat else none
  | _ => none

/-- `count(value) and value == n`. -/
def counts (n : Nat) (value : Py) : Bool :=
  count value == some n

def text (limit : Nat) (value : Py) : Bool :=
  value.asStr.any fun s => 0 < s.length && s.length ≤ limit

def clock (value : Py) : Bool :=
  value.isNone || matching (Patterns.isClockText (isDigit env)) 40 value

/-- `STATUS`. -/
def isStatus : Py → Bool :=
  Py.isOneOf statuses

/-- `one_of(REASONS)`. -/
def isReason : Py → Bool :=
  Py.isOneOf reasons

/-! ## Projections -/

/-- What a field has to be. -/
abbrev Rules : Type :=
  List (String × (Py → Bool))

/-- A marker is set where a problem is found. -/
def mark (key : String) (found : Bool) (q : Fields) : Fields :=
  if found then Py.set q key (.bool true) else q

/-- There is a field without a rule that is not one of the others. -/
def hasForeign (rules : Rules) (others : List String) (src : Fields) : Bool :=
  src.any fun field => !(rules.map Prod.fst).contains field.1 && !others.contains field.1

/-- There is a field that breaks its rule. -/
def hasBroken (rules : Rules) (src : Fields) : Bool :=
  rules.any fun rule => (Py.find src rule.1).any fun value => !rule.2 value

/-- The fields that keep their rules. -/
def projected (rules : Rules) (src : Fields) : Fields :=
  rules.filterMap fun rule =>
    ((Py.find src rule.1).filter rule.2).map fun value => (rule.1, value)

/-- What `fields` marks with other keys, and without. -/
def flagged (rules : Rules) (others : Option (List String)) (src out : Fields) : Fields :=
  mark "invalid" (hasBroken rules src)
    (mark "unsupported" (others.any fun others => hasForeign rules others src) out)

def ownRules : Rules :=
  [("partial", Py.isBool), ("truncated", Py.isBool)]

/-- The rules of `routeSelection`. -/
def routeRules : Rules :=
  [("basis", fun value => value.isNone || value.isOneOf ["explicit", "main"]),
    ("reason", isReason)]

/-- The rules of `truncation`. -/
def truncationRules : Rules :=
  [("nodes", Py.isBool), ("edges", Py.isBool), ("node_limit", number), ("edge_limit", number)]

/-- The rules of `collection`. -/
def collectionRules : Rules :=
  [("stale", Py.isBool), ("retainedPrevious", Py.isBool), ("snapshotConsistent", Py.isBool),
    ("captured_at", clock env), ("attempted_at", clock env),
    ("evidenceKind", Py.isOneOf ["inventory", "trace"]), ("infraUnavailable", Py.isBool),
    ("inputTruncated", Py.isBool), ("graphTruncated", Py.isBool), ("windowStartMs", number),
    ("windowEndMs", number), ("nodeDrops", number), ("edgeDrops", number),
    ("orphanSpans", number), ("invalidSpans", number), ("unresolvedMessaging", number)]

def sourceRules : Rules :=
  let stamp (value : Py) := value.isNone || number value
  [("sourceId", matching (Patterns.isSourceId (isDigit env)) 80),
    ("scope", Py.isOneOf ["account", "aggregate"]),
    ("producerStatus", Py.isOneOf ["succeeded", "failed", "partial", "running", "unknown"]),
    ("capturedAtMs", stamp), ("lastSuccessAtMs", stamp), ("attemptedAtMs", stamp),
    ("finishedAtMs", stamp), ("itemCount", stamp), ("windowStartMs", stamp),
    ("windowEndMs", stamp)]

/-- The status of a collection or a source. -/
def statusOf (src : Fields) : Py :=
  if isStatus (Py.get src "status") then Py.get src "status" else .str "unknown"

/-- `unknown`: a boolean, or a list that stands for whether it is not empty. -/
def unknownField (body out : Fields) : Fields :=
  match Py.find body "unknown" with
  | none => out
  | some (.bool b) => Py.set out "unknown" (.bool b)
  | some (.list items) => Py.set out "unknown" (.bool !items.isEmpty)
  | some _ => mark "invalid" true out

def selection (value out : Fields) : Fields :=
  let status := Py.get value "status"
  if status.isOneOf ["all", "resolved", "not_found", "ambiguous"] then
    Py.set out "selection" status
  else mark "invalid" true out

def routeSelection (value out : Fields) : Fields :=
  let status := Py.get value "status"
  let kept := if status.isText "selected" then "selected" else "unknown"
  let out :=
    Py.set out "routeSelection" (.dict (("status", .str kept) :: projected routeRules value))
  flagged routeRules none value
    (mark "invalid" (!status.isOneOf ["selected", "unknown"]) out)

def truncation (value out : Fields) : Fields :=
  flagged truncationRules (some []) value
    (Py.set out "truncation" (.dict (projected truncationRules value)))

def keptReasons (items : List Py) : List Py :=
  (items.take 6).filter isReason

/-- The reasons of a source, and what they mark. -/
def sourceReasons (source out : Fields) : Fields × Fields :=
  match Py.find source "reasons" with
  | none => ([], out)
  | some (.list items) =>
    ([("reasons", .list (keptReasons items))],
      mark "truncated" ((keptReasons items).length ≠ items.length) out)
  | some _ => ([], mark "invalid" true out)

/-- One source: its record, and what it marks. -/
def projectSource (acc : Fields × List Py) (raw : Py) : Fields × List Py :=
  match raw with
  | .dict source =>
    let status := statusOf source
    let out := mark "invalid" (status.isText "unknown") acc.1
    let out := flagged (sourceRules env) (some ["status", "reasons"]) source out
    let (reasons, out) := sourceReasons source out
    (out, acc.2 ++ [.dict (("status", status) :: projected (sourceRules env) source ++ reasons)])
  | _ => (mark "invalid" true acc.1, acc.2)

/-- `sources` or `publishedSources`: the list, and what it marks. -/
def projectSources (name : String) (value out : Fields) : Fields × Fields :=
  match Py.find value name with
  | none => ([], out)
  | some (.list items) =>
    let (out, records) :=
      (items.take 8).foldl (projectSource env) (mark "truncated" (items.length > 8) out, [])
    ([(name, .list records)], out)
  | some _ => ([(name, .list [])], mark "invalid" true out)

def collection (value out : Fields) : Fields :=
  let status := statusOf value
  let out := mark "invalid" (status.isText "unknown") out
  let out := flagged (collectionRules env) (some ["status", "sources", "publishedSources"]) value out
  let (sources, out) := projectSources env "sources" value out
  let (published, out) := projectSources env "publishedSources" value out
  Py.set out "collection"
    (.dict (("status", status) :: projected (collectionRules env) value ++ sources ++ published))

def nested (key : String) (project : Fields → Fields → Fields) (body out : Fields) : Fields :=
  match Py.find body key with
  | none => out
  | some (.dict value) => project value out
  | some _ => mark "invalid" true out

def quality (body : Fields) : Fields :=
  let out := flagged ownRules none body (projected ownRules body)
  let out := unknownField body out
  let out := nested "selection" selection body out
  let out := nested "routeSelection" routeSelection body out
  let out := nested "truncation" truncation body out
  nested "collection" (collection env) body out

/-- The entries of a field, or none. -/
def fieldsOf (q : Fields) (key : String) : Fields :=
  (Py.get q key).asDict.getD []

def itemsOf (q : Fields) (key : String) : List Py :=
  (Py.get q key).asList.getD []

/-- The status of a collection or a source is neither `ok` nor `empty`. -/
def failedStatus (value : Fields) : Bool :=
  !(Py.get value "status").isOneOf ["ok", "empty"]

def incomplete (q : Fields) : Bool :=
  let coll := fieldsOf q "collection"
  ["partial", "unknown", "truncated", "invalid", "unsupported"].any
      (fun key => (Py.get q key).truthy)
    || (Py.get q "selection").isOneOf ["not_found", "ambiguous"]
    || (Py.get (fieldsOf q "routeSelection") "status").isText "unknown"
    || ["nodes", "edges"].any (fun key => (Py.get (fieldsOf q "truncation") key).isTrue)
    || (Py.get coll "stale").truthy || (Py.get coll "retainedPrevious").truthy
    || (Py.get coll "snapshotConsistent").isFalse
    || ["infraUnavailable", "inputTruncated", "graphTruncated"].any
      (fun key => (Py.get coll key).isTrue)
    || ["nodeDrops", "edgeDrops", "orphanSpans", "invalidSpans", "unresolvedMessaging"].any
      (fun key => (Py.get coll key).isPositive)
    || (!coll.isEmpty && failedStatus coll)
    || ["sources", "publishedSources"].any fun key =>
      (itemsOf coll key).any fun source => source.asDict.any failedStatus

/-! ## Payloads and outcomes -/

def maxResult : Nat :=
  262144

/-- `decode`. It fails for a text that is too long or is no JSON. -/
def decode : Py → Option Py
  | .str s => if s.length > maxResult then none else env.loads s
  | value => some value

def scope (value : Py) : Fields :=
  let patterns : List (String × (List Char → Bool)) :=
    [("accountId", Patterns.isAccount (isDigit env)), ("region", Patterns.isRegion (isDigit env)),
      ("resourceId", Patterns.isResourceOf Patterns.resourceKinds)]
  projected (patterns.map fun p => (p.1, matching p.2 128)) (value.asDict.getD [])

def combined (outcomes : List Outcome) : Outcome :=
  if outcomes.contains .partly then .partly
  else if outcomes.any fun o => o == .success || o == .empty then
    if outcomes.any fun o => o == .error || o == .unverified then .partly
    else if outcomes.contains .success then .success
    else .empty
  else if outcomes.contains .error then
    if outcomes.all fun o => o == .error then .error else .partly
  else .unverified

theorem combined_eq_aggregate (outcomes : List Outcome) :
    combined outcomes = Chat.aggregate outcomes := by
  have hpositive : (fun o : Outcome => o == .success || o == .empty) = Outcome.positive := by
    funext o
    cases o <;> rfl
  unfold combined Chat.aggregate
  rw [hpositive]

end AwsOps.Agent

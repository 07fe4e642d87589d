import Mathlib.Algebra.Order.Ring.Rat
import AwsOps.Foundation.Fallible
import AwsOps.Foundation.Py
import AwsOps.Foundation.Text

/-!
# Intended against actual

`invariants.py` of the diagnosis worker: the verdict on each invariant against the evidence of a
report. A verdict says that the invariant holds, that it does not, or that the evidence does not
tell. The text of a value in an f-string is what `str` gives.
-/

namespace AwsOps.Diagnosis

open Py (Fields)

/-! ## Reading the evidence -/

/-- `type(value).__name__`. -/
def typeName : Py → String
  | .none => "NoneType"
  | .bool _ => "bool"
  | .int _ => "int"
  | .float _ => "float"
  | .str _ => "str"
  | .list _ => "list"
  | .dict _ => "dict"
  | .other _ => "object"

/-- The entries of a value of which `get` is asked. -/
def entries (value : Py) : Except String Fields :=
  match value with
  | .dict fields => .ok fields
  | other => .error ("'" ++ typeName other ++ "' object has no attribute 'get'")

/-- `fields[key]`. -/
def item (fields : Fields) (key : String) : Except String Py :=
  match Py.find fields key with
  | some value => .ok value
  | none => .error ("'" ++ key ++ "'")

def data (actual : Py) (key : String) : Except String Fields := do
  let fields ← entries actual
  pure ((Py.get fields key).asDict.getD [])

/-- The flags that mark evidence as incomplete. -/
def qualityFlags : List String :=
  ["degraded", "partial", "stale", "truncated", "_truncated", "_failed"]

/-- The markers of one dictionary of `_complete`. -/
def usable (fields : Fields) : Bool :=
  (Py.find fields "ok").all Py.isTrue &&
    qualityFlags.all (fun flag => (Py.find fields flag).all Py.isFalse) &&
    (Py.find fields "status").all (Py.isOneOf ["ok", "healthy", "succeeded"]) &&
    (Py.find fields "freshness").all (Py.isText "healthy")

def complete (actual : Py) (key : String) : Except String Bool := do
  let found ← data actual key
  let fields ← entries actual
  if found.isEmpty then pure false
  else
    match Py.find fields "_sources" with
    | none => pure (usable found)
    | some sources =>
      match (sources.asDict.bind fun sources => (Py.get sources key).asDict) with
      | none => pure false
      | some source =>
        pure ((Py.get source "ok").isTrue && usable found && usable source)

/-- `_name`: the text of a value that is one and not blank. -/
def name (value : Py) : Option String :=
  value.asStr.filter fun s => !(Text.strip s.toList).isEmpty

/-- A normalised edge. -/
structure Edge where
  source : String
  target : String
  fields : Fields

/-- The edge that an entry of the service map is, if both of its ends are named. -/
def edgeOf (value : Py) : Option Edge := do
  let fields ← value.asDict
  let source ← name (Py.get fields "from")
  let target ← name (Py.get fields "to")
  pure ⟨source, target, fields⟩

def edges (actual : Py) : Except String (List Edge × Bool) := do
  let service ← data actual "service_map"
  match Py.get service "edges" with
  | .list raw =>
    let edges := raw.filterMap edgeOf
    if !edges.isEmpty && edges.length == raw.length then
      pure (edges, ← complete actual "service_map")
    else pure (edges, false)
  | _ => pure ([], false)

/-! ## Verdicts -/

/-- A verdict. `passed` is empty where the evidence does not tell. -/
structure Verdict where
  id : Py
  kind : Py
  target : Py
  severity : Py
  passed : Option Bool
  observed : String

def verdict (v : Fields) (passed : Option Bool) (observed : String) : Verdict where
  id := Py.get v "id"
  kind := Py.get v "kind"
  target := Py.get v "target"
  severity := (Py.find v "severity").getD (.str "warning")
  passed := passed
  observed := observed

def unknown (v : Fields) (reason : String) : Verdict :=
  verdict v none ("unknown: " ++ reason)

/-- An integer that `math.isfinite` cannot convert to a float. -/
def tooLarge (n : Int) : Bool :=
  2 ^ 1024 - 2 ^ 970 ≤ n.natAbs

/-- `_number`, with the value of the number. -/
def number : Py → Except String (Option Rat)
  | .int n => if tooLarge n then .error "int too large to convert to float" else .ok (some n)
  | .float (.finite x) => .ok (some x)
  | _ => .ok none

/-- The rate of an edge that counts as measured: a rate between zero and one over some calls. -/
def measuredRate (edge : Edge) : Except String (Option Rat) := do
  match ← number (Py.get edge.fields "error_rate") with
  | none => pure none
  | some rate =>
    if 0 ≤ rate ∧ rate ≤ 1 then
      match ← number (Py.get edge.fields "calls") with
      | none => pure none
      | some calls => pure (if 0 < calls then some rate else none)
    else pure none

/-- The edges from one service to another. -/
def between (source target : String) (edges : List Edge) : List Edge :=
  edges.filter fun edge => edge.source == source && edge.target == target

/-- `0.05`. -/
def defaultThreshold : Rat :=
  3602879701896397 / 72057594037927936

variable (str : Py → String)

def privateOnly (v : Fields) (target : String) (actual : Py) : Except String Verdict := do
  let (found, whole) ← edges actual
  let bad := between "internet" target found
  if bad.isEmpty && (!whole || !found.any fun edge => edge.target == target) then
    pure (unknown v "complete ingress evidence for target unavailable")
  else
    pure (verdict v (some bad.isEmpty)
      (if bad.isEmpty then "no internet ingress"
        else "internet→" ++ target ++ " edges: " ++ toString bad.length))

def forbiddenEdge (v : Fields) (f t : String) (actual : Py) : Except String Verdict := do
  let (found, whole) ← edges actual
  let hit := between f t found
  let names := found.flatMap fun edge => [edge.source, edge.target]
  if hit.isEmpty && (!whole || !names.contains f || !names.contains t) then
    pure (unknown v "complete edge evidence for endpoints unavailable")
  else
    pure (verdict v (some hit.isEmpty)
      (if hit.isEmpty then f ++ "→" ++ t ++ " absent (ok)"
        else "forbidden edge " ++ f ++ "→" ++ t ++ " present"))

def expectedEdge (v : Fields) (f t : String) (actual : Py) : Except String Verdict := do
  let (found, whole) ← edges actual
  if !whole then pure (unknown v "complete service map unavailable")
  else
    let hit := between f t found
    pure (verdict v (some !hit.isEmpty)
      (if hit.isEmpty then "MISSING expected edge " ++ f ++ "→" ++ t
        else "expected edge " ++ f ++ "→" ++ t ++ " present"))

/-- The threshold of an error rate. -/
def threshold (params : Fields) : Except String (Option Rat) :=
  match Py.find params "threshold" with
  | none => .ok (some defaultThreshold)
  | some value => do
      match ← number value with
      | none => pure none
      | some thr => pure (if 0 ≤ thr ∧ thr ≤ 1 then some thr else none)

def thresholdText (params : Fields) : String :=
  str ((Py.find params "threshold").getD (.float (.finite defaultThreshold)))

def maxErrorRate (v params : Fields) (f t : String) (actual : Py) : Except String Verdict := do
  match ← threshold params with
  | none => pure (unknown v "invalid error-rate threshold")
  | some thr =>
    let (found, whole) ← edges actual
    let matched := between f t found
    let rates ← matched.mapM measuredRate
    let measured := (matched.zip rates).filter fun p => p.2.isSome
    let above := measured.filter fun p => p.2.any (thr < ·)
    if above.isEmpty && (!whole || measured.isEmpty || measured.length != matched.length) then
      pure (unknown v "complete error-rate observations unavailable")
    else
      pure (verdict v (some above.isEmpty)
        (match above with
          | [] => "under " ++ thresholdText str params
          | p :: _ => f ++ "→" ++ t ++ " error_rate " ++ str (Py.get p.1.fields "error_rate") ++
              " > " ++ thresholdText str params))

def encryptionRequired (v : Fields) (target : String) (actual : Py) : Except String Verdict := do
  let inventory ← data actual "inventory"
  match (Py.get inventory "unencrypted").asDict.map fun counts => Py.get counts target with
  | some (.int unenc) =>
    if unenc < 0 then
      pure (unknown v "explicit encryption aggregate for target unavailable")
    else if unenc == 0 && !(← complete actual "inventory") then
      pure (unknown v "complete encryption evidence unavailable")
    else
      pure (verdict v (some (unenc == 0))
        (if unenc == 0 then "all " ++ target ++ " encrypted"
          else toString unenc ++ " unencrypted " ++ target))
  | _ => pure (unknown v "explicit encryption aggregate for target unavailable")

/-- The kinds of invariants, by their evaluators. -/
inductive Kind
  | privateOnly
  | forbiddenEdge
  | expectedEdge
  | maxErrorRate
  | encryptionRequired
  deriving DecidableEq

def evaluators : List (String × Kind) :=
  [("private_only", .privateOnly), ("no_public_ingress", .privateOnly),
    ("forbidden_edge", .forbiddenEdge), ("expected_edge", .expectedEdge),
    ("max_error_rate", .maxErrorRate), ("encryption_required", .encryptionRequired)]

/-- The kind of an invariant, if it has an evaluator. -/
def kindOf (v : Fields) : Option Kind :=
  (Py.get v "kind").asStr.bind fun kind => (evaluators.find? fun p => p.1 == kind).map Prod.snd

/-- An evaluator of an invariant about a target. -/
def withTarget (v : Fields) (evaluate : String → Except String Verdict) : Except String Verdict :=
  match name (Py.get v "target") with
  | some target => evaluate target
  | none => pure (unknown v "missing target")

/-- An evaluator of an invariant about an edge. -/
def withEnds (v : Fields) (evaluate : Fields → String → String → Except String Verdict) :
    Except String Verdict := do
  let params ← entries (← item v "params")
  match name (Py.get params "from"), name (Py.get params "to") with
  | some f, some t => evaluate params f t
  | _, _ => pure (unknown v "missing edge endpoints")

/-- What `evaluate_all` tries for an invariant with an evaluator. -/
def evaluate (v : Fields) (actual : Py) : Kind → Except String Verdict
  | .privateOnly => withTarget v fun target => privateOnly v target actual
  | .encryptionRequired => withTarget v fun target => encryptionRequired v target actual
  | .forbiddenEdge => withEnds v fun _ f t => forbiddenEdge v f t actual
  | .expectedEdge => withEnds v fun _ f t => expectedEdge v f t actual
  | .maxErrorRate => withEnds v fun params f t => maxErrorRate str v params f t actual

/-- One turn of `evaluate_all`. -/
def evaluateOne (actual invariant : Py) : Except String Verdict :=
  match invariant with
  | .dict v =>
    match kindOf v with
    | none => pure (verdict v none ("unsupported kind: " ++ str (Py.get v "kind")))
    | some kind =>
      tryCatch (evaluate str v actual kind) fun e => pure (unknown v ("eval error: " ++ e))
  | _ => pure (unknown [] "malformed invariant")

def evaluateAll (invariants : List Py) (actual : Py) : Except String (List Verdict) :=
  invariants.mapM (evaluateOne str actual)

end AwsOps.Diagnosis

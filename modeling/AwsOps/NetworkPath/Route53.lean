import Mathlib.Data.List.DropRight
import Mathlib.Data.List.Sort
import AwsOps.Foundation.Chains
import AwsOps.Foundation.DnsNames
import AwsOps.NetworkPath.Adapter

/-!
# Route 53 resolution

The adapter for name resolution over the records of a hosted zone: the delegation check over the
name and all its ancestors, the exact match, the wildcard of the closest encloser, and the chain of
pointers to the set of records that answers. The loop over the chain takes fuel.
-/

namespace AwsOps.NetworkPath

open DnsNames (Name ancestors strictAncestors)

/-- One record. A name or a type that is no text stands for its `str`, and an absent one is
`none`; an alias target and a health check may be absent. -/
structure R53Record where
  name : Option String
  type : Option String
  aliasTarget : Option String
  healthCheckStatus : Option String
  deriving DecidableEq

/-- `text.rstrip(".").lower()`. -/
def normalizeName (U : Text.Unicode) (text : String) : Name :=
  U.lower (text.toList.rdropWhile (· == '.'))

def R53Record.owner (U : Text.Unicode) (r : R53Record) : Name :=
  normalizeName U (r.name.getD "")

/-- `str(r.get("type", "")).upper()`. -/
def R53Record.upperType (U : Text.Unicode) (r : R53Record) : String :=
  Text.upper U (r.type.getD "")

/-- A CNAME or an ALIAS. -/
def R53Record.isPointer (U : Text.Unicode) (r : R53Record) : Bool :=
  ["CNAME", "ALIAS"].contains (r.upperType U)

/-- The name that a pointer leads to; an empty target is none. -/
def R53Record.target (U : Text.Unicode) (r : R53Record) : Option Name :=
  (present r.aliasTarget).map (normalizeName U)

def r53AddressTypes : List String :=
  ["A", "AAAA", "ALIAS"]

section Zone

variable (U : Text.Unicode) (records : List R53Record)

/-- `by_name.get(name, [])`. -/
def byName (name : Name) : List R53Record :=
  records.filter fun r => r.owner U == name

/-- `name in by_name`. -/
def hasName (name : Name) : Bool :=
  !(byName U records name).isEmpty

/-- `name in _existing_nodes`. -/
def existsNode (name : Name) : Bool :=
  records.any fun r => (ancestors (r.owner U)).contains name

/-- An NS record without an SOA record at a name. -/
def isCut (name : Name) : Bool :=
  let types := (byName U records name).map (R53Record.upperType U)
  types.contains "NS" && !types.contains "SOA"

/-- Why a lookup gives nothing: a delegation at a name, or no record. -/
inductive Miss where
  | delegated (point : Name)
  | absent
  deriving DecidableEq

def rowsOf (name : Name) : Except Miss (List R53Record) :=
  if hasName U records name then .ok (byName U records name) else .error .absent

/-- `"*." + name`. -/
def wildcardOf (name : Name) : Name :=
  "*.".toList ++ name

/-- `_find`. -/
def findName (name : Name) : Except Miss (List R53Record) :=
  match (ancestors name).find? (isCut U records) with
  | some point => .error (.delegated point)
  | none =>
    if hasName U records name then .ok (byName U records name)
    else if existsNode U records name then .error .absent
    else
      match (strictAncestors name).find? (existsNode U records) with
      | none => .error .absent
      | some closestEncloser => rowsOf U records (wildcardOf closestEncloser)

def delegationCheckArmed : Bool :=
  records.any fun r => r.upperType U == "SOA"

/-- `repr` of a name. -/
def reprName (name : Name) : String :=
  Text.repr U (String.ofList name)

def delegationSummary (queried point : Name) : String :=
  let subject :=
    if point = queried then s!"{reprName U queried} is itself" else reprName U point
  let reason :=
    if delegationCheckArmed U records then
      s!"{subject} an NS RRset with no SOA — a real delegation cut"
    else
      s!"{subject} an NS RRset with no SOA, and this payload contains no SOA row at all — " ++
        "cannot distinguish a real delegation cut from a zone apex whose own SOA this payload " ++
        "simply never included"
  s!"Route 53 resolution for {reprName U queried} cannot be confidently determined: {reason}; " ++
    "the real answer may live in a child zone this evaluator has no data for, not a confirmed " ++
    "NXDOMAIN"

def multiPointerAmbiguous (rows : List R53Record) : Bool :=
  rows.length > 1 && rows.any (R53Record.isPointer U)

/-- The target of a single pointer. -/
def pointerOf : List R53Record → Option Name
  | [r] => if r.isPointer U then r.target U else none
  | _ => none

/-- A single pointer without a target. -/
def isDangling : List R53Record → Bool
  | [r] => r.isPointer U && (r.target U).isNone
  | _ => false

/-- `sorted({str(r.get('type')) for r in matched})` as a text. -/
def reprTypes (rows : List R53Record) : String :=
  let types := (rows.map fun r => Text.strOf r.type).dedup.insertionSort (· ≤ ·)
  "[" ++ String.intercalate ", " (types.map (Text.repr U)) ++ "]"

/-- The verdict on the records that the chain ends at. -/
def judgeRows (host : Name) (rows : List R53Record) : AdapterResult R53Record :=
  let resource := some (String.ofList host)
  if isDangling U rows then
    { layer := "dns", status := .unknown, resource,
      summary := s!"Route 53 record for {reprName U host} is a CNAME/ALIAS with no target data " ++
        "at all — its own resolvability cannot be confirmed",
      evidence := rows }
  else
    let nonAddress := rows.filter fun r => !r53AddressTypes.contains (r.upperType U)
    if !nonAddress.isEmpty && nonAddress.length == rows.length then
      { layer := "dns", status := .unknown, resource,
        summary := s!"Route 53 record(s) for {reprName U host} are type {reprTypes U rows} — not " ++
          "an address-resolving type (A/AAAA/ALIAS), so this proves nothing about actual " ++
          "resolution",
        evidence := rows }
    else
      let unhealthy := rows.filter fun r => r.healthCheckStatus == some "unhealthy"
      let healthyOrUnchecked := rows.filter fun r => r.healthCheckStatus != some "unhealthy"
      if !unhealthy.isEmpty && healthyOrUnchecked.isEmpty then
        { layer := "dns", status := .unknown, resource,
          summary := s!"Route 53 record(s) for {reprName U host} all report an unhealthy health " ++
            "check — Route 53's documented behavior in this case is to fail OPEN (answer as if " ++
            "healthy) rather than NXDOMAIN, and this module does not model routing policy " ++
            "(failover/weighted/latency), so the real outcome cannot be confidently determined " ++
            "from health-check status alone",
          evidence := rows }
      else if !unhealthy.isEmpty && !healthyOrUnchecked.isEmpty then
        { layer := "dns", status := .conditional, resource,
          summary := s!"Route 53 has both healthy and unhealthy record(s) for {reprName U host} " ++
            "(e.g. a failover/weighted set) — which one actually answers a given query is not " ++
            "resolved from zone data alone",
          evidence := rows }
      else
        { layer := "dns", status := .allowed, resource,
          summary := s!"Route 53 resolves {reprName U host}",
          evidence := rows }

/-- The verdict on how the chain ends. -/
def judgeEnding (host : Name) (rows : List R53Record) :
    Chains.Ending Name Miss → AdapterResult R53Record
  | .lost target (.delegated point) =>
    { layer := "dns", status := .unknown, resource := some (String.ofList host),
      summary := s!"Route 53 CNAME chain for {reprName U host} terminates at " ++
        s!"{reprName U target}: {delegationSummary U records target point}",
      evidence := rows }
  | ending =>
    if multiPointerAmbiguous U rows then
      { layer := "dns", status := .unknown, resource := some (String.ofList host),
        summary := s!"Route 53 CNAME/ALIAS chain for {reprName U host} terminates at multiple " ++
          "records including a CNAME/ALIAS pointer (a weighted/failover/latency " ++
          "routing-policy set) — which one answers, and whether its own target resolves, is " ++
          "not determinable from zone data alone",
        evidence := rows }
    else
      match ending with
      | .cycle =>
        { layer := "dns", status := .unknown, resource := some (String.ofList host),
          summary := s!"Route 53 CNAME chain for {reprName U host} forms a cycle — cannot " ++
            "confidently resolve this record",
          evidence := rows }
      | .lost target _ =>
        { layer := "dns", status := .unknown, resource := some (String.ofList host),
          summary := s!"Route 53 CNAME chain for {reprName U host} terminates at " ++
            s!"{reprName U target}, which is not in the fetched zone data — its own " ++
            "resolvability cannot be confirmed from this zone alone",
          evidence := rows }
      | .arrived => judgeRows U host rows

/-- `eval_route53_resolution`. It gives nothing when the fuel for the chain does not suffice. -/
def evalRoute53Resolution (fuel : Nat) (queryHost : Option String) (dataAvailable : Bool) :
    Option (AdapterResult R53Record) :=
  if !dataAvailable then
    some
      { layer := "dns", status := .unknown, resource := none,
        summary := "Route 53 record data was not fetched for this hosted zone — cannot evaluate " ++
          "(missing data, not a confirmed absence of a record)",
        evidence := [] }
  else
    let host := normalizeName U (queryHost.getD "")
    if host.isEmpty then
      some
        { layer := "dns", status := .unknown, resource := none,
          summary := "no query host supplied; cannot evaluate Route 53 resolution",
          evidence := [] }
    else
      match findName U records host with
      | .error (.delegated point) =>
        some
          { layer := "dns", status := .unknown, resource := none,
            summary := delegationSummary U records host point, evidence := [] }
      | .error .absent =>
        some
          { layer := "dns", status := .blocked, resource := none,
            summary := s!"no Route 53 record resolves {reprName U host} (NXDOMAIN against " ++
              "known zone data)",
            evidence := [] }
      | .ok matched =>
        if multiPointerAmbiguous U matched then
          some
            { layer := "dns", status := .unknown, resource := some (String.ofList host),
              summary := s!"Route 53 has multiple records for {reprName U host} including a " ++
                "CNAME/ALIAS pointer (a weighted/failover/latency routing-policy set) — which " ++
                "one answers a given query, and whether the pointer's own target resolves, is " ++
                "not determinable from zone data without routing-policy modeling",
              evidence := matched }
        else
          (Chains.follow (pointerOf U) (findName U records) fuel [host] matched).map
            fun (rows, ending) => judgeEnding U records host rows ending

end Zone

end AwsOps.NetworkPath

import AwsOps.NetworkPath.KubernetesPolicy
import Mathlib.Data.Rat.Defs

/-!
# Calico network policies

The Calico adapter: the selector language, the match of one rule against the peer, and the
verdict over the rules of the selecting policies. A rule that the adapter cannot decide stays
open. The adapter does not order the policies; `entries_allowed_iff` and `entries_blocked_iff`
say which rules lead to a definite verdict, and the results about orders and about missing data
are read off them.
-/

namespace AwsOps.NetworkPath

open AwsOps.Kleene

/-- The operators of a selector term. -/
inductive CalicoOp where
  | eq
  | ne
  | isIn
  | notIn
  deriving DecidableEq

/-- A character of a label key. -/
def isKeyChar (U : Text.Unicode) (c : Char) : Bool :=
  Text.isWord U c || c == '.' || c == '/' || c == '-'

/-- The operator at the start of the text, and the text after it. -/
def parseCalicoOp : List Char → Option (CalicoOp × List Char)
  | '=' :: '=' :: rest => some (.eq, rest)
  | '!' :: '=' :: rest => some (.ne, rest)
  | 'i' :: 'n' :: rest => some (.isIn, rest)
  | 'n' :: 'o' :: 't' :: rest =>
    match rest.takeWhile Text.isSpace, rest.dropWhile Text.isSpace with
    | _ :: _, 'i' :: 'n' :: rest => some (.notIn, rest)
    | _, _ => none
  | _ => none

/-- What follows the key of a term: an operator and a value, which has no line break. -/
def parseCalicoTail (s : List Char) : Option (CalicoOp × List Char) := do
  let (op, rest) ← parseCalicoOp (s.dropWhile Text.isSpace)
  let value := Text.strip rest
  if value.isEmpty || value.contains '\n' then none else some (op, value)

/-- Parse a term whose key has at most this many characters, preferring the longest key. -/
def parseCalicoTermUpTo (term : List Char) : Nat → Option (List Char × CalicoOp × List Char)
  | 0 => none
  | n + 1 =>
    match parseCalicoTail (term.drop (n + 1)) with
    | some (op, value) => some (term.take (n + 1), op, value)
    | none => parseCalicoTermUpTo term n

/-- One term of a selector: a key, an operator and a value. The regular expression takes the
longest key that leaves a match. -/
def parseCalicoTerm (U : Text.Unicode) (term : List Char) :
    Option (List Char × CalicoOp × List Char) :=
  parseCalicoTermUpTo term (term.takeWhile (isKeyChar U)).length

/-- Remove the quotes around a value. -/
def stripQuotes (s : List Char) : String :=
  String.ofList (Text.stripBy (fun c => c == '\'' || c == '"') s)

/-- The values of a set literal. -/
def parseCalicoValueList (raw : List Char) : List String :=
  let raw := Text.strip raw
  let raw := if raw.head? == some '{' && raw.getLast? == some '}' then raw.tail.dropLast else raw
  ((Text.split [','] raw).filter fun v => !(Text.strip v).isEmpty).map
    fun v => stripQuotes (Text.strip v)

def calicoTermHolds (labels : Labels) (key : List Char) (op : CalicoOp) (value : List Char) :
    Bool :=
  let actual := labels.lookup (String.ofList key)
  match op with
  | .eq => actual == some (stripQuotes value)
  | .ne => actual != some (stripQuotes value)
  | .isIn => actual.any (· ∈ parseCalicoValueList value)
  | .notIn => !actual.any (· ∈ parseCalicoValueList value)

/-- The conjunction of the terms, from the left: a term that fails decides it before a later term
that does not parse. -/
def calicoTermsMatch (U : Text.Unicode) (labels : Labels) : List (List Char) → Option Bool
  | [] => some true
  | term :: rest =>
    match parseCalicoTerm U term with
    | none => none
    | some (key, op, value) =>
      if calicoTermHolds labels key op value then calicoTermsMatch U labels rest
      else some false

/-- Evaluate a label selector; `none` when the labels are missing or the selector is outside the
supported subset. -/
def calicoSelectorMatches (U : Text.Unicode) (selector : Option String)
    (labels : Option Labels) : Option Bool :=
  let selector := Text.strip (selector.getD "").toList
  if selector.isEmpty || selector == "all()".toList then some true
  else
    match labels with
    | none => none
    | some labels =>
      if Text.contains "||".toList selector || Text.contains "has(".toList selector
          || (Text.erase "all()".toList selector).contains '(' then none
      else calicoTermsMatch U labels ((Text.split "&&".toList selector).map Text.strip)

/-- One entry of the `ports` of an entity: an entry in the form of core policies, or a number, a
name or a range. -/
inductive CalicoPort where
  | structured (entry : PortEntry)
  | scalar (port : PortRef)
  deriving DecidableEq

/-- The source or the destination of a rule. An absent entity is the empty one. -/
structure CalicoEntity where
  nets : List String
  selector : Option String
  namespaceSelector : Option String
  notNets : List String
  notSelector : Option String
  ports : List CalicoPort
  notPorts : List CalicoPort
  otherKeys : List String
  deriving DecidableEq

/-- An entity without constraints. -/
def CalicoEntity.empty : CalicoEntity :=
  ⟨[], none, none, [], none, [], [], []⟩

/-- One rule of a policy, with the keys that the adapter does not read. -/
structure CalicoRule where
  action : Option String
  protocol : Option PortRef
  notProtocol : Option PortRef
  ipVersion : Option Int
  source : CalicoEntity
  destination : CalicoEntity
  otherKeys : List String
  deriving DecidableEq

/-- A policy. A rule list is `some` when its key is there. -/
structure CalicoPolicy where
  selector : Option String
  types : List String
  ingress : Option (List CalicoRule)
  egress : Option (List CalicoRule)
  order : Option Rat
  otherKeys : List String

/-- The policy keys that the adapter knows. -/
def modeledPolicyKeys : List String :=
  ["selector", "types", "ingress", "egress", "order"]

/-- The rule keys that the adapter knows. -/
def modeledRuleKeys : List String :=
  ["action", "protocol", "notProtocol", "ipVersion", "source", "destination", "metadata"]

/-- The entity keys that the adapter knows. -/
def modeledEntityKeys : List String :=
  ["nets", "selector", "namespaceSelector", "notNets", "notSelector", "ports", "notPorts"]

/-- Some key is outside the ones that the adapter knows. -/
def hasUnmodeledKey (modeled keys : List String) : Bool :=
  keys.any (· ∉ modeled)

def calicoPolicyTypeApplies (U : Text.Unicode) (policy : CalicoPolicy) (direction : Direction) :
    Bool :=
  if !policy.types.isEmpty then decide (direction.key ∈ policy.types.map (Text.lower U))
  else
    match direction with
    | .ingress => !(policy.egress.isSome && policy.ingress.isNone)
    | .egress => policy.egress.isSome

def CalicoPolicy.rules (policy : CalicoPolicy) : Direction → List CalicoRule
  | .ingress => policy.ingress.getD []
  | .egress => policy.egress.getD []

/-- A port of an entity in the form of core policies: a `lo:hi` text of two numbers is a range. -/
def CalicoPort.normalize (U : Text.Unicode) : CalicoPort → PortEntry
  | .structured entry => entry
  | .scalar (.num n) => ⟨none, some (.num n), none⟩
  | .scalar (.name s) =>
    let lo := s.toList.takeWhile (· ≠ ':')
    let hi := s.toList.drop (lo.length + 1)
    if ':' ∈ s.toList then
      match Text.int U lo, Text.int U hi with
      | some lo, some hi => ⟨none, some (.num lo), some (.num hi)⟩
      | _, _ => ⟨none, some (.name s), none⟩
    else ⟨none, some (.name s), none⟩

/-- The protocol numbers that the adapter distinguishes. -/
def calicoProtocolNumbers : List (Int × String) :=
  [(1, "ICMP"), (6, "TCP"), (17, "UDP"), (58, "ICMPV6"), (132, "SCTP")]

/-- The upper-case name of a protocol, or nothing for an unknown number. A text of digits that
`int` does not take raises. -/
def calicoProtocolName (U : Text.Unicode) : Option PortRef → Except String (Option String)
  | none => .ok none
  | some (.num n) => .ok (calicoProtocolNumbers.lookup n)
  | some (.name s) =>
    if !s.toList.isEmpty && s.toList.all U.isDigit then
      match Text.int U s.toList with
      | some n => .ok (calicoProtocolNumbers.lookup n)
      | none => .error s!"invalid literal for int() with base 10: '{s}'"
    else .ok (some (Text.upper U s))

/-- A field counts as set when its value is neither empty nor zero. -/
def PortRef.truthy : PortRef → Bool
  | .num n => n != 0
  | .name s => s != ""

def CalicoRule.peer (rule : CalicoRule) : Direction → CalicoEntity
  | .ingress => rule.source
  | .egress => rule.destination

/-- The entity that describes the selected workload itself. -/
def CalicoRule.opposite (rule : CalicoRule) : Direction → CalicoEntity
  | .ingress => rule.destination
  | .egress => rule.source

/-- The rule uses a field or a negation that the adapter does not evaluate. -/
def CalicoRule.unmodeled (rule : CalicoRule) (direction : Direction) : Bool :=
  let peer := rule.peer direction
  let opposite := rule.opposite direction
  (hasUnmodeledKey modeledRuleKeys rule.otherKeys
      || hasUnmodeledKey modeledEntityKeys rule.source.otherKeys
      || hasUnmodeledKey modeledEntityKeys rule.destination.otherKeys)
    || (rule.notProtocol.any PortRef.truthy || rule.ipVersion.isSome
      || !rule.destination.notPorts.isEmpty || (present peer.notSelector).isSome
      || !peer.notNets.isEmpty)
    || (!opposite.nets.isEmpty || (present opposite.selector).isSome
      || (present opposite.namespaceSelector).isSome || (present opposite.notSelector).isSome
      || !opposite.notNets.isEmpty)
    || (!rule.source.ports.isEmpty || !rule.source.notPorts.isEmpty)

/-- A selector of an entity against labels that may be missing. -/
def entitySelectorMatches (U : Text.Unicode) (selector : Option String)
    (labels : Option Labels) : Option Bool :=
  match present selector with
  | none => some true
  | some selector =>
    match labels with
    | none => none
    | some labels => calicoSelectorMatches U (some selector) (some labels)

/-- The address blocks of an entity against the peer address. -/
def netsMatch (nets : List String) (peerIp : Option String) : Option Bool :=
  if nets.isEmpty then some true
  else (usableIp peerIp).map fun ip => nets.any fun net => cidrContains (some net) (some ip)

/-- The ports of the rule's destination against the requested port. -/
def calicoPortMatches (U : Text.Unicode) (rule : CalicoRule) (port : Option PortRef) :
    Option Bool :=
  k8sPortMatches U (rule.destination.ports.map (CalicoPort.normalize U)) none port

/-- The constraints of the peer entity, in the order in which the adapter tries them. -/
def calicoEntityMatch (U : Text.Unicode) (peer : CalicoEntity) (data : PeerData)
    (portMatch : Option Bool) : Option Bool :=
  both (entitySelectorMatches U peer.namespaceSelector data.peerNamespaceLabels)
    (both (entitySelectorMatches U peer.selector data.peerLabels)
      (both (netsMatch peer.nets data.peerIp) portMatch))

/-- Whether the rule matches the peer, the protocol and the port. -/
def calicoRulePeerMatch (U : Text.Unicode) (direction : Direction) (data : PeerData)
    (protocol : Option String) (port : Option PortRef) (rule : CalicoRule) :
    Except String (Option Bool) := do
  if rule.unmodeled direction then pure none
  else
    let name ← calicoProtocolName U rule.protocol
    if rule.protocol.isSome && name.isNone then pure none
    else if name.isSome && protocol.isSome && name != some (Text.upper U (Text.strOf protocol))
    then pure (some false)
    else
      let portMatch := calicoPortMatches U rule port
      if portMatch = some false then pure (some false)
      else pure (calicoEntityMatch U (rule.peer direction) data portMatch)

/-- The actions of a rule. -/
inductive CalicoAction where
  | allow
  | deny
  | log
  | pass
  deriving DecidableEq

/-- The action of a rule, or `none` when it is absent or not recognized. -/
def CalicoRule.recognizedAction (U : Text.Unicode) (rule : CalicoRule) : Option CalicoAction :=
  match rule.action.map (Text.lower U) with
  | some "allow" => some .allow
  | some "deny" => some .deny
  | some "log" => some .log
  | some "pass" => some .pass
  | _ => none

/-- What the scan of the rules remembers. -/
structure CalicoScan where
  sawUnresolvable : Bool
  sawDenyOrPassConflict : Bool
  sawPassConflict : Bool
  sawUnresolvableAction : Bool
  matchedAllowRule : Option CalicoRule

/-- The scan before the first rule. -/
def CalicoScan.start : CalicoScan :=
  ⟨false, false, false, false, none⟩

def CalicoScan.step (U : Text.Unicode) (scan : CalicoScan)
    (entry : CalicoRule × Option Bool) : CalicoScan :=
  let (rule, isMatch) := entry
  match rule.recognizedAction U with
  | none => if isMatch ≠ some false then { scan with sawUnresolvableAction := true } else scan
  | some .allow =>
    match isMatch with
    | some false => scan
    | none => { scan with sawUnresolvable := true }
    | some true => { scan with matchedAllowRule := scan.matchedAllowRule.or (some rule) }
  | some action =>
    if isMatch ≠ some false then
      { scan with
        sawDenyOrPassConflict := true
        sawPassConflict := scan.sawPassConflict || action == .pass }
    else scan

/-- The result that a completed scan leads to. -/
def CalicoScan.result (scan : CalicoScan) (layer : String) : AdapterResult CalicoRule :=
  match scan.matchedAllowRule with
  | some rule =>
    if scan.sawDenyOrPassConflict || scan.sawUnresolvableAction then
      { layer, status := .unknown, resource := none,
        summary := "an Allow rule matches this peer, but a Deny/Pass rule (or a rule whose " ++
          "`action` is absent or unrecognized, which this adapter cannot assume is an Allow) " ++
          "that also matches (or might match) it exists — Calico's real precedence between " ++
          "them depends on policy/rule `order`, which this adapter does not model",
        evidence := [rule] }
    else
      { layer, status := .allowed, resource := none,
        summary := "matched Calico rule peer", evidence := [rule] }
  | none =>
    if scan.sawUnresolvable || scan.sawPassConflict || scan.sawUnresolvableAction then
      { layer, status := .unknown, resource := none,
        summary := "a candidate Calico rule could not be confidently evaluated due to " ++
          "missing peer data, an unmodeled negation field, a matching `Pass` rule (which " ++
          "delegates to the next tier/profile), a rule whose `action` field is absent or " ++
          "unrecognized, or a selector construct this adapter cannot parse",
        evidence := [] }
    else
      { layer, status := .blocked, resource := none,
        summary := "pod is selected by >=1 Calico NetworkPolicy for this direction; no Allow " ++
          "rule matched the peer",
        evidence := [] }

/-- Why the selection of policies could not be decided. -/
inductive SelectionGap where
  | unmodeledField
  | selector
  deriving DecidableEq

def CalicoPolicy.selects (U : Text.Unicode) (podLabels : Option Labels) (direction : Direction)
    (policy : CalicoPolicy) : Except SelectionGap Bool :=
  if hasUnmodeledKey modeledPolicyKeys policy.otherKeys then .error .unmodeledField
  else
    match calicoSelectorMatches U policy.selector podLabels with
    | none => .error .selector
    | some isMatch => .ok (isMatch && calicoPolicyTypeApplies U policy direction)

/-- The policies that select the pod, or the gap of the first one that cannot be decided. -/
def selectCalicoPolicies (U : Text.Unicode) (podLabels : Option Labels) (direction : Direction) :
    List CalicoPolicy → Except SelectionGap (List CalicoPolicy)
  | [] => .ok []
  | policy :: rest => do
      let selected ← policy.selects U podLabels direction
      let selecting ← selectCalicoPolicies U podLabels direction rest
      pure (if selected then policy :: selecting else selecting)

/-- The result of a selection that could not be decided. -/
def SelectionGap.result (layer : String) : SelectionGap → AdapterResult CalicoRule
  | .unmodeledField =>
    { layer, status := .unknown, resource := none,
      summary := "a Calico policy uses a spec field this adapter does not model (e.g. " ++
        "serviceAccountSelector/preDNAT/applyOnForward/doNotTrack) — whether/how it governs " ++
        "this pod cannot be confidently determined",
      evidence := [] }
  | .selector =>
    { layer, status := .unknown, resource := none,
      summary := "a Calico policy's own selector uses a construct this adapter cannot " ++
        "confidently evaluate (supported subset: '', 'all()', or a flat && chain of " ++
        "==/!=/in/not-in terms)",
      evidence := [] }

/-- The rules of the selecting policies for the direction, in order. -/
def governingRules (direction : Direction) (selecting : List CalicoPolicy) : List CalicoRule :=
  selecting.flatMap (·.rules direction)

def matchRules (matchRule : CalicoRule → Except String (Option Bool)) :
    List CalicoRule → Except String (List (CalicoRule × Option Bool))
  | [] => .ok []
  | rule :: rest => do
      let isMatch ← matchRule rule
      let entries ← matchRules matchRule rest
      pure ((rule, isMatch) :: entries)

/-- The apiVersion that the adapter evaluates. -/
def supportedCalicoVersion : String := "projectcalico.org/v3"

/-- What the adapter knows of the cluster besides the policies. -/
structure CalicoSource where
  crdPresent : Bool
  observedApiVersion : Option String
  dataAvailable : Bool

/-- The result when the adapter has nothing to evaluate: no CRD, another version of it, or policies
that were not fetched. -/
def CalicoSource.gap (source : CalicoSource) (layer : String) :
    Option (AdapterResult CalicoRule) :=
  let unknown (summary : String) : AdapterResult CalicoRule :=
    { layer, status := .unknown, resource := none, summary, evidence := [] }
  if !source.crdPresent then some (unknown "calico CRD not installed in this cluster")
  else if source.observedApiVersion ≠ some supportedCalicoVersion then
    some (unknown ("unsupported calico apiVersion " ++ Text.reprOf source.observedApiVersion))
  else if !source.dataAvailable then
    some (unknown ("Calico NetworkPolicy data was not fetched for this pod/namespace — " ++
      "cannot evaluate (missing data, not a confirmed absence of policy)"))
  else none

def evalCalicoPolicy (U : Text.Unicode) (policies : List CalicoPolicy)
    (podLabels : Option Labels) (direction : Direction) (source : CalicoSource)
    (data : PeerData) (protocol : Option String) (port : Option PortRef) :
    Except String (AdapterResult CalicoRule) :=
  let layer := "k8s-calico"
  match source.gap layer with
  | some result => pure result
  | none =>
    match selectCalicoPolicies U podLabels direction policies with
    | .error gap => pure (gap.result layer)
    | .ok [] =>
      pure
        { layer, status := .allowed, resource := none,
          summary := "no Calico NetworkPolicy selects this pod for this direction " ++
            "(default allow)",
          evidence := [] }
    | .ok selecting => do
        let entries ← matchRules (calicoRulePeerMatch U direction data protocol port)
          (governingRules direction selecting)
        pure ((entries.foldl (CalicoScan.step U) .start).result layer)

/-- A conflicting rule has been seen. -/
def CalicoScan.vetoed (scan : CalicoScan) : Bool :=
  scan.sawDenyOrPassConflict || scan.sawUnresolvableAction

/-- A rule that leaves the denial open has been seen. -/
def CalicoScan.unsettled (scan : CalicoScan) : Bool :=
  scan.sawUnresolvable || scan.sawPassConflict || scan.sawUnresolvableAction

variable (U : Text.Unicode)

def allowHit (entry : CalicoRule × Option Bool) : Bool :=
  entry.1.recognizedAction U == some .allow && entry.2 == some true

/-- The rule does something other than allow, and may match. -/
def vetoes (entry : CalicoRule × Option Bool) : Bool :=
  entry.1.recognizedAction U != some .allow && entry.2 != some false

/-- The rule may allow, or delegate, and is not known to match. -/
def unsettles (entry : CalicoRule × Option Bool) : Bool :=
  (entry.1.recognizedAction U == some .allow && entry.2 == none) ||
    ((entry.1.recognizedAction U == none || entry.1.recognizedAction U == some .pass) &&
      entry.2 != some false)

theorem step_flags (scan : CalicoScan) (entry : CalicoRule × Option Bool) :
    (scan.step U entry).matchedAllowRule.isSome =
        (scan.matchedAllowRule.isSome || allowHit U entry) ∧
      (scan.step U entry).vetoed = (scan.vetoed || vetoes U entry) ∧
      (scan.step U entry).unsettled = (scan.unsettled || unsettles U entry) := by
  obtain ⟨rule, isMatch⟩ := entry
  simp only [CalicoScan.step, allowHit, vetoes, unsettles, CalicoScan.vetoed, CalicoScan.unsettled]
  cases haction : rule.recognizedAction U with
  | none => by_cases hm : isMatch = some false <;> simp [hm]
  | some action =>
    by_cases hallow : action = .allow
    · subst hallow
      match isMatch with
      | none => simp
      | some false => simp
      | some true => cases scan.matchedAllowRule <;> simp
    · have hother : ∀ a, (some action == some a) = (action == a) := fun a => by simp
      by_cases hm : isMatch = some false
      · cases action <;> first | exact absurd rfl hallow | simp [hm]
      · cases action with
        | allow => exact absurd rfl hallow
        | deny => simp [hm, show (CalicoAction.deny == .pass) = false from rfl,
            show (CalicoAction.deny == .allow) = false from rfl]
        | log => simp [hm, show (CalicoAction.log == .pass) = false from rfl,
            show (CalicoAction.log == .allow) = false from rfl]
        | pass => simp [hm]

/-- The status that a scan of these entries leads to. -/
def entriesStatus (entries : List (CalicoRule × Option Bool)) : LayerStatus :=
  if entries.any (allowHit U) then if entries.any (vetoes U) then .unknown else .allowed
  else if entries.any (unsettles U) then .unknown
  else .blocked

theorem scan_status (entries : List (CalicoRule × Option Bool)) (layer : String) :
    ((entries.foldl (CalicoScan.step U) .start).result layer).status = entriesStatus U entries := by
  have hmatched := foldl_flag (fun s => s.matchedAllowRule.isSome)
    (fun s e => (step_flags U s e).1) entries CalicoScan.start
  have hvetoed := foldl_flag CalicoScan.vetoed (fun s e => (step_flags U s e).2.1) entries CalicoScan.start
  have hunsettled := foldl_flag CalicoScan.unsettled (fun s e => (step_flags U s e).2.2)
    entries CalicoScan.start
  generalize entries.foldl (CalicoScan.step U) .start = scan at hmatched hvetoed hunsettled ⊢
  simp only [CalicoScan.start, CalicoScan.vetoed, CalicoScan.unsettled, Option.isSome_none,
    Bool.or_false, Bool.false_or] at hmatched hvetoed hunsettled
  simp only [CalicoScan.result, entriesStatus, ← hmatched, ← hvetoed, ← hunsettled]
  cases scan.matchedAllowRule with
  | some rule => simp only [Option.isSome_some, if_true]; split <;> rfl
  | none => simp only [Option.isSome_none, Bool.false_eq_true, if_false]; split <;> rfl

/-- A scan ends allowed exactly when some rule is known to match and allow, and every other rule
allows or is known not to match. -/
theorem entries_allowed_iff (entries : List (CalicoRule × Option Bool)) :
    entriesStatus U entries = .allowed ↔
      entries.any (allowHit U) = true ∧ entries.any (vetoes U) = false := by
  simp only [entriesStatus]
  cases entries.any (allowHit U) <;> cases entries.any (vetoes U) <;>
    cases entries.any (unsettles U) <;> simp

theorem entries_blocked_iff (entries : List (CalicoRule × Option Bool)) :
    entriesStatus U entries = .blocked ↔
      entries.any (allowHit U) = false ∧ entries.any (unsettles U) = false := by
  simp only [entriesStatus]
  cases entries.any (allowHit U) <;> cases entries.any (vetoes U) <;>
    cases entries.any (unsettles U) <;> simp

def CalicoPolicy.isSelected (podLabels : Option Labels) (direction : Direction)
    (policy : CalicoPolicy) : Bool :=
  match policy.selects U podLabels direction with
  | .ok selected => selected
  | .error _ => false

variable {podLabels : Option Labels} {direction : Direction}

variable {policies : List CalicoPolicy} {source : CalicoSource} {data : PeerData}
  {protocol : Option String} {port : Option PortRef}

theorem select_calico_policies_ok_iff {selecting : List CalicoPolicy} :
    selectCalicoPolicies U podLabels direction policies = .ok selecting ↔
      (∀ policy ∈ policies, ∃ b, policy.selects U podLabels direction = .ok b) ∧
        selecting = policies.filter (·.isSelected U podLabels direction) := by
  induction policies generalizing selecting with
  | nil => simp [selectCalicoPolicies]
  | cons policy rest ih =>
    simp only [selectCalicoPolicies]
    cases hpolicy : policy.selects U podLabels direction with
    | error gap =>
      constructor
      · intro h
        cases h
      · rintro ⟨hall, -⟩
        obtain ⟨b, hb⟩ := hall policy List.mem_cons_self
        rw [hpolicy] at hb
        cases hb
    | ok selected =>
      have hselected : policy.isSelected U podLabels direction = selected := by
        simp [CalicoPolicy.isSelected, hpolicy]
      have hkeep : (policy :: rest).filter (·.isSelected U podLabels direction) =
          if selected then policy :: rest.filter (·.isSelected U podLabels direction)
          else rest.filter (·.isSelected U podLabels direction) := by
        rw [List.filter_cons, hselected]
      rw [hkeep, List.forall_mem_cons, hpolicy]
      cases hrest : selectCalicoPolicies U podLabels direction rest with
      | error gap =>
        constructor
        · intro h
          cases h
        · rintro ⟨⟨-, hall⟩, -⟩
          have hok := ih.mpr ⟨hall, rfl⟩
          rw [hrest] at hok
          cases hok
      | ok kept =>
        obtain ⟨hall, rfl⟩ := ih.mp hrest
        constructor
        · intro h
          cases h
          exact ⟨⟨⟨selected, rfl⟩, hall⟩, rfl⟩
        · rintro ⟨-, rfl⟩
          rfl

def IsEntry (matchRule : CalicoRule → Except String (Option Bool)) (rule : CalicoRule)
    (entry : CalicoRule × Option Bool) : Prop :=
  entry.1 = rule ∧ matchRule rule = .ok entry.2

theorem match_rules_ok_iff {matchRule : CalicoRule → Except String (Option Bool)}
    {rules : List CalicoRule} {entries : List (CalicoRule × Option Bool)} :
    matchRules matchRule rules = .ok entries ↔
      List.Forall₂ (IsEntry matchRule) rules entries := by
  induction rules generalizing entries with
  | nil => simp [matchRules]
  | cons rule rest ih =>
    simp only [matchRules]
    cases hmatch : matchRule rule with
    | error message =>
      refine iff_of_false (fun h => by cases h) ?_
      rintro (_ | ⟨⟨-, hentry⟩, -⟩)
      rw [hmatch] at hentry
      cases hentry
    | ok isMatch =>
      cases hrest : matchRules matchRule rest with
      | error message =>
        refine iff_of_false (fun h => by cases h) ?_
        rintro (_ | ⟨-, hall⟩)
        rw [ih.mpr hall] at hrest
        cases hrest
      | ok kept =>
        constructor
        · intro h
          cases h
          exact .cons ⟨rfl, hmatch⟩ (ih.mp hrest)
        · rintro (_ | ⟨⟨hrule, hentry⟩, hall⟩)
          rename_i entry entries
          have hkept : kept = entries := by
            rw [ih.mpr hall] at hrest
            exact (Except.ok.inj hrest).symm
          have hmatch' : isMatch = entry.2 := by
            rw [hmatch] at hentry
            exact Except.ok.inj hentry
          subst hkept hmatch' hrule
          rfl

theorem eval_calico_policy_definite {result : AdapterResult CalicoRule}
    (h : evalCalicoPolicy U policies podLabels direction source data protocol port = .ok result)
    (hdefinite : result.status.Definite) :
    source.gap "k8s-calico" = none ∧
      ∃ selecting, selectCalicoPolicies U podLabels direction policies = .ok selecting ∧
        ((selecting = [] ∧ result.status = .allowed) ∨ (selecting ≠ [] ∧ ∃ entries,
            matchRules (calicoRulePeerMatch U direction data protocol port)
              (governingRules direction selecting) = .ok entries ∧
            result.status = entriesStatus U entries)) := by
  simp only [evalCalicoPolicy] at h
  cases hgap : source.gap "k8s-calico" with
  | some early =>
    have hunknown : early.status = .unknown := by
      simp only [CalicoSource.gap] at hgap
      split at hgap
      · cases hgap; rfl
      · split at hgap
        · cases hgap; rfl
        · split at hgap
          · cases hgap; rfl
          · cases hgap
    rw [hgap] at h
    cases h
    simp [hunknown, LayerStatus.Definite] at hdefinite
  | none =>
    rw [hgap] at h
    refine ⟨rfl, ?_⟩
    cases hselect : selectCalicoPolicies U podLabels direction policies with
    | error gap =>
      rw [hselect] at h
      cases h
      cases gap <;> simp [SelectionGap.result, LayerStatus.Definite] at hdefinite
    | ok selecting =>
      rw [hselect] at h
      refine ⟨selecting, rfl, ?_⟩
      cases selecting with
      | nil =>
        cases h
        exact .inl ⟨rfl, rfl⟩
      | cons policy rest =>
        cases hentries : matchRules (calicoRulePeerMatch U direction data protocol port)
          (governingRules direction (policy :: rest)) with
        | error message =>
          simp only [hentries] at h
          cases h
        | ok entries =>
          simp only [hentries] at h
          cases h
          exact .inr ⟨by simp, entries, rfl, scan_status U entries _⟩

/-- The verdict of evaluated policies: the converse reading of a completed evaluation. -/
theorem eval_calico_policy_of_entries {selecting : List CalicoPolicy}
    (hgap : source.gap "k8s-calico" = none)
    (hselect : selectCalicoPolicies U podLabels direction policies = .ok selecting) :
    (evalCalicoPolicy U policies podLabels direction source data protocol port).map (·.status) =
      if selecting = [] then .ok .allowed
      else (matchRules (calicoRulePeerMatch U direction data protocol port)
        (governingRules direction selecting)).map (entriesStatus U) := by
  simp only [evalCalicoPolicy, hgap]
  rw [hselect]
  cases selecting with
  | nil => rfl
  | cons policy rest =>
    rw [if_neg (by simp)]
    simp only
    cases hentries : matchRules (calicoRulePeerMatch U direction data protocol port)
      (governingRules direction (policy :: rest)) with
    | error message => rfl
    | ok entries => exact congrArg Except.ok (scan_status U entries _)

end AwsOps.NetworkPath

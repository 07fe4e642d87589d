import AwsOps.NetworkPath.Adapter

/-!
# Kubernetes network policies

The NetworkPolicy adapter. A pod that no policy selects is open; a selected pod is closed except
for what some rule of a selecting policy allows. Each peer of each rule either allows, does not
match, or cannot be decided for want of peer data or of a named port, and the adapter searches
them for one that allows. `k8s_network_policy_stable` is that a definite verdict stands when the
missing peer data is supplied.
-/

namespace AwsOps.NetworkPath

open AwsOps.Kleene

/-- A set of labels, and the equality selector over one. -/
abbrev Labels := List (String × String)

/-- A port, or a protocol, given by number or by name. -/
inductive PortRef where
  | num (n : Int)
  | name (s : String)
  deriving DecidableEq

/-- `int` of a port reference; `none` is the `ValueError`. -/
def PortRef.toInt (U : Text.Unicode) : PortRef → Option Int
  | .num n => some n
  | .name s => Text.int U s.toList

/-- One entry of the `ports` of a rule. -/
structure PortEntry where
  protocol : Option String
  port : Option PortRef
  endPort : Option PortRef
  deriving DecidableEq

/-- An address block with the sub-blocks carved out of it. -/
structure IpBlock where
  cidr : Option String
  except : List String
  deriving DecidableEq

/-- One peer of a rule. A selector is `some` when its key is there, and then empty selects all. -/
structure NetworkPeer where
  namespaceSelector : Option Labels
  podSelector : Option Labels
  ipBlock : Option IpBlock
  deriving DecidableEq

/-- One rule: its peers in the direction of its list, and its ports. -/
structure NetworkRule where
  peers : List NetworkPeer
  ports : List PortEntry
  deriving DecidableEq

/-- A network policy. A rule list is `some` when its key is there. -/
structure NetworkPolicy where
  podSelector : Labels
  policyTypes : Option (List String)
  ingress : Option (List NetworkRule)
  egress : Option (List NetworkRule)
  deriving DecidableEq

/-- What is known of the peer and of the two namespaces. -/
structure PeerData where
  peerLabels : Option Labels
  peerNamespaceLabels : Option Labels
  peerIp : Option String
  peerNamespace : Option String
  policyNamespace : Option String

/-- The data repeats what is known and may supply what is missing. -/
structure PeerData.Completes (full partly : PeerData) : Prop where
  peerLabels : Refines partly.peerLabels full.peerLabels
  peerNamespaceLabels : Refines partly.peerNamespaceLabels full.peerNamespaceLabels
  peerIp : Refines partly.peerIp full.peerIp
  peerNamespace : Refines partly.peerNamespace full.peerNamespace
  policyNamespace : Refines partly.policyNamespace full.policyNamespace

def labelsMatch (selector labels : Labels) : Bool :=
  selector.all fun (key, value) => labels.lookup key == some value

/-- The key of the rule list of a direction, which is also its policy type. -/
def Direction.key : Direction → String
  | .ingress => "ingress"
  | .egress => "egress"

def policyTypeApplies (U : Text.Unicode) (policy : NetworkPolicy) (direction : Direction) :
    Bool :=
  match policy.policyTypes with
  | some types => decide (direction.key ∈ types.map (Text.lower U))
  | none =>
    match direction with
    | .ingress => true
    | .egress => policy.egress.isSome

def NetworkPolicy.rules (policy : NetworkPolicy) : Direction → List NetworkRule
  | .ingress => policy.ingress.getD []
  | .egress => policy.egress.getD []

/-- Whether one port entry covers the flow. A named port cannot be decided. -/
def PortEntry.matches (U : Text.Unicode) (protocol : Option String) (port : Option PortRef)
    (entry : PortEntry) : Option Bool :=
  let wantProto := Text.upper U ((present entry.protocol).getD "TCP")
  if protocol.isSome && wantProto != Text.upper U (Text.strOf protocol) then some false
  else
    match entry.port, port with
    | none, _ => some true
    | some _, none => some false
    | some wantPort, some port =>
      match wantPort.toInt U, port.toInt U with
      | none, _ => none
      | some _, none => some false
      | some want, some port =>
        match entry.endPort with
        | none => some (port == want)
        | some endPort =>
          match endPort.toInt U with
          | none => some false
          | some last => some (decide (want ≤ port ∧ port ≤ last))

/-- Whether the ports of a rule cover the flow. No entry means every port. -/
def k8sPortMatches (U : Text.Unicode) (ports : List PortEntry) (protocol : Option String)
    (port : Option PortRef) : Option Bool :=
  if ports.isEmpty then some true else any (PortEntry.matches U protocol port) ports

/-- Why a peer could not be decided. -/
inductive Unresolved where
  | namespaceSelector
  | unscopedPodSelector
  | peerData
  deriving DecidableEq

/-- What the adapter shows for an allowed connection. -/
inductive PolicyEvidence where
  | rule (rule : NetworkRule)
  | peer (peer : NetworkPeer)
  deriving DecidableEq

/-- A selector against labels that may be missing; an absent or empty selector needs none. -/
def selectorMatches (selector : Option Labels) (labels : Option Labels) : Option Bool :=
  match selector.getD [] with
  | [] => some true
  | selector => labels.map (labelsMatch selector)

/-- A peer that matches allows, unless the port of its rule is undecided. -/
def matched (portMatch : Option Bool) (summary : String) (evidence : PolicyEvidence) :
    Finding (String × PolicyEvidence) Unresolved :=
  if portMatch.isNone then .unclear .peerData else .hit (summary, evidence)

/-- What a peer with an address block contributes. -/
def IpBlock.finding (data : PeerData) (portMatch : Option Bool) (peer : NetworkPeer)
    (block : IpBlock) : Finding (String × PolicyEvidence) Unresolved :=
  match usableIp data.peerIp with
  | none => .unclear .peerData
  | some ip =>
    if !cidrContains block.cidr (some ip) then .miss
    else if block.except.any fun cidr => cidrContains (some cidr) (some ip) then .miss
    else matched portMatch "matched ipBlock peer rule" (.peer peer)

/-- What a peer whose namespace selector matches contributes through its pod selector. A pod
selector alone reaches only the namespace of the policy. -/
def NetworkPeer.podFinding (data : PeerData) (portMatch : Option Bool) (peer : NetworkPeer) :
    Finding (String × PolicyEvidence) Unresolved :=
  match selectorMatches peer.podSelector data.peerLabels with
  | none => .unclear .peerData
  | some false => .miss
  | some true =>
    if peer.namespaceSelector.isNone then
      match data.policyNamespace, data.peerNamespace with
      | some policyNamespace, some peerNamespace =>
        if policyNamespace ≠ peerNamespace then .miss
        else matched portMatch "matched pod_selector peer rule" (.peer peer)
      | _, _ => .unclear .unscopedPodSelector
    else matched portMatch "matched pod_selector peer rule" (.peer peer)

/-- What one peer of a rule contributes. -/
def NetworkPeer.finding (data : PeerData) (portMatch : Option Bool) (peer : NetworkPeer) :
    Finding (String × PolicyEvidence) Unresolved :=
  match selectorMatches peer.namespaceSelector data.peerNamespaceLabels with
  | none => .unclear .namespaceSelector
  | some false => .miss
  | some true =>
    if peer.podSelector.isSome then peer.podFinding data portMatch
    else if peer.namespaceSelector.isSome then
      matched portMatch "matched namespaceSelector peer rule" (.peer peer)
    else
      match peer.ipBlock with
      | some block => block.finding data portMatch peer
      | none => .miss

/-- One thing the adapter looks at: a rule without peers, which allows all of them, or one peer of
a rule, together with the answer about the rule's ports. -/
inductive PolicyCheck where
  | allPeers (portMatch : Option Bool) (rule : NetworkRule)
  | onePeer (portMatch : Option Bool) (peer : NetworkPeer)

/-- What one check contributes. -/
def PolicyCheck.finding (data : PeerData) :
    PolicyCheck → Finding (String × PolicyEvidence) Unresolved
  | .allPeers portMatch rule =>
    matched portMatch "matching NetworkPolicy rule allows all peers" (.rule rule)
  | .onePeer portMatch peer => peer.finding data portMatch

/-- The checks of one rule: none when its ports rule the flow out. -/
def NetworkRule.checks (U : Text.Unicode) (protocol : Option String) (port : Option PortRef)
    (rule : NetworkRule) : List PolicyCheck :=
  let portMatch := k8sPortMatches U rule.ports protocol port
  if portMatch = some false then []
  else if rule.peers.isEmpty then [.allPeers portMatch rule]
  else rule.peers.map (.onePeer portMatch)

/-- The summary of an undecided search: the first kind of gap that it met. -/
def unresolvedSummary (reasons : List Unresolved) : String :=
  if .namespaceSelector ∈ reasons then
    "a candidate NetworkPolicy rule uses namespaceSelector but the caller did " ++
      "not supply peer namespace labels — cannot confidently evaluate"
  else if .unscopedPodSelector ∈ reasons then
    "a candidate NetworkPolicy rule's bare podSelector peer's labels match, but " ++
      "the policy's own namespace and/or the peer's namespace were not supplied — " ++
      "cannot confirm the same-namespace scoping K8s requires for a bare podSelector"
  else
    "a candidate NetworkPolicy rule could not be evaluated due to missing peer " ++
      "data (podSelector peer with no peer_labels, ipBlock peer with no peer_ip, or " ++
      "a named port this adapter cannot resolve) — cannot confidently evaluate"

def selectingPolicies (U : Text.Unicode) (policies : List NetworkPolicy) (podLabels : Labels)
    (direction : Direction) : List NetworkPolicy :=
  policies.filter fun policy =>
    labelsMatch policy.podSelector podLabels && policyTypeApplies U policy direction

def evalK8sNetworkPolicy (U : Text.Unicode) (policies : List NetworkPolicy)
    (podLabels : Labels) (direction : Direction) (data : PeerData) (protocol : Option String)
    (port : Option PortRef) (dataAvailable : Bool) : AdapterResult PolicyEvidence :=
  let layer := "k8s-networkpolicy"
  let selecting := selectingPolicies U policies podLabels direction
  if !dataAvailable then
    { layer, status := .unknown, resource := none,
      summary := "NetworkPolicy data was not fetched for this pod/namespace — cannot " ++
        "evaluate (missing data, not a confirmed absence of policy)",
      evidence := [] }
  else if selecting.isEmpty then
    { layer, status := .allowed, resource := none,
      summary := "no NetworkPolicy selects this pod for this direction (default allow)",
      evidence := [] }
  else
    let checks := selecting.flatMap fun policy =>
      (policy.rules direction).flatMap (NetworkRule.checks U protocol port)
    match search (PolicyCheck.finding data) checks with
    | (some (summary, evidence), _) =>
      { layer, status := .allowed, resource := none, summary, evidence := [evidence] }
    | (none, reason :: reasons) =>
      { layer, status := .unknown, resource := none,
        summary := unresolvedSummary (reason :: reasons), evidence := [] }
    | (none, []) =>
      { layer, status := .blocked, resource := none,
        summary := "pod is selected by >=1 NetworkPolicy for this direction; no rule " ++
          "matched the peer",
        evidence := [] }

theorem selector_matches_refines (selector : Option Labels) {labels labels' : Option Labels}
    (h : Refines labels labels') :
    Refines (selectorMatches selector labels) (selectorMatches selector labels') := by
  simp only [selectorMatches]
  split
  · exact .refl _
  · exact h.map _

variable {data data' : PeerData}

theorem pod_finding_refines (h : data'.Completes data) (portMatch : Option Bool)
    (peer : NetworkPeer) :
    Refines (peer.podFinding data portMatch).answer
      (peer.podFinding data' portMatch).answer := by
  simp only [NetworkPeer.podFinding]
  cases hpod : selectorMatches peer.podSelector data.peerLabels with
  | none => exact .of_none _
  | some selected =>
    rw [selector_matches_refines peer.podSelector h.peerLabels selected hpod]
    cases selected with
    | false => exact .refl _
    | true =>
      simp only
      split
      · cases hpolicy : data.policyNamespace with
        | none => exact .of_none _
        | some policyNamespace =>
          rw [h.policyNamespace policyNamespace hpolicy]
          cases hpeer : data.peerNamespace with
          | none => exact .of_none _
          | some peerNamespace =>
            rw [h.peerNamespace peerNamespace hpeer]
      · exact .refl _

theorem ip_block_finding_refines (h : data'.Completes data) (portMatch : Option Bool)
    (peer : NetworkPeer) (block : IpBlock) :
    Refines (block.finding data portMatch peer).answer
      (block.finding data' portMatch peer).answer := by
  simp only [IpBlock.finding]
  cases hip : usableIp data.peerIp with
  | none => exact .of_none _
  | some ip => rw [usable_ip_refines h.peerIp ip hip]

theorem peer_finding_refines (h : data'.Completes data) (portMatch : Option Bool)
    (peer : NetworkPeer) :
    Refines (peer.finding data portMatch).answer (peer.finding data' portMatch).answer := by
  simp only [NetworkPeer.finding]
  cases hns : selectorMatches peer.namespaceSelector data.peerNamespaceLabels with
  | none => exact .of_none _
  | some selected =>
    rw [selector_matches_refines peer.namespaceSelector h.peerNamespaceLabels selected hns]
    cases selected with
    | false => exact .refl _
    | true =>
      simp only
      split
      · exact pod_finding_refines h portMatch peer
      · split
        · exact .refl _
        · split
          · exact ip_block_finding_refines h portMatch peer _
          · exact .refl _

theorem check_finding_refines (h : data'.Completes data) (check : PolicyCheck) :
    Refines (check.finding data).answer (check.finding data').answer := by
  cases check with
  | allPeers portMatch rule => exact .refl _
  | onePeer portMatch peer => exact peer_finding_refines h portMatch peer

theorem k8s_network_policy_status (U : Text.Unicode) (policies : List NetworkPolicy)
    (podLabels : Labels) (direction : Direction) (data : PeerData) (protocol : Option String)
    (port : Option PortRef) (dataAvailable : Bool) :
    (evalK8sNetworkPolicy U policies podLabels direction data protocol port dataAvailable).status =
      if !dataAvailable then .unknown
      else if (selectingPolicies U policies podLabels direction).isEmpty then .allowed
      else statusOfAnswer (any (fun check => (PolicyCheck.finding data check).answer)
        ((selectingPolicies U policies podLabels direction).flatMap fun policy =>
          (policy.rules direction).flatMap (NetworkRule.checks U protocol port))) := by
  simp only [evalK8sNetworkPolicy]
  split
  · rfl
  · split
    · rfl
    · rw [← conclusion_search]
      split <;> rename_i hsearch <;> rw [hsearch] <;> rfl

theorem k8s_network_policy_stable (U : Text.Unicode) (policies : List NetworkPolicy)
    (podLabels : Labels) (direction : Direction) {data data' : PeerData} (protocol : Option String)
    (port : Option PortRef) (dataAvailable : Bool) (hcompletes : data'.Completes data)
    (h : (evalK8sNetworkPolicy U policies podLabels direction data protocol port
      dataAvailable).status.Definite) :
    (evalK8sNetworkPolicy U policies podLabels direction data' protocol port dataAvailable).status =
      (evalK8sNetworkPolicy U policies podLabels direction data protocol port
        dataAvailable).status := by
  rw [k8s_network_policy_status] at h ⊢
  rw [k8s_network_policy_status]
  split at h
  · simp [LayerStatus.Definite] at h
  · rename_i havailable
    rw [if_neg havailable, if_neg havailable]
    split at h
    · rename_i hopen
      rw [if_pos hopen, if_pos hopen]
    · rename_i hselected
      rw [if_neg hselected, if_neg hselected]
      exact status_of_answer_stable
        (Refines.any fun check _ => check_finding_refines hcompletes check) h

end AwsOps.NetworkPath

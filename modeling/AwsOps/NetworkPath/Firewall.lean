import AwsOps.NetworkPath.Adapter
import Mathlib.Data.List.Sort

/-!
# Security groups and network ACLs

The two packet-filter adapters. A security group allows what some rule matches, whatever the
order of the rules; a network ACL is decided by its first matching entry in ascending order of
rule number, at the requested port forward and at one ephemeral port back. Both leave a rule open
when the peer data that it tests is missing. The main result, `missing_peer_stable`, is that a
definite verdict reached without some of the peer data stands when the data is supplied.
-/

namespace AwsOps.NetworkPath

open AwsOps.Kleene Option Refines

/-- What is known of the peer: its address and the security groups attached to it. An empty list
of groups is known, an absent one is not. -/
structure PeerIdentity where
  peerIp : Option String
  peerSgIds : Option (List String)

/-- The identity repeats what is known and may supply what is missing. -/
structure PeerIdentity.Completes (full partly : PeerIdentity) : Prop where
  peerIp : Refines partly.peerIp full.peerIp
  peerSgIds : Refines partly.peerSgIds full.peerSgIds

/-- One rule of a security group attached to the interface. -/
structure SgRule where
  protocol : Option String
  fromPort : Option Int
  toPort : Option Int
  cidr : Option String
  referencedGroupId : Option String
  sgId : Option String
  deriving DecidableEq

def SgRule.eligible (U : Text.Unicode) (protocol : Option String) (port : Option Int)
    (rule : SgRule) : Bool :=
  protoMatches U (rule.protocol.getD "-1") (Text.strOf protocol) &&
    portInRange rule.fromPort rule.toPort port

/-- The rule's block covers the peer address. -/
def SgRule.cidrMatches (peerIp : Option String) (rule : SgRule) : Option Bool :=
  match present rule.cidr with
  | none => some false
  | some _ => peerIp.map fun ip => cidrContains rule.cidr (some ip)

/-- The rule's referenced group is attached to the peer. -/
def SgRule.groupMatches (peerSgIds : Option (List String)) (rule : SgRule) : Option Bool :=
  match present rule.referencedGroupId with
  | none => some false
  | some group => peerSgIds.map fun ids => decide (group ∈ ids)

/-- What one rule contributes to the scan. -/
def SgRule.finding (U : Text.Unicode) (protocol : Option String) (port : Option Int)
    (peerIp : Option String) (peerSgIds : Option (List String)) (rule : SgRule) :
    Finding SgRule Unit :=
  if rule.eligible U protocol port then
    match either (rule.cidrMatches peerIp) (rule.groupMatches peerSgIds) with
    | some true => .hit rule
    | some false => .miss
    | none => .unclear ()
  else .miss

/-- Security-group evaluation over the union of the rules of every attached group. -/
def evalSecurityGroup (U : Text.Unicode) (rules : List SgRule) (protocol : Option String)
    (port : Option Int) (peer : PeerIdentity) (layer : String) : AdapterResult SgRule :=
  let peerIp := usableIp peer.peerIp
  if peerIp.isNone && peer.peerSgIds.isNone then
    { layer, status := .unknown, resource := none,
      summary := "peer identity (peer_ip/peer_sg_ids) is missing; cannot evaluate SG rules",
      evidence := [] }
  else
    let wanted := s!"{Text.strOf protocol}/{Text.strOfInt port}"
    match search (SgRule.finding U protocol port peerIp peer.peerSgIds) rules with
    | (some rule, _) =>
      { layer, status := .allowed, resource := rule.sgId,
        summary := s!"matched SG rule {Text.strOf rule.sgId} allowing {wanted}",
        evidence := [rule] }
    | (none, _ :: _) =>
      { layer, status := .unknown, resource := none,
        summary := s!"one or more SG rules for {wanted} could not be evaluated due to " ++
          "partial missing peer data (a CIDR rule with no peer_ip, or an SG-reference rule " ++
          "with no peer_sg_ids) and no rule confidently matched",
        evidence := [] }
    | (none, []) =>
      { layer, status := .blocked, resource := none,
        summary := s!"no SG rule allows {wanted} to/from " ++
          peerIp.getD (Text.reprList (peer.peerSgIds.getD []).dedup),
        evidence := [] }

/-- One entry of a network ACL. -/
structure NaclEntry where
  ruleNumber : Int
  protocol : Option String
  fromPort : Option Int
  toPort : Option Int
  cidr : Option String
  action : Option String
  resource : Option String
  deriving DecidableEq

/-- The rule number of the implicit default deny, which matches everything. -/
def catchAllRuleNumber : Int := 32767

/-- The one representative port at which the return path is evaluated. -/
def ephemeralProbePort : Int := 49152

/-- Whether the entry matches; an entry with a block is open when the address is missing. -/
def NaclEntry.matches (U : Text.Unicode) (protocol : Option String) (port : Option Int)
    (peerIp : Option String) (entry : NaclEntry) : Option Bool :=
  if catchAllRuleNumber ≤ entry.ruleNumber then some true
  else if !protoMatches U (entry.protocol.getD "-1") (Text.strOf protocol) then some false
  else if !portInRange entry.fromPort entry.toPort port then some false
  else
    match present entry.cidr with
    | none => some true
    | some _ => peerIp.map fun ip => cidrContains entry.cidr (some ip)

/-- The entries in ascending order of rule number, equal numbers in the given order. -/
def sortEntries (entries : List NaclEntry) : List NaclEntry :=
  entries.insertionSort fun a b => a.ruleNumber ≤ b.ruleNumber

/-- The first matching entry, or `none` when an open entry comes before it. -/
def firstMatch (U : Text.Unicode) (entries : List NaclEntry) (protocol : Option String)
    (port : Option Int) (peerIp : Option String) : Option (Option NaclEntry) :=
  first (NaclEntry.matches U protocol port (usableIp peerIp)) (sortEntries entries)

/-- The entry covers every port, so its verdict is not limited to the probed one. -/
def NaclEntry.unrestricted (entry : NaclEntry) : Bool :=
  portInRange entry.fromPort entry.toPort (some 0) &&
    portInRange entry.fromPort entry.toPort (some 65535)

/-- The verdict on the return path once the forward entry allows. -/
def evalNaclReturn (returnMatch : Option (Option NaclEntry)) (wanted : String)
    (fwd : NaclEntry) (layer : String) : AdapterResult NaclEntry :=
  match returnMatch with
  | none =>
    { layer, status := .unknown, resource := none,
      summary := "a NACL return entry scoped to a CIDR could not be evaluated because " ++
        "peer_ip is missing; cannot confidently determine the return path",
      evidence := [fwd] }
  | some none =>
    { layer, status := .blocked, resource := none,
      summary := s!"NACL return rule denies the ephemeral probe port {ephemeralProbePort}",
      evidence := [] }
  | some (some ret) =>
    if ret.action ≠ some "allow" then
      if ret.unrestricted then
        { layer, status := .blocked, resource := ret.resource,
          summary := s!"NACL return rule denies the ephemeral probe port " ++
            s!"{ephemeralProbePort}; deny covers the full 0-65535 range " ++
            "(genuinely unrestricted) — generalized deny",
          evidence := [ret] }
      else
        { layer, status := .conditional, resource := ret.resource,
          summary := s!"NACL return rule denies only the probed ephemeral port " ++
            s!"{ephemeralProbePort} (not the full ephemeral range) — a different " ++
            "ephemeral port may still be allowed; scoped verdict, not a generalized block",
          evidence := [fwd, ret] }
    else if ret.unrestricted then
      { layer, status := .allowed, resource := fwd.resource,
        summary := s!"NACL forward {wanted} allowed; return rule covers the full 0-65535 " ++
          "range (genuinely unrestricted, not just the probed port) — generalized allow",
        evidence := [fwd, ret] }
    else
      { layer, status := .conditional, resource := fwd.resource,
        summary := s!"NACL forward {wanted} allowed; return probed only at ephemeral port " ++
          s!"{ephemeralProbePort} (not the full ephemeral range) — scoped verdict, not a " ++
          "generalized allow",
        evidence := [fwd, ret] }

/-- Network-ACL evaluation: the forward entries at the requested port, then the return entries at
the probe port. -/
def evalNacl (U : Text.Unicode) (forwardEntries returnEntries : List NaclEntry)
    (protocol : Option String) (port : Option Int) (peerIp : Option String) (layer : String) :
    AdapterResult NaclEntry :=
  let wanted := s!"{Text.strOf protocol}/{Text.strOfInt port}"
  let denied (fwd : Option NaclEntry) : AdapterResult NaclEntry :=
    { layer, status := .blocked, resource := fwd.bind (·.resource),
      summary := s!"NACL forward rule denies {wanted}", evidence := fwd.toList }
  match firstMatch U forwardEntries protocol port peerIp with
  | none =>
    { layer, status := .unknown, resource := none,
      summary := "a NACL forward entry scoped to a CIDR could not be evaluated because " ++
        "peer_ip is missing; cannot confidently determine allow/deny for this entry",
      evidence := [] }
  | some none => denied none
  | some (some fwd) =>
    if fwd.action ≠ some "allow" then denied (some fwd)
    else
      evalNaclReturn (firstMatch U returnEntries protocol (some ephemeralProbePort) peerIp)
        wanted fwd layer

variable (U : Text.Unicode)

theorem sg_finding_answer (protocol : Option String) (port : Option Int) (peerIp : Option String)
    (peerSgIds : Option (List String)) (rule : SgRule) :
    (rule.finding U protocol port peerIp peerSgIds).answer =
      if rule.eligible U protocol port then
        either (rule.cidrMatches peerIp) (rule.groupMatches peerSgIds)
      else some false := by
  simp only [SgRule.finding]
  split
  · split <;> rename_i h <;> rw [h] <;> rfl
  · rfl

theorem sg_finding_refines (protocol : Option String) (port : Option Int)
    {peerIp peerIp' : Option String} {peerSgIds peerSgIds' : Option (List String)}
    (hip : Refines peerIp peerIp') (hgroups : Refines peerSgIds peerSgIds') (rule : SgRule) :
    Refines (rule.finding U protocol port peerIp peerSgIds).answer
      (rule.finding U protocol port peerIp' peerSgIds').answer := by
  rw [sg_finding_answer, sg_finding_answer]
  split
  · refine either ?_ ?_
    · simp only [SgRule.cidrMatches]
      split
      · exact .refl _
      · exact map _ hip
    · simp only [SgRule.groupMatches]
      split
      · exact .refl _
      · exact map _ hgroups
  · exact .refl _

theorem security_group_status (rules : List SgRule) (protocol : Option String) (port : Option Int)
    (peer : PeerIdentity) (layer : String) :
    (evalSecurityGroup U rules protocol port peer layer).status =
      if (usableIp peer.peerIp).isNone && peer.peerSgIds.isNone then .unknown
      else statusOfAnswer (any (fun rule =>
        (rule.finding U protocol port (usableIp peer.peerIp) peer.peerSgIds).answer) rules) := by
  simp only [evalSecurityGroup]
  split
  · rfl
  · rw [← conclusion_search]
    split <;> rename_i hsearch <;> rw [hsearch] <;> rfl

theorem security_group_stable (rules : List SgRule) (protocol : Option String) (port : Option Int)
    {peer peer' : PeerIdentity} (layer : String) (hcompletes : peer'.Completes peer)
    (h : (evalSecurityGroup U rules protocol port peer layer).status.Definite) :
    (evalSecurityGroup U rules protocol port peer' layer).status =
      (evalSecurityGroup U rules protocol port peer layer).status := by
  have hip := usable_ip_refines hcompletes.peerIp
  rw [security_group_status] at h ⊢
  rw [security_group_status]
  split at h
  · simp [LayerStatus.Definite] at h
  · rename_i hknown
    have hknown' : ¬ ((usableIp peer'.peerIp).isNone && peer'.peerSgIds.isNone) = true := by
      intro hmissing
      apply hknown
      simp only [Bool.and_eq_true, isNone_iff_eq_none] at hmissing ⊢
      refine ⟨?_, ?_⟩
      · by_contra hsome
        obtain ⟨x, hx⟩ := ne_none_iff_exists'.mp hsome
        simp [hip x hx] at hmissing
      · by_contra hsome
        obtain ⟨x, hx⟩ := ne_none_iff_exists'.mp hsome
        simp [hcompletes.peerSgIds x hx] at hmissing
    rw [if_neg hknown, if_neg hknown']
    exact status_of_answer_stable (any fun rule _ =>
      sg_finding_refines U protocol port hip hcompletes.peerSgIds rule) h

theorem first_match_refines (entries : List NaclEntry) (protocol : Option String)
    (port : Option Int) {peerIp peerIp' : Option String} (hip : Refines peerIp peerIp') :
    Refines (firstMatch U entries protocol port peerIp)
      (firstMatch U entries protocol port peerIp') := by
  refine first fun entry _ => ?_
  simp only [NaclEntry.matches]
  split
  · exact .refl _
  · split
    · exact .refl _
    · split
      · exact .refl _
      · split
        · exact .refl _
        · exact map _ (usable_ip_refines hip)

theorem nacl_stable (forwardEntries returnEntries : List NaclEntry) (protocol : Option String)
    (port : Option Int) {peerIp peerIp' : Option String} (layer : String)
    (hip : Refines peerIp peerIp')
    (h : (evalNacl U forwardEntries returnEntries protocol port peerIp layer).status.Definite) :
    evalNacl U forwardEntries returnEntries protocol port peerIp' layer =
      evalNacl U forwardEntries returnEntries protocol port peerIp layer := by
  have hforward := first_match_refines U forwardEntries protocol port hip
  have hreturn := first_match_refines U returnEntries protocol (some ephemeralProbePort) hip
  simp only [evalNacl] at h ⊢
  cases hfwd : firstMatch U forwardEntries protocol port peerIp with
  | none => simp [hfwd, LayerStatus.Definite] at h
  | some fwd =>
    rw [hfwd] at h
    rw [hforward fwd hfwd]
    cases fwd with
    | none => rfl
    | some fwd =>
      simp only at h ⊢
      split at h
      · rename_i hdenied
        rw [if_pos hdenied, if_pos hdenied]
      · rename_i hallowed
        rw [if_neg hallowed, if_neg hallowed]
        cases hret : firstMatch U returnEntries protocol (some ephemeralProbePort) peerIp with
        | none => simp [hret, evalNaclReturn, LayerStatus.Definite] at h
        | some ret => rw [hreturn ret hret]

/-- A definite verdict of either packet filter reached without some of the peer data stands when
the data is supplied, whatever the data turns out to be. -/
theorem missing_peer_stable (U : Text.Unicode) (peer peer' : PeerIdentity)
    (hcompletes : peer'.Completes peer) :
    (∀ rules protocol port layer,
      (evalSecurityGroup U rules protocol port peer layer).status.Definite →
        (evalSecurityGroup U rules protocol port peer' layer).status =
          (evalSecurityGroup U rules protocol port peer layer).status) ∧
    ∀ forwardEntries returnEntries protocol port layer,
      (evalNacl U forwardEntries returnEntries protocol port peer.peerIp layer).status.Definite →
        (evalNacl U forwardEntries returnEntries protocol port peer'.peerIp layer).status =
          (evalNacl U forwardEntries returnEntries protocol port peer.peerIp layer).status := by
  refine ⟨fun rules protocol port layer h => ?_, fun fwd ret protocol port layer h => ?_⟩
  · exact security_group_stable U rules protocol port layer hcompletes h
  · rw [nacl_stable U fwd ret protocol port layer hcompletes.peerIp h]

/-- The rule's group reference already allows the connection, so an address supplied later cannot
change the verdict. -/
theorem missing_peer_stable_group_reference : (evalSecurityGroup .ascii
        [⟨some "TCP", some 443, some 443, some "10.0.0.0/8", none, some "sg-1"⟩,
          ⟨some "tcp", some 443, some 443, none, some "sg-2", some "sg-1"⟩]
        (some "tcp") (some 443) ⟨none, some ["sg-2"]⟩ "sg").status = .allowed ∧
      (evalSecurityGroup .ascii
          [⟨some "TCP", some 443, some 443, some "10.0.0.0/8", none, some "sg-1"⟩,
            ⟨some "tcp", some 443, some 443, none, some "sg-2", some "sg-1"⟩]
          (some "tcp") (some 443) ⟨some "192.0.2.7", some ["sg-2"]⟩ "sg").status =
        (evalSecurityGroup .ascii
          [⟨some "TCP", some 443, some 443, some "10.0.0.0/8", none, some "sg-1"⟩,
            ⟨some "tcp", some 443, some 443, none, some "sg-2", some "sg-1"⟩]
          (some "tcp") (some 443) ⟨none, some ["sg-2"]⟩ "sg").status :=
  ⟨by decide, (missing_peer_stable .ascii ⟨none, some ["sg-2"]⟩ ⟨some "192.0.2.7", some ["sg-2"]⟩
    ⟨.of_none _, .refl _⟩).1 _ _ _ _ (by decide)⟩

end AwsOps.NetworkPath

import AwsOps.Foundation.IpAddress
import AwsOps.NetworkPath.Reduce

/-!
# Shared parts of the layer adapters

The result that every adapter returns, and the comparisons of protocols, ports and addresses that
several adapters share. A peer address that does not parse is treated as a missing one, which
`usable_ip_refines` turns into the form the adapters need: supplying a missing address only
refines what can be used of it.
-/

namespace AwsOps.NetworkPath

open AwsOps.Kleene

/-- What an adapter returns, with evidence taken from its own data. -/
structure AdapterResult (ε : Type) where
  layer : String
  status : LayerStatus
  resource : Option String
  summary : String
  evidence : List ε

/-- A definite status: a verdict that later stages may build on. -/
def LayerStatus.Definite (status : LayerStatus) : Prop :=
  status = .allowed ∨ status = .blocked

/-- Whether a status is definite is decided by two comparisons. -/
instance (status : LayerStatus) : Decidable status.Definite :=
  inferInstanceAs (Decidable (_ ∨ _))

/-- The status that the answer "some rule matches" leads to. -/
def statusOfAnswer : Option Bool → LayerStatus
  | some true => .allowed
  | some false => .blocked
  | none => .unknown

theorem status_of_answer_stable {a b : Option Bool} (hab : Refines a b)
    (h : (statusOfAnswer a).Definite) : statusOfAnswer b = statusOfAnswer a := by
  cases a with
  | none => simp [statusOfAnswer, LayerStatus.Definite] at h
  | some x => rw [hab x rfl]

/-- The side of a connection that a rule list governs. -/
inductive Direction where
  | ingress
  | egress
  deriving DecidableEq

/-- A text field counts as present when it is not empty. -/
def present (s : Option String) : Option String :=
  s.filter (· ≠ "")

/-- The protocol numbers of the names that rules use. -/
def protocolNumbers : List (String × String) :=
  [("tcp", "6"), ("udp", "17"), ("icmp", "1"), ("icmpv6", "58"), ("-1", "-1"), ("all", "-1")]

/-- The number of a protocol, or the text itself when it has none. -/
def protoNum (U : Text.Unicode) (p : String) : String :=
  (protocolNumbers.lookup (Text.lower U p)).getD p

/-- The rule's protocol covers the wanted one. -/
def protoMatches (U : Text.Unicode) (ruleProto wantProto : String) : Bool :=
  protoNum U ruleProto == "-1" || protoNum U ruleProto == protoNum U wantProto

/-- The port lies in the range; an absent port or an absent range restricts nothing. -/
def portInRange (fromPort toPort : Option Int) : Option Int → Bool
  | none => true
  | some port =>
    if fromPort.isNone && toPort.isNone then true
    else decide (fromPort.getD (-1) ≤ port ∧ port ≤ toPort.getD 65535)

/-- The address lies in the block; texts that are missing or do not parse lie in nothing. -/
def cidrContains (cidr ip : Option String) : Bool :=
  match present cidr, present ip with
  | some cidr, some ip => IpAddress.inNetwork ip cidr
  | _, _ => false

/-- The address is present and parses. -/
def isValidIp (ip : Option String) : Bool :=
  ip.any IpAddress.isAddress

/-- What can be used of a peer address: a malformed address counts as missing. -/
def usableIp (ip : Option String) : Option String :=
  if isValidIp ip then ip else none

theorem usable_ip_refines {ip ip' : Option String} (h : Refines ip ip') :
    Refines (usableIp ip) (usableIp ip') := by
  intro x hx
  simp only [usableIp] at hx
  split at hx
  · rename_i hvalid
    have hip' := h x hx
    rw [hx] at hvalid
    simp [usableIp, hip', hvalid]
  · cases hx

end AwsOps.NetworkPath

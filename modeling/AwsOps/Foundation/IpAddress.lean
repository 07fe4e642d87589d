import AwsOps.Foundation.Text

/-!
# IP addresses and networks

`ip_address`, `ip_network(strict=False)` and membership as the `ipaddress` module of the Python
standard library documents them. An address is its family and its integer value; IPv4-mapped
addresses are not unwrapped, and a scope id after `%` is checked and dropped. A network is kept
with its host bits cleared, which the structure records. `none` is the `ValueError`.
-/

namespace AwsOps.IpAddress

open AwsOps.Text

/-- The two address families. -/
inductive Version where
  | v4
  | v6
  deriving DecidableEq

/-- The number of bits of an address of the family. -/
def Version.bits : Version → Nat
  | .v4 => 32
  | .v6 => 128

/-- An address: its family and its value. -/
structure Address where
  version : Version
  value : Nat
  deriving DecidableEq

/-- Clear the host bits of a value: keep only the leading `prefixlen` of `bits` bits. -/
def maskTo (bits prefixlen value : Nat) : Nat :=
  value / 2 ^ (bits - prefixlen) * 2 ^ (bits - prefixlen)

/-- A network whose base address has no host bits set. -/
structure Network where
  version : Version
  base : Nat
  prefixlen : Nat
  masked : maskTo version.bits prefixlen base = base

@[simp] theorem mask_to_idem (bits prefixlen value : Nat) :
    maskTo bits prefixlen (maskTo bits prefixlen value) = maskTo bits prefixlen value := by
  have h : 0 < 2 ^ (bits - prefixlen) := Nat.two_pow_pos _
  simp [maskTo, Nat.mul_div_cancel _ h]

/-- The network of an address with a prefix length, with the host bits cleared. -/
def Network.of (address : Address) (prefixlen : Nat) : Network where
  version := address.version
  base := maskTo address.version.bits prefixlen address.value
  prefixlen := prefixlen
  masked := mask_to_idem _ _ _

/-- The address lies in the network: same family and same network bits. -/
def Network.contains (network : Network) (address : Address) : Bool :=
  address.version == network.version &&
    maskTo network.version.bits network.prefixlen address.value == network.base

/-- One octet of a dotted quad: one to three ASCII digits without a leading zero, at most 255. -/
def parseOctet (s : List Char) : Option Nat :=
  if s.isEmpty || !s.all Char.isDigit || s.length > 3 || (s.length > 1 && s.head? == some '0') then
    none
  else
    let n := ofDigits 10 (s.map fun c => c.toNat - 48)
    if n ≤ 255 then some n else none

/-- The value of a dotted quad. -/
def parseIpv4 (s : List Char) : Option Nat := do
  let octets ← (s.splitOn '.').mapM parseOctet
  if octets.length = 4 then some (ofDigits 256 octets) else none

/-- The value of a hexadecimal digit. -/
def hexDigit (c : Char) : Option Nat :=
  if c.isDigit then some (c.toNat - 48)
  else if 'a' ≤ c ∧ c ≤ 'f' then some (c.toNat - 87)
  else if 'A' ≤ c ∧ c ≤ 'F' then some (c.toNat - 55)
  else none

/-- One group of an IPv6 address: one to four hexadecimal digits. -/
def parseHextet (s : List Char) : Option Nat :=
  if s.isEmpty || s.length > 4 then none
  else (s.mapM hexDigit).map (ofDigits 16)

/-- The groups of an IPv6 address: text to parse, or the two halves of an IPv4 suffix. -/
abbrev Group := List Char ⊕ Nat

def Group.isEmpty : Group → Bool
  | .inl s => s.isEmpty
  | .inr _ => false

def Group.value : Group → Option Nat
  | .inl s => parseHextet s
  | .inr n => some n

/-- Split the text into groups, replacing an IPv4 suffix by two groups. -/
def ipv6Groups (s : List Char) : Option (List Group) :=
  let parts := s.splitOn ':'
  if parts.length < 3 then none
  else
    match parts.getLast? with
    | some last =>
      if '.' ∈ last then do
        let v ← parseIpv4 last
        pure (parts.dropLast.map .inl ++ [.inr (v / 65536), .inr (v % 65536)])
      else some (parts.map .inl)
    | none => none

/-- The positions of the empty groups that are neither the first nor the last. -/
def innerEmpty (groups : List Group) : List Nat :=
  (List.range groups.length).filter fun i =>
    0 < i && i + 1 < groups.length && (groups[i]?.map Group.isEmpty == some true)

/-- The value of the text of an IPv6 address without its scope id. -/
def parseIpv6 (s : List Char) : Option Nat := do
  let groups ← ipv6Groups s
  if groups.length > 9 then none
  else
    let headEmpty := groups.head?.map Group.isEmpty == some true
    let lastEmpty := groups.getLast?.map Group.isEmpty == some true
    match innerEmpty groups with
    | [] =>
      if groups.length ≠ 8 || headEmpty || lastEmpty then none
      else (groups.mapM Group.value).map (ofDigits 65536)
    | [skip] =>
      let high := if headEmpty then [] else groups.take skip
      let low := if lastEmpty then [] else groups.drop (skip + 1)
      if headEmpty && skip ≠ 1 || lastEmpty && groups.length ≠ skip + 2
          || high.length + low.length > 7 then none
      else do
        let highValues ← high.mapM Group.value
        let lowValues ← low.mapM Group.value
        let skipped := 8 - (high.length + low.length)
        pure (ofDigits 65536 (highValues ++ List.replicate skipped 0 ++ lowValues))
    | _ => none

/-- The address of an IPv6 text with an optional scope id, which must be non-empty. -/
def parseScoped (s : List Char) : Option Nat :=
  match s.splitOn '%' with
  | [addr] => parseIpv6 addr
  | [addr, scope] => if scope.isEmpty then none else parseIpv6 addr
  | _ => none

/-- `ip_address(text)`. -/
def ipAddress (s : List Char) : Option Address :=
  if '/' ∈ s then none
  else
    match parseIpv4 s with
    | some v => some ⟨.v4, v⟩
    | none => (parseScoped s).map (⟨.v6, ·⟩)

/-- A prefix length written in ASCII digits, in range for the family. -/
def parsePrefix (version : Version) (s : List Char) : Option Nat :=
  if s.isEmpty || !s.all Char.isDigit then none
  else
    let n := ofDigits 10 (s.map fun c => c.toNat - 48)
    if n ≤ version.bits then some n else none

/-- The prefix length of a contiguous IPv4 netmask, if the value is one. -/
def prefixOfMask (mask : Nat) : Option Nat :=
  (List.range 33).find? fun n => mask == 2 ^ 32 - 2 ^ (32 - n)

/-- The prefix length of an IPv4 mask: a number, a netmask, or a host mask. -/
def parseIpv4Mask (s : List Char) : Option Nat :=
  (parsePrefix .v4 s).orElse fun _ => do
    let mask ← parseIpv4 s
    (prefixOfMask mask).orElse fun _ => prefixOfMask (2 ^ 32 - 1 - mask)

/-- `ip_network(text, strict=False)`. -/
def ipNetwork (s : List Char) : Option Network :=
  let v4 (addr : List Char) (prefixlen : Option Nat) : Option Network := do
    pure (Network.of ⟨.v4, ← parseIpv4 addr⟩ (← prefixlen))
  let v6 (addr : List Char) (prefixlen : Option Nat) : Option Network := do
    pure (Network.of ⟨.v6, ← parseScoped addr⟩ (← prefixlen))
  match s.splitOn '/' with
  | [addr] => (v4 addr (some 32)).orElse fun _ => v6 addr (some 128)
  | [addr, mask] =>
    (v4 addr (parseIpv4Mask mask)).orElse fun _ => v6 addr (parsePrefix .v6 mask)
  | _ => none

/-- The text is the literal of an address. -/
def isAddress (s : String) : Bool :=
  (ipAddress s.toList).isSome

/-- The address text lies in the network text; a text that does not parse lies in nothing. -/
def inNetwork (addr network : String) : Bool :=
  match ipAddress addr.toList, ipNetwork network.toList with
  | some a, some n => n.contains a
  | _, _ => false

/-- The number of addresses of a network. -/
def Network.size (network : Network) : Nat :=
  2 ^ (network.version.bits - network.prefixlen)

def Network.networkAddress (network : Network) : Address :=
  ⟨network.version, network.base⟩

/-- `broadcast_address`: the last address of the network. -/
def Network.broadcastAddress (network : Network) : Address :=
  ⟨network.version, network.base + (network.size - 1)⟩

theorem Network.size_pos (network : Network) : 0 < network.size :=
  Nat.two_pow_pos _

theorem Network.base_eq (network : Network) :
    network.base = network.base / network.size * network.size :=
  network.masked.symm

variable {address : Address}

theorem contains_iff {network : Network} : network.contains address = true ↔
      address.version = network.version ∧
        address.value / network.size = network.base / network.size := by
  simp only [Network.contains, maskTo, Bool.and_eq_true, beq_iff_eq]
  refine and_congr_right fun _ => ?_
  constructor
  · intro h
    rw [← h]
    exact (Nat.mul_div_cancel _ network.size_pos).symm
  · intro h
    show address.value / network.size * network.size = network.base
    rw [h]
    exact network.base_eq.symm

theorem bounds_of_contains {network : Network} (h : network.contains address = true) :
    network.base ≤ address.value ∧ address.value ≤ network.base + (network.size - 1) := by
  obtain ⟨-, hquotient⟩ := contains_iff.mp h
  have hbase := network.base_eq
  rw [← hquotient] at hbase
  have hsplit := Nat.div_add_mod address.value network.size
  have hmod := Nat.mod_lt address.value network.size_pos
  rw [Nat.mul_comm] at hsplit
  constructor <;> omega

theorem contains_of_ends {outer inner : Network}
    (hfirst : outer.contains inner.networkAddress = true)
    (hlast : outer.contains inner.broadcastAddress = true)
    (h : inner.contains address = true) : outer.contains address = true := by
  obtain ⟨hversion, hlow⟩ := contains_iff.mp hfirst
  obtain ⟨-, hhigh⟩ := contains_iff.mp hlast
  obtain ⟨hmin, hmax⟩ := bounds_of_contains h
  refine contains_iff.mpr ⟨(contains_iff.mp h).1.trans hversion, ?_⟩
  refine Nat.le_antisymm ?_ ?_
  · rw [← hhigh]
    exact Nat.div_le_div_right hmax
  · rw [← hlow]
    exact Nat.div_le_div_right hmin

theorem contains_ends_of_shared {outer inner : Network} (houter : outer.contains address = true)
    (hinner : inner.contains address = true) (hlen : outer.prefixlen ≤ inner.prefixlen) :
    outer.contains inner.networkAddress = true ∧ outer.contains inner.broadcastAddress = true := by
  obtain ⟨hversion, hquotient⟩ := contains_iff.mp houter
  obtain ⟨hversion', hquotient'⟩ := contains_iff.mp hinner
  have hsame : inner.version = outer.version := hversion'.symm.trans hversion
  have hdvd : inner.size ∣ outer.size := by
    simp only [Network.size, hsame]
    exact Nat.pow_dvd_pow 2 (by omega)
  obtain ⟨factor, hfactor⟩ := hdvd
  have hdiv : ∀ value : Nat, value / inner.size = inner.base / inner.size →
      value / outer.size = outer.base / outer.size := by
    intro value hvalue
    rw [hfactor] at hquotient ⊢
    rw [← hquotient, ← Nat.div_div_eq_div_mul, ← Nat.div_div_eq_div_mul, hvalue, ← hquotient']
  refine ⟨contains_iff.mpr ⟨hsame, hdiv _ rfl⟩, contains_iff.mpr ⟨hsame, hdiv _ ?_⟩⟩
  show (inner.base + (inner.size - 1)) / inner.size = inner.base / inner.size
  have hpos := inner.size_pos
  have hlast : (inner.size - 1) / inner.size = 0 := Nat.div_eq_of_lt (by omega)
  rw [inner.base_eq, Nat.mul_comm, Nat.mul_add_div hpos, Nat.mul_div_cancel_left _ hpos, hlast,
    Nat.add_zero]

example : inNetwork "10.1.2.3" "10.0.0.0/255.0.0.0" = true := by decide
example : inNetwork "2001:db8::1" "2001:db8::/32" = true := by decide

end AwsOps.IpAddress

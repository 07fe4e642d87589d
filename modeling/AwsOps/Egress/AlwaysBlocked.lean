import AwsOps.Foundation.Literals

/-!
# Addresses that are never connected to

`_ip_always_blocked` of the connectors. An IPv4 address that is mapped into IPv6 or embedded in a
6to4 address is unwrapped first. Every way in which an IPv6 address stands for a blocked IPv4 address
is blocked too (`embedded_blocked`).
-/

namespace AwsOps.Egress

open IpAddress Option

def metadataIps : List Address :=
  [quad 169 254 169 254, ⟨.v6, 0xfd00 * 2 ^ 112 + 0x0ec2 * 2 ^ 96 + 0x0254⟩]

/-- The address after the unwrapping of a mapped or a 6to4 address. -/
def unwrapped (ip : Address) : Address :=
  let ip := ip.ipv4Mapped.getD ip
  ip.sixtofour.getD ip

/-- The reasons to block an address other than that it is reserved. -/
def isRefused (ip : Address) : Bool :=
  metadataIps.contains ip || ip.isLoopback || ip.isLinkLocal || ip.isMulticast || ip.isUnspecified

/-- `_ip_always_blocked` after parsing. An address with a scope id equals no metadata address. -/
def isBlocked (zoned : Bool) (ip : Address) : Bool :=
  let ip := unwrapped ip
  if metadataIps.contains ip && !(zoned && ip.version == .v6) then true
  else ip.isLoopback || ip.isLinkLocal || ip.isMulticast || ip.isReserved || ip.isUnspecified

def ipAlwaysBlocked (text : List Char) : Bool :=
  match ipAddress text with
  | some ip => isBlocked ('%' ∈ text) ip
  | none => true

/-! ## Embedded addresses -/

/-- The ways in which an IPv6 address stands for an IPv4 address: IPv4-mapped, IPv4-compatible, 6to4,
and NAT64 with the well-known prefix. -/
inductive Embeds : Nat → Nat → Prop
  | mapped (v4) : v4 < 2 ^ 32 → Embeds (0xFFFF * 2 ^ 32 + v4) v4
  | compatible (v4) : v4 < 2 ^ 32 → Embeds v4 v4
  | sixtofour (v4 rest) : v4 < 2 ^ 32 → rest < 2 ^ 80 →
      Embeds (0x2002 * 2 ^ 112 + v4 * 2 ^ 80 + rest) v4
  | nat64 (v4) : v4 < 2 ^ 32 → Embeds (0x0064 * 2 ^ 112 + 0xff9b * 2 ^ 96 + v4) v4

theorem unwrapped_v4 (v : Nat) : unwrapped ⟨.v4, v⟩ = ⟨.v4, v⟩ :=
  rfl

theorem unwrapped_mapped {v : Nat} (h : v / 2 ^ 32 = 0xFFFF) :
    unwrapped ⟨.v6, v⟩ = ⟨.v4, v % 2 ^ 32⟩ := by
  have hmapped : (⟨.v6, v⟩ : Address).ipv4Mapped = some ⟨.v4, v % 2 ^ 32⟩ := if_pos h
  rw [unwrapped, hmapped]
  rfl

theorem unwrapped_sixtofour {v : Nat} (hmapped : v / 2 ^ 32 ≠ 0xFFFF) (h : v / 2 ^ 112 = 0x2002) :
    unwrapped ⟨.v6, v⟩ = ⟨.v4, v / 2 ^ 80 % 2 ^ 32⟩ := by
  have hnone : (⟨.v6, v⟩ : Address).ipv4Mapped = none := if_neg hmapped
  have hsixtofour : (⟨.v6, v⟩ : Address).sixtofour = some ⟨.v4, v / 2 ^ 80 % 2 ^ 32⟩ := if_pos h
  rw [unwrapped, hnone, getD_none, hsixtofour, getD_some]

theorem unwrapped_other {v : Nat} (hmapped : v / 2 ^ 32 ≠ 0xFFFF) (h : v / 2 ^ 112 ≠ 0x2002) :
    unwrapped ⟨.v6, v⟩ = ⟨.v6, v⟩ := by
  have hnone : (⟨.v6, v⟩ : Address).ipv4Mapped = none := if_neg hmapped
  have hsixtofour : (⟨.v6, v⟩ : Address).sixtofour = none := if_neg h
  rw [unwrapped, hnone, getD_none, hsixtofour, getD_none]

/-- An IPv6 address whose first eight bits are zero, and that is not mapped, is reserved. -/
theorem blocked_of_low {v : Nat} (zoned : Bool) (hlow : v < 2 ^ 120)
    (hmapped : v / 2 ^ 32 ≠ 0xFFFF) : isBlocked zoned ⟨.v6, v⟩ = true := by
  have hunwrapped : unwrapped ⟨.v6, v⟩ = ⟨.v6, v⟩ := unwrapped_other hmapped (by omega)
  have hreserved : (⟨.v6, v⟩ : Address).isReserved = true := by
    have hzero : v / 2 ^ 120 = 0 := Nat.div_eq_of_lt hlow
    have hcontains : (Network.of (leading 0x0000) 8).contains ⟨.v6, v⟩ = true := by
      rw [contains_of]
      show (true && v / 2 ^ 120 == 0) = true
      rw [hzero]
      rfl
    simp [Address.isReserved, reservedNetworks, hcontains]
  unfold isBlocked
  simp only [hunwrapped, hreserved, Bool.or_true, Bool.true_or]
  split <;> rfl

theorem blocked_v4 (zoned : Bool) (v : Nat) :
    isBlocked zoned ⟨.v4, v⟩ = isBlocked false ⟨.v4, v⟩ := by
  simp [isBlocked, unwrapped_v4]

theorem embedded_blocked {v6 v4 : Nat} (h : Embeds v6 v4) (zoned : Bool)
    (hblocked : isBlocked false ⟨.v4, v4⟩ = true) : isBlocked zoned ⟨.v6, v6⟩ = true := by
  have hsame : ∀ v, unwrapped ⟨.v6, v⟩ = ⟨.v4, v4⟩ → isBlocked zoned ⟨.v6, v⟩ = true := by
    intro v hv
    have hv4 : isBlocked zoned ⟨.v6, v⟩ = isBlocked zoned ⟨.v4, v4⟩ := by
      rw [isBlocked, isBlocked, hv, unwrapped_v4]
    rw [hv4, blocked_v4, hblocked]
  cases h with
  | mapped _ hv =>
    refine hsame _ ?_
    rw [unwrapped_mapped (by omega)]
    congr 1
    omega
  | compatible _ hv => exact blocked_of_low zoned (by omega) (by omega)
  | sixtofour _ rest hv hrest =>
    refine hsame _ ?_
    rw [unwrapped_sixtofour (by omega) (by omega)]
    congr 1
    omega
  | nat64 _ hv => exact blocked_of_low zoned (by omega) (by omega)

end AwsOps.Egress

import AwsOps.Foundation.Selection
import AwsOps.NetworkPath.Adapter

/-!
# Subnet routes

The route adapter takes a destination that is one address or a whole block. A route claims a block
only when it covers both ends of it, and the claimed route with the longest prefix decides. For an
address this is longest-prefix matching. For a block it says less than the addresses do:
`route_block_agrees` says exactly what it promises about each of them, which is everything except
what routes more specific than the block change.
-/

namespace AwsOps.NetworkPath

open AwsOps.IpAddress AwsOps.Selection

structure Route where
  destinationCidr : Option String
  target : Option String
  state : Option String
  deriving DecidableEq

/-- The network of a route; a missing or malformed destination gives none. -/
def Route.network (route : Route) : Option Network :=
  route.destinationCidr.bind fun cidr => ipNetwork cidr.toList

/-- The route drops what it matches. -/
def Route.blackhole (route : Route) : Bool :=
  route.state == some "blackhole"

/-- A destination that has been read: one address, or a block. -/
inductive Destination where
  | ip (address : Address)
  | net (network : Network)

/-- Read the destination: a text with a slash is a block, any other text an address. -/
def readDestination (dest : String) : Option Destination :=
  if '/' ∈ dest.toList then (ipNetwork dest.toList).map .net
  else (ipAddress dest.toList).map .ip

/-- A network claims an address it contains and a block of which it contains both ends. -/
def Destination.within (destination : Destination) (network : Network) : Bool :=
  match destination with
  | .ip address => network.contains address
  | .net block =>
    network.contains block.networkAddress && network.contains block.broadcastAddress

/-- The prefix length of a route that claims the destination. -/
def claim (destination : Destination) (route : Route) : Option Nat :=
  (route.network.filter destination.within).map (·.prefixlen)

/-- Longest-prefix-match evaluation of a route table. -/
def evalRoute (U : Text.Unicode) (routeTable : List Route) (destCidr : Option String)
    (layer : String) : AdapterResult Route :=
  match destCidr with
  | none =>
    { layer, status := .unknown, resource := none,
      summary := "destination CIDR/IP is missing; cannot evaluate route coverage",
      evidence := [] }
  | some dest =>
    match readDestination dest with
    | none =>
      { layer, status := .unknown, resource := none,
        summary := s!"destination {Text.repr U dest} is not a parseable IP/CIDR; " ++
          "cannot evaluate route coverage",
        evidence := [] }
    | some destination =>
      match firstBest (claim destination) routeTable with
      | none =>
        { layer, status := .blocked, resource := none,
          summary := s!"no route table entry covers {dest}", evidence := [] }
      | some (best, _) =>
        if best.blackhole then
          { layer, status := .blocked, resource := best.target,
            summary := s!"longest-prefix route to {dest} is a blackhole " ++
              s!"({Text.strOf best.target})",
            evidence := [best] }
        else
          { layer, status := .allowed, resource := best.target,
            summary := s!"route to {dest} via {Text.strOf best.target}",
            evidence := [best] }

/-- The route table is decided by a longest-prefix match for the address: a route that contains it
with the longest prefix gives its own verdict, and the address is blocked when no route contains
it. -/
def LongestPrefix (routeTable : List Route) (address : Address)
    (result : AdapterResult Route) : Prop :=
  (∃ best ∈ routeTable, ∃ network, best.network = some network ∧
    network.contains address = true ∧
    (∀ route ∈ routeTable, ∀ other, route.network = some other →
      other.contains address = true → other.prefixlen ≤ network.prefixlen) ∧
    result.evidence = [best] ∧
    result.status = if best.blackhole then .blocked else .allowed) ∨
  (∀ route ∈ routeTable, ∀ network, route.network = some network →
    network.contains address = false) ∧ result.evidence = [] ∧ result.status = .blocked

/-- The verdict comes from a route more specific than the block. -/
def DecidedInside (block : Network) (result : AdapterResult Route) : Prop :=
  ∃ best network, result.evidence = [best] ∧ best.network = some network ∧
    block.prefixlen < network.prefixlen

variable (U : Text.Unicode) (routeTable : List Route) (layer : String)

variable {route : Route} {n : Nat} {dest : String} {address : Address} {block : Network}

theorem claim_eq_some {destination : Destination} : claim destination route = some n ↔
      ∃ network, route.network = some network ∧ destination.within network = true ∧
        network.prefixlen = n := by
  simp [claim, Option.filter_eq_some_iff, and_assoc]

theorem eval_route_eq {destination : Destination}
    (hread : readDestination dest = some destination) :
    ((∃ best n, IsFirstBest (claim destination) routeTable best n ∧
        (evalRoute U routeTable (some dest) layer).evidence = [best] ∧
        (evalRoute U routeTable (some dest) layer).status =
          if best.blackhole then .blocked else .allowed) ∨
      (∀ route ∈ routeTable, claim destination route = none) ∧
        (evalRoute U routeTable (some dest) layer).evidence = [] ∧
        (evalRoute U routeTable (some dest) layer).status = .blocked) := by
  have hfound := found_first_best (claim destination) routeTable
  simp only [evalRoute, hread]
  cases hbest : firstBest (claim destination) routeTable with
  | none =>
    rw [hbest] at hfound
    exact .inr ⟨hfound, rfl, rfl⟩
  | some found =>
    obtain ⟨best, n⟩ := found
    rw [hbest] at hfound
    refine .inl ⟨best, n, hfound, ?_⟩
    cases hblackhole : best.blackhole <;> simp [hblackhole]

theorem read_destination_ip (h : ipAddress dest.toList = some address) :
    readDestination dest = some (.ip address) := by
  have hslash : '/' ∉ dest.toList := by
    intro hmem
    simp [ipAddress, hmem] at h
  simp [readDestination, hslash, h]

theorem eval_route_longest_prefix (h : ipAddress dest.toList = some address) :
    LongestPrefix routeTable address (evalRoute U routeTable (some dest) layer) := by
  rcases eval_route_eq U routeTable layer (read_destination_ip h) with
    ⟨best, n, hbest, hevidence, hstatus⟩ | ⟨hnone, hevidence, hstatus⟩
  · obtain ⟨network, hnetwork, hcontains, rfl⟩ := claim_eq_some.mp hbest.rank_eq
    refine .inl ⟨best, hbest.mem, network, hnetwork, hcontains, ?_, hevidence, hstatus⟩
    intro route hroute other hother hclaims
    exact hbest.rank_le hroute (claim_eq_some.mpr ⟨other, hother, hclaims, rfl⟩)
  · refine .inr ⟨?_, hevidence, hstatus⟩
    intro route hroute network hnetwork
    cases hcontains : network.contains address with
    | false => rfl
    | true =>
      have hclaim : claim (.ip address) route = some network.prefixlen :=
        claim_eq_some.mpr ⟨network, hnetwork, hcontains, rfl⟩
      rw [hnone route hroute] at hclaim
      cases hclaim

theorem claim_ip_of_claim_net (hin : block.contains address = true)
    (h : claim (.net block) route = some n) :
    claim (.ip address) route = some n := by
  obtain ⟨network, hnetwork, hends, hn⟩ := claim_eq_some.mp h
  simp only [Destination.within, Bool.and_eq_true] at hends
  exact claim_eq_some.mpr ⟨network, hnetwork, contains_of_ends hends.1 hends.2 hin, hn⟩

theorem claim_net_of_claim_ip (hin : block.contains address = true) (hlen : n ≤ block.prefixlen)
    (h : claim (.ip address) route = some n) : claim (.net block) route = some n := by
  obtain ⟨network, hnetwork, hcontains, rfl⟩ := claim_eq_some.mp h
  have hends := contains_ends_of_shared hcontains hin hlen
  exact claim_eq_some.mpr ⟨network, hnetwork, by simpa [Destination.within] using hends, rfl⟩

theorem route_block_decides {text : String} (hread : readDestination dest = some (.net block))
    (haddress : ipAddress text.toList = some address) (hin : block.contains address = true) :
    ((evalRoute U routeTable (some text) layer).status =
        (evalRoute U routeTable (some dest) layer).status ∧
      (evalRoute U routeTable (some text) layer).evidence =
        (evalRoute U routeTable (some dest) layer).evidence) ∨
      DecidedInside block (evalRoute U routeTable (some text) layer) := by
  rcases eval_route_eq U routeTable layer (read_destination_ip haddress) with
    ⟨best, n, hbest, hevidence, hstatus⟩ | ⟨hnone, hevidence, hstatus⟩
  · by_cases hlen : n ≤ block.prefixlen
    · have hclaim := claim_net_of_claim_ip hin hlen hbest.rank_eq
      rcases eval_route_eq U routeTable layer hread with
        ⟨best', n', hbest', hevidence', hstatus'⟩ | ⟨hnone', -, -⟩
      · have hclaim' := claim_ip_of_claim_net hin hbest'.rank_eq
        have hn : n = n' :=
          Nat.le_antisymm (hbest'.rank_le hbest.mem hclaim) (hbest.rank_le hbest'.mem hclaim')
        subst hn
        obtain rfl := hbest.unique hbest' hclaim hclaim'
        exact .inl ⟨hstatus.trans hstatus'.symm, hevidence.trans hevidence'.symm⟩
      · rw [hnone' best hbest.mem] at hclaim
        cases hclaim
    · obtain ⟨network, hnetwork, -, rfl⟩ := claim_eq_some.mp hbest.rank_eq
      exact .inr ⟨best, network, hevidence, hnetwork, Nat.lt_of_not_le hlen⟩
  · rcases eval_route_eq U routeTable layer hread with
      ⟨best', n', hbest', -, -⟩ | ⟨-, hevidence', hstatus'⟩
    · have hclaim' := claim_ip_of_claim_net hin hbest'.rank_eq
      rw [hnone best' hbest'.mem] at hclaim'
      cases hclaim'
    · exact .inl ⟨hstatus.trans hstatus'.symm, hevidence.trans hevidence'.symm⟩

/-- What the verdict on a block promises about one of its addresses: allowed means that the
address is allowed unless its longest prefix is a blackhole inside the block, and blocked for lack
of a covering route means that only a route inside the block can match the address. -/
def BlockAgrees (block : Network) (onBlock onAddress : AdapterResult Route) : Prop :=
  (onBlock.status = .allowed → onAddress.status = .allowed ∨
    DecidedInside block onAddress ∧ ∃ best, onAddress.evidence = [best] ∧
      best.blackhole = true) ∧
  (onBlock.status = .blocked → onBlock.evidence = [] →
    onAddress.status = .blocked ∧ onAddress.evidence = [] ∨ DecidedInside block onAddress)

/-- On an address the adapter matches the longest prefix, and its verdict on a block agrees with
its verdicts on the addresses of the block as far as routes more specific than the block allow. -/
theorem route_block_agrees : (∀ text address, ipAddress text.toList = some address →
      LongestPrefix routeTable address (evalRoute U routeTable (some text) layer)) ∧
    ∀ dest block, readDestination dest = some (.net block) →
      ∀ text address, ipAddress text.toList = some address → block.contains address = true →
        BlockAgrees block (evalRoute U routeTable (some dest) layer)
          (evalRoute U routeTable (some text) layer) := by
  refine ⟨fun text address h => eval_route_longest_prefix U routeTable layer h, ?_⟩
  intro dest block hread text address haddress hin
  have hdecides := route_block_decides U routeTable layer hread haddress hin
  constructor
  · intro hallowed
    rcases hdecides with ⟨hstatus, -⟩ | hinside
    · exact .inl (hstatus.trans hallowed)
    · rcases eval_route_eq U routeTable layer (read_destination_ip haddress) with
        ⟨best, n, -, hevidence, hstatus⟩ | ⟨-, hevidence, -⟩
      · cases hblackhole : best.blackhole with
        | false => exact .inl (by simpa [hblackhole] using hstatus)
        | true => exact .inr ⟨hinside, best, hevidence, hblackhole⟩
      · obtain ⟨best, network, hbest, -⟩ := hinside
        rw [hevidence] at hbest
        cases hbest
  · intro hblocked hnone
    exact hdecides.imp (fun ⟨hstatus, hevidence⟩ =>
      ⟨hstatus.trans hblocked, hevidence.trans hnone⟩) id

/-- The block is covered by one active route, and its addresses get the same verdict. -/
theorem route_block_agrees_covered : BlockAgrees (Network.of ⟨.v4, 167772160⟩ 24)
      (evalRoute .ascii [⟨some "10.0.0.0/8", some "local", some "active"⟩,
        ⟨some "10.0.0.0/25", some "pcx-1", some "blackhole"⟩] (some "10.0.0.0/24") "route")
      (evalRoute .ascii [⟨some "10.0.0.0/8", some "local", some "active"⟩,
        ⟨some "10.0.0.0/25", some "pcx-1", some "blackhole"⟩] (some "10.0.0.200") "route") :=
  (route_block_agrees .ascii _ "route").2 _ _ rfl _ ⟨.v4, 167772360⟩ (by decide) (by decide)

/-- A block is allowed although a blackhole inside it blocks one of its addresses, and a block is
blocked for lack of a covering route although two routes cover every address of it. -/
theorem route_block_disagrees :
    ((evalRoute .ascii [⟨some "10.0.0.0/8", some "local", some "active"⟩,
          ⟨some "10.0.0.0/25", some "pcx-1", some "blackhole"⟩]
          (some "10.0.0.0/24") "route").status = .allowed ∧
        (evalRoute .ascii [⟨some "10.0.0.0/8", some "local", some "active"⟩,
          ⟨some "10.0.0.0/25", some "pcx-1", some "blackhole"⟩]
          (some "10.0.0.1") "route").status = .blocked) ∧
      (evalRoute .ascii [⟨some "10.0.0.0/25", some "local", some "active"⟩,
          ⟨some "10.0.0.128/25", some "local", some "active"⟩]
          (some "10.0.0.0/24") "route").status = .blocked ∧
      ∀ address, (Network.of ⟨.v4, 167772160⟩ 24).contains address = true →
        ∃ route ∈ [(⟨some "10.0.0.0/25", some "local", some "active"⟩ : Route),
            ⟨some "10.0.0.128/25", some "local", some "active"⟩],
          ∃ network, route.network = some network ∧ network.contains address = true := by
  refine ⟨⟨by decide, by decide⟩, by decide, ?_⟩
  intro address hin
  obtain ⟨hversion, hquotient⟩ := contains_iff.mp hin
  have hquotient : address.value / 256 = 655360 := hquotient
  by_cases hlow : address.value / 128 = 1310720
  · exact ⟨_, List.mem_cons_self, Network.of ⟨.v4, 167772160⟩ 25, rfl,
      contains_iff.mpr ⟨hversion, hlow⟩⟩
  · have hhigh : address.value / 128 = 1310721 := by omega
    exact ⟨_, List.mem_cons_of_mem _ List.mem_cons_self, Network.of ⟨.v4, 167772288⟩ 25, rfl,
      contains_iff.mpr ⟨hversion, hhigh⟩⟩

end AwsOps.NetworkPath

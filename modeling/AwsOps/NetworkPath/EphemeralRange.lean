import AwsOps.NetworkPath.Firewall

/-!
# What a probed return port says about the ephemeral range

The network-ACL adapter probes the return path at one port and generalizes the answer when the
matched entry covers every port. A lower-numbered entry for part of the range is decided first at
its own ports, so the generalization is sound exactly when no such entry contradicts the probed
one, which `nacl_range_sound_iff` states entry by entry.
-/

namespace AwsOps.NetworkPath

open AwsOps.Kleene

/-- The ports that an unrestricted entry is said to cover. -/
def Ephemeral (p : Int) : Prop :=
  0 ≤ p ∧ p ≤ 65535

/-- Two comparisons decide whether a port is ephemeral. -/
instance (p : Int) : Decidable (Ephemeral p) :=
  inferInstanceAs (Decidable (_ ∧ _))

def NaclEntry.allows (entry : NaclEntry) : Bool :=
  entry.action == some "allow"

/-- The verdict of the first matching entry at a port: `some true` for an allow entry,
`some false` for a deny entry or none, and nothing when an open entry comes first. -/
def verdictAt (U : Text.Unicode) (entries : List NaclEntry) (protocol : Option String)
    (port : Option Int) (peerIp : Option String) : Option Bool :=
  (firstMatch U entries protocol port peerIp).map fun found => found.any NaclEntry.allows

/-- An allowed verdict holds at every ephemeral return port, and so does a blocked verdict that
the forward direction does not already give. -/
def RangeSound (U : Text.Unicode) (forwardEntries returnEntries : List NaclEntry)
    (protocol : Option String) (port : Option Int) (peerIp : Option String) (layer : String) :
    Prop :=
  let status := (evalNacl U forwardEntries returnEntries protocol port peerIp layer).status
  (status = .allowed → ∀ p, Ephemeral p →
    verdictAt U returnEntries protocol (some p) peerIp = some true) ∧
  (status = .blocked → verdictAt U forwardEntries protocol port peerIp = some true →
    ∀ p, Ephemeral p → verdictAt U returnEntries protocol (some p) peerIp = some false)

/-- The entries that come before the first one at the probe port. -/
def passedOver (U : Text.Unicode) (entries : List NaclEntry) (protocol : Option String)
    (peerIp : Option String) : List NaclEntry :=
  (sortEntries entries).takeWhile fun entry =>
    entry.matches U protocol (some ephemeralProbePort) (usableIp peerIp) == some false

/-- The entry matches at the port and gives this verdict. -/
def NaclEntry.Says (U : Text.Unicode) (protocol : Option String) (peerIp : Option String)
    (p : Int) (verdict : Bool) (entry : NaclEntry) : Prop :=
  entry.matches U protocol (some p) (usableIp peerIp) = some true ∧ entry.allows = verdict

/-- Each entry passed over at the probe port gives the same verdict at the ephemeral ports that it
does match, or comes after one that does. -/
def Uncontradicted (U : Text.Unicode) (entries : List NaclEntry) (protocol : Option String)
    (peerIp : Option String) (verdict : Bool) : Prop :=
  ∀ p, Ephemeral p → ∀ lower entry rest,
    passedOver U entries protocol peerIp = lower ++ entry :: rest →
    entry.matches U protocol (some p) (usableIp peerIp) ≠ some false →
      entry.Says U protocol peerIp p verdict ∨
        ∃ earlier ∈ lower, earlier.Says U protocol peerIp p verdict

/-- When the forward direction allows and the answer at the probe port is generalized, the entries
passed over there do not contradict it. -/
def RangeUncontradicted (U : Text.Unicode) (forwardEntries returnEntries : List NaclEntry)
    (protocol : Option String) (port : Option Int) (peerIp : Option String) : Prop :=
  verdictAt U forwardEntries protocol port peerIp = some true →
    ∀ found, firstMatch U returnEntries protocol (some ephemeralProbePort) peerIp = some found →
      (∀ entry ∈ found, entry.unrestricted = true) →
        Uncontradicted U returnEntries protocol peerIp (found.any NaclEntry.allows)

variable (U : Text.Unicode) (protocol : Option String) (peerIp : Option String)

theorem verdict_at_eq (entries : List NaclEntry) (port : Option Int) :
    verdictAt U entries protocol port peerIp =
      firstHas (NaclEntry.matches U protocol port (usableIp peerIp)) NaclEntry.allows
        (sortEntries entries) := rfl

theorem matches_of_unrestricted {entry : NaclEntry} {p : Int} (hp : Ephemeral p)
    (hmatch : entry.matches U protocol (some ephemeralProbePort) (usableIp peerIp) = some true)
    (hall : entry.unrestricted = true) :
    entry.matches U protocol (some p) (usableIp peerIp) = some true := by
  have hrange : ∀ port : Int, Ephemeral port →
      portInRange entry.fromPort entry.toPort (some port) = true := by
    intro port hport
    obtain ⟨hlow, hhigh⟩ := hport
    simp only [NaclEntry.unrestricted, Bool.and_eq_true] at hall
    obtain ⟨hzero, htop⟩ := hall
    cases hfrom : entry.fromPort <;> cases hto : entry.toPort <;>
      simp [portInRange, hfrom, hto] at hzero htop ⊢ <;> omega
  have hprobe := hrange ephemeralProbePort (by decide)
  have hport := hrange p hp
  simp only [NaclEntry.matches, hprobe, hport] at hmatch ⊢
  exact hmatch

variable {entries : List NaclEntry} {found : Option NaclEntry}

theorem rest_settled
    (hfound : firstMatch U entries protocol (some ephemeralProbePort) peerIp = some found)
    (hall : ∀ entry ∈ found, entry.unrestricted = true) :
    ∃ rest, sortEntries entries = passedOver U entries protocol peerIp ++ rest ∧ ∀ p, Ephemeral p →
        firstHas (NaclEntry.matches U protocol (some p) (usableIp peerIp)) NaclEntry.allows rest =
          some (found.any NaclEntry.allows) := by
  simp only [firstMatch, passedOver] at hfound ⊢
  generalize sortEntries entries = sorted at hfound ⊢
  induction sorted with
  | nil =>
    cases hfound
    exact ⟨[], rfl, fun p hp => rfl⟩
  | cons entry rest ih =>
    cases hmatch : entry.matches U protocol (some ephemeralProbePort) (usableIp peerIp) with
    | none => simp [first, hmatch] at hfound
    | some matched =>
      cases matched with
      | false =>
        simp only [first, hmatch] at hfound
        obtain ⟨tail, heq, hsettled⟩ := ih hfound
        refine ⟨tail, ?_, hsettled⟩
        rw [List.takeWhile_cons_of_pos (by simp [hmatch]), List.cons_append, ← heq]
      | true =>
        simp only [first, hmatch, Option.some.injEq] at hfound
        subst hfound
        refine ⟨entry :: rest, ?_, ?_⟩
        · rw [List.takeWhile_cons_of_neg (by simp [hmatch]), List.nil_append]
        · intro p hp
          have hport := matches_of_unrestricted U protocol peerIp hp hmatch
            (hall entry rfl)
          simp [firstHas, first, hport]

theorem verdict_everywhere_iff
    (hfound : firstMatch U entries protocol (some ephemeralProbePort) peerIp = some found)
    (hall : ∀ entry ∈ found, entry.unrestricted = true) :
    (∀ p, Ephemeral p →
        verdictAt U entries protocol (some p) peerIp = some (found.any NaclEntry.allows)) ↔
      Uncontradicted U entries protocol peerIp (found.any NaclEntry.allows) := by
  obtain ⟨rest, heq, hsettled⟩ := rest_settled U protocol peerIp hfound hall
  refine forall₂_congr fun p hp => ?_
  rw [verdict_at_eq, heq]
  exact first_has_append_iff (hsettled p hp) _

/-- The status of the adapter: nothing but the return direction is left once the forward direction
allows. -/
theorem nacl_status_cases (forwardEntries returnEntries : List NaclEntry) (port : Option Int)
    (layer : String) :
    (verdictAt U forwardEntries protocol port peerIp ≠ some true ∧
      (evalNacl U forwardEntries returnEntries protocol port peerIp layer).status ≠ .allowed) ∨
    (verdictAt U forwardEntries protocol port peerIp = some true ∧
      ∃ wanted fwd, evalNacl U forwardEntries returnEntries protocol port peerIp layer =
        evalNaclReturn (firstMatch U returnEntries protocol (some ephemeralProbePort) peerIp)
          wanted fwd layer) := by
  cases hfwd : firstMatch U forwardEntries protocol port peerIp with
  | none => simp [verdictAt, evalNacl, hfwd]
  | some found =>
    cases found with
    | none => simp [verdictAt, evalNacl, hfwd]
    | some fwd =>
      by_cases hallow : fwd.action = some "allow"
      · refine .inr ⟨by simp [verdictAt, hfwd, NaclEntry.allows, hallow],
          s!"{Text.strOf protocol}/{Text.strOfInt port}", fwd, ?_⟩
        simp only [evalNacl, hfwd]
        rw [if_neg (by simp [hallow])]
      · refine .inl ⟨by simp [verdictAt, hfwd, NaclEntry.allows, hallow], ?_⟩
        simp [evalNacl, hfwd, hallow]

theorem return_status_iff (returnMatch : Option (Option NaclEntry)) (wanted : String)
    (fwd : NaclEntry) (layer : String) :
    ((evalNaclReturn returnMatch wanted fwd layer).status = .allowed ↔
      ∃ found, returnMatch = some found ∧ (∀ entry ∈ found, entry.unrestricted = true) ∧
        found.any NaclEntry.allows = true) ∧
    ((evalNaclReturn returnMatch wanted fwd layer).status = .blocked ↔
      ∃ found, returnMatch = some found ∧ (∀ entry ∈ found, entry.unrestricted = true) ∧
        found.any NaclEntry.allows = false) := by
  cases returnMatch with
  | none => simp [evalNaclReturn]
  | some found =>
    cases found with
    | none => simp [evalNaclReturn]
    | some ret =>
      by_cases hallow : ret.action = some "allow" <;>
        cases hall : ret.unrestricted <;>
          simp [evalNaclReturn, NaclEntry.allows, hallow, hall]

/-- A generalized verdict holds at every ephemeral return port exactly when no lower-numbered
return entry that misses the probe port contradicts the entry found there. -/
theorem nacl_range_sound_iff (forwardEntries returnEntries : List NaclEntry) (port : Option Int)
    (layer : String) :
    RangeSound U forwardEntries returnEntries protocol port peerIp layer ↔
      RangeUncontradicted U forwardEntries returnEntries protocol port peerIp := by
  simp only [RangeSound, RangeUncontradicted]
  rcases nacl_status_cases U protocol peerIp forwardEntries returnEntries port layer with
    ⟨hfwd, hstatus⟩ | ⟨hfwd, wanted, fwd, heq⟩
  · exact ⟨fun _ hallow => absurd hallow hfwd,
      fun _ => ⟨fun hallowed => absurd hallowed hstatus, fun _ hallow => absurd hallow hfwd⟩⟩
  · obtain ⟨hallowed, hblocked⟩ := return_status_iff
      (firstMatch U returnEntries protocol (some ephemeralProbePort) peerIp) wanted fwd layer
    rw [heq, hallowed, hblocked]
    constructor
    · intro ⟨hallow, hdeny⟩ _ found hfound hall
      rw [← verdict_everywhere_iff U protocol peerIp hfound hall]
      cases hverdict : found.any NaclEntry.allows with
      | true => exact hallow ⟨found, hfound, hall, hverdict⟩
      | false => exact hdeny ⟨found, hfound, hall, hverdict⟩ hfwd
    · intro hcond
      constructor
      · intro ⟨found, hfound, hall, hverdict⟩
        have heverywhere := (verdict_everywhere_iff U protocol peerIp hfound hall).mpr
          (hcond hfwd found hfound hall)
        rwa [hverdict] at heverywhere
      · intro ⟨found, hfound, hall, hverdict⟩ _
        have heverywhere := (verdict_everywhere_iff U protocol peerIp hfound hall).mpr
          (hcond hfwd found hfound hall)
        rwa [hverdict] at heverywhere

/-- A return list that denies ports 1024 to 2000 before it allows every port is reported as
allowed, and one that allows ports 1024 to 2000 before the catch-all as blocked. -/
theorem nacl_range_unsound :
    ¬ RangeSound .ascii [⟨100, some "-1", none, none, none, some "allow", none⟩]
        [⟨100, some "tcp", some 1024, some 2000, none, some "deny", none⟩,
          ⟨200, some "-1", none, none, none, some "allow", none⟩]
        (some "tcp") (some 443) none "nacl" ∧
      ¬ RangeSound .ascii [⟨100, some "-1", none, none, none, some "allow", none⟩]
        [⟨100, some "tcp", some 1024, some 2000, none, some "allow", none⟩,
          ⟨32767, some "-1", none, none, none, some "deny", none⟩]
        (some "tcp") (some 443) none "nacl" := by
  constructor
  · intro ⟨hallow, _⟩
    have hport := hallow (by decide) 1024 (by decide)
    revert hport
    decide
  · intro ⟨_, hdeny⟩
    have hport := hdeny (by decide) (by decide) 1024
      (by decide)
    revert hport
    decide

end AwsOps.NetworkPath

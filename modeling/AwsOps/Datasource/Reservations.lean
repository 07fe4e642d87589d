import AwsOps.Datasource.Rebuild

/-!
# The reservations of a worker

A worker holds a reservation from the statement that charged it until it calls the model or hands
the attempt back. `follows_rebuild` says that a rebuild reserves only below the cap and while it
holds none, and calls the model or hands back only while it holds one. The parts of the rebuild
that have nothing to do with reservations are quiet.
-/

namespace AwsOps.Datasource

open Quiet

open Text (Unicode)

/-- The stage of a worker is the week of the reservation it holds. It reserves when it holds none,
below the cap, and calls the model or hands back when it holds one. -/
def reservation : Protocol Statement Answer (Option IsoWeek) where
  initial := none
  allowed held
    | .reserve _ cap _ known => held = none ∧ cap = maxGenerationAttempts ∧ known < cap
    | .generate => held ≠ none
    | .release _ => held ≠ none
    | _ => True
  after held c r :=
    match c, r with
    | .reserve week _ _ _, some _ => some week
    | .reserve _ _ _ _, none => none
    | .generate, _ => none
    | .release _, _ => none
    | _, _ => held

/-- The statements that have nothing to do with reservations. -/
def Statement.plain : Statement → Bool
  | .reserve .. | .generate | .release _ => false
  | _ => true

theorem after_plain {c : Statement} (h : c.plain) (held : Option IsoWeek) (r : Answer c) :
    reservation.after held c r = held := by
  cases c <;> first | rfl | cases h

theorem allowed_plain {c : Statement} (h : c.plain) (held : Option IsoWeek) :
    reservation.allowed held c := by
  cases c <;> trivial

section Programs

variable {held : Option IsoWeek}

theorem quiet_issue {c : Statement} (h : c.plain) : Quiet reservation held (issue c) :=
  command (allowed_plain h held) (after_plain h held)

theorem quiet_legacy_budget (U : Unicode) (version : List Char) (legacy : MarkerMatch) :
    Quiet reservation held (legacyBudget U version legacy) := by
  unfold legacyBudget
  split
  · exact pure _
  · refine bind (quiet_issue rfl) fun week => ?_
    dsimp only
    split
    · exact pure _
    · exact bind (quiet_issue rfl) fun _ => pure _

theorem quiet_reserved_budget (version : List Char) :
    Quiet reservation held (reservedBudget version) := by
  refine bind (quiet_issue rfl) fun found => ?_
  split
  · exact pure _
  · refine bind (quiet_issue rfl) fun week => ?_
    exact bind (quiet_issue rfl) fun _ => pure _

theorem quiet_existing_budget (U : Unicode) (version : List Char)
    (contentVersion stored : Option (List Char)) :
    Quiet reservation held (existingBudget U version contentVersion stored) := by
  unfold existingBudget
  split
  · exact pure _
  · split
    · exact bind (quiet_legacy_budget ..) fun _ => pure _
    · exact bind (quiet_reserved_budget ..) fun _ => pure _

theorem quiet_marker_state (U : Unicode) (existing : Option (List Char)) (version : List Char) :
    Quiet reservation held (markerState U existing version) := by
  unfold markerState
  dsimp only
  split
  · exact pure _
  · split
    · exact bind (quiet_issue rfl) fun _ => pure _
    · exact pure _

theorem quiet_keep_last_good (input : Input) (rows : List Signal) (live : Bool) :
    Quiet reservation held (keepLastGoodGenerated input rows live) :=
  bind (quiet_issue rfl) fun _ => pure _

variable (input : Input) (progress : Progress)

theorem quiet_carry : Quiet reservation held (carry input progress) := by
  unfold carry
  split
  · refine bind (quiet_keep_last_good ..) fun kept => ?_
    split
    · exact pure _
    · exact pure _
  · exact pure _

theorem quiet_stored_budget (version : List Char) (existing : Option (List Char))
    (reading : MarkerReading) (progress : Progress) :
    Quiet reservation held (storedBudget version existing reading progress) := by
  unfold storedBudget
  dsimp only
  split
  · exact pure _
  · split
    · exact pure _
    · refine bind (quiet_issue rfl) fun _ => ?_
      exact bind (quiet_issue rfl) fun _ => pure _

theorem quiet_upsert (rows : List Signal) (version : List Char) :
    Quiet reservation held (upsertDiagSignals rows version) := by
  refine bind (Follows.forEach fun _ _ => quiet_issue rfl) fun _ => pure _

theorem quiet_write_stored (version : List Char) (written : List Key) (stored : Option (List Char))
    (live : Option LiveMarker) :
    Quiet reservation held (writeStored version written stored live) := by
  unfold writeStored
  split
  · exact pure _
  · exact bind (quiet_issue rfl) fun _ => pure _

theorem quiet_late_rows (keep : List Key) :
    Quiet reservation held (lateRows input progress keep) := by
  unfold lateRows
  split
  · exact bind (quiet_keep_last_good ..) fun _ => pure _
  · exact pure _

theorem quiet_sweep (keep : List Key) : Quiet reservation held (sweepDiagSignals keep) :=
  bind (quiet_issue rfl) fun _ => Follows.forEach fun _ _ => quiet_issue rfl

theorem quiet_store (stored : Option (List Char))
    (live : Option LiveMarker) : Quiet reservation held (store input progress stored live) := by
  refine bind (quiet_issue rfl) fun _ => ?_
  refine bind (quiet_upsert ..) fun _ => ?_
  refine bind (quiet_write_stored ..) fun _ => ?_
  refine bind (quiet_late_rows ..) fun late => ?_
  refine bind (quiet_sweep _) fun _ => ?_
  split
  · exact bind (quiet_issue rfl) fun _ => quiet_issue rfl
  · exact quiet_issue rfl

theorem follows_try_generate (input : Input) (hheld : held ≠ none) :
    Follows reservation held input.tryGenerate fun r w =>
      if r.2 = .disabled then w = held else w = none := by
  unfold Input.tryGenerate
  split
  · refine ⟨hheld, fun _ => ?_⟩
    dsimp only
    split <;> exact Follows.pure rfl
  · exact Follows.pure rfl

theorem follows_generate_reserved (count : Nat) (hheld : held ≠ none) :
    Follows reservation held (generateReserved input progress count) fun _ w => w = none := by
  refine Follows.bind (follows_try_generate input hheld) ?_
  rintro ⟨generated, status⟩ w hw
  dsimp only at hw ⊢
  split at hw
  · rename_i hdisabled
    rw [if_pos hdisabled, hw]
    refine follows_bind (quiet_issue rfl) fun week => ?_
    refine Follows.bind (Q := fun _ w => w = none) ⟨hheld, fun _ => rfl⟩ ?_
    exact fun _ w hw => Follows.pure hw
  · rename_i hcalled
    rw [if_neg hcalled]
    exact Follows.pure hw

theorem follows_generate :
    Follows reservation none (generate input progress) fun _ w => w = none := by
  unfold generate
  split
  · exact Follows.pure rfl
  · rename_i hbelow
    refine follows_bind (quiet_issue rfl) fun week => ?_
    refine ⟨⟨rfl, rfl, by omega⟩, fun found => ?_⟩
    cases found with
    | none => exact Follows.pure rfl
    | some count => exact follows_generate_reserved input progress count (by simp [reservation])

theorem follows_produce (input : Input) (reading : MarkerReading) :
    Follows reservation none (produce input reading) fun _ w => w = none := by
  unfold produce
  dsimp only
  split
  · exact Follows.pure rfl
  · refine Follows.bind (follows_generate input _) ?_
    rintro generated w rfl
    exact quiet_carry input generated

theorem follows_build (input : Input) (existing : Option (List Char)) (reading : MarkerReading) :
    Follows reservation none (build input existing reading) fun _ _ => True := by
  refine Follows.bind (follows_produce input reading) ?_
  rintro progress w rfl
  refine follows_bind (quiet_stored_budget ..) fun stored => ?_
  exact follows_bind (quiet_store ..) fun _ => Follows.pure trivial

/-- Every worker keeps to the protocol. -/
theorem follows_rebuild (U : Unicode) (input : Input) :
    Follows reservation none (rebuildDiagSignals U input) fun _ _ => True := by
  refine follows_bind (quiet_issue rfl) fun contentVersion => ?_
  refine follows_bind (quiet_issue rfl) fun stored => ?_
  refine follows_bind (quiet_existing_budget ..) fun existing => ?_
  split
  · exact Follows.pure trivial
  · refine follows_bind (quiet_marker_state ..) fun reading => ?_
    split
    · exact Follows.pure trivial
    · split
      · exact Follows.pure trivial
      · exact follows_build ..

end Programs

end AwsOps.Datasource

import Mathlib.Data.Finset.Card

/-!
# Following pointers

A search that follows pointers from place to place and remembers the names it has followed. It ends
at a place without a pointer, at a name that it has followed before, or at a name that leads
nowhere. Where the pointers name only finitely many names, the search ends: each hop uses up one of
them.
-/

namespace AwsOps.Chains

open List

variable {ν ρ δ : Type} [DecidableEq ν]

/-- How the search ends. -/
inductive Ending (ν δ : Type)
  | arrived
  | cycle
  | lost (target : ν) (reason : δ)

/-- Follow pointers from a place, at most as many as the fuel allows. -/
def follow (pointer : ρ → Option ν) (find : ν → Except δ ρ) :
    Nat → List ν → ρ → Option (ρ × Ending ν δ)
  | 0, _, _ => none
  | fuel + 1, seen, here =>
    match pointer here with
    | none => some (here, .arrived)
    | some target =>
      if target ∈ seen then some (here, .cycle)
      else
        match find target with
        | .error reason => some (here, .lost target reason)
        | .ok next => follow pointer find fuel (target :: seen) next

variable {pointer : ρ → Option ν} {find : ν → Except δ ρ}

/-- The hops from one place to another, with the names that were followed. -/
inductive Hops (pointer : ρ → Option ν) (find : ν → Except δ ρ) : ρ → List ν → ρ → Prop
  | here (place : ρ) : Hops pointer find place [] place
  | hop {place next there : ρ} {target : ν} {names : List ν} (hpointer : pointer place = some target)
      (hfind : find target = .ok next) (hrest : Hops pointer find next names there) :
      Hops pointer find place (target :: names) there

/-- What an ending says about the place where the search ends. -/
def Ending.Holds (pointer : ρ → Option ν) (find : ν → Except δ ρ) (followed : List ν) (there : ρ) :
    Ending ν δ → Prop
  | .arrived => pointer there = none
  | .cycle => ∃ target ∈ followed, pointer there = some target
  | .lost target reason => pointer there = some target ∧ find target = .error reason

variable {fuel : Nat} {seen : List ν}

theorem hops_of_follow {here there : ρ} {ending : Ending ν δ}
    (h : follow pointer find fuel seen here = some (there, ending)) :
    ∃ names, Hops pointer find here names there ∧ names.Nodup ∧ (∀ name ∈ names, name ∉ seen) ∧
      ending.Holds pointer find (names ++ seen) there := by
  induction fuel generalizing seen here with
  | zero => cases h
  | succ fuel ih =>
    unfold follow at h
    cases hpointer : pointer here with
    | none =>
      rw [hpointer] at h
      cases h
      exact ⟨[], .here _, nodup_nil, fun _ hname => absurd hname not_mem_nil, hpointer⟩
    | some target =>
      rw [hpointer] at h
      dsimp only at h
      by_cases hseen : target ∈ seen
      · rw [if_pos hseen] at h
        cases h
        exact ⟨[], .here _, nodup_nil, fun _ hname => absurd hname not_mem_nil,
          target, hseen, hpointer⟩
      · rw [if_neg hseen] at h
        cases hfind : find target with
        | error reason =>
          rw [hfind] at h
          cases h
          exact ⟨[], .here _, nodup_nil, fun _ hname => absurd hname not_mem_nil, hpointer, hfind⟩
        | ok next =>
          rw [hfind] at h
          obtain ⟨names, hhops, hnodup, hnew, hending⟩ := ih h
          refine ⟨target :: names, .hop hpointer hfind hhops, ?_, ?_, ?_⟩
          · exact nodup_cons.mpr
              ⟨fun hmem => hnew target hmem mem_cons_self, hnodup⟩
          · intro name hname
            rcases mem_cons.mp hname with rfl | hname
            · exact hseen
            · exact fun hmem => hnew name hname (mem_cons_of_mem _ hmem)
          · -- the names followed are the same, in another order
            cases ending with
            | arrived => exact hending
            | lost target reason => exact hending
            | cycle =>
              obtain ⟨name, hname, hback⟩ := hending
              refine ⟨name, ?_, hback⟩
              simp only [mem_append, mem_cons] at hname ⊢
              tauto

/-- More fuel changes nothing. -/
theorem follow_mono {fuel' : Nat} {here : ρ} {found : ρ × Ending ν δ}
    (h : follow pointer find fuel seen here = some found) (hle : fuel ≤ fuel') :
    follow pointer find fuel' seen here = some found := by
  induction fuel generalizing fuel' seen here with
  | zero => cases h
  | succ fuel ih =>
    obtain ⟨more, rfl⟩ : ∃ more, fuel' = more + 1 := ⟨fuel' - 1, by omega⟩
    unfold follow at h ⊢
    cases hpointer : pointer here with
    | none =>
      rw [hpointer] at h
      exact h
    | some target =>
      rw [hpointer] at h
      dsimp only at h ⊢
      by_cases hseen : target ∈ seen
      · rw [if_pos hseen] at h ⊢
        exact h
      · rw [if_neg hseen] at h ⊢
        cases hfind : find target with
        | error reason =>
          rw [hfind] at h
          exact h
        | ok next =>
          rw [hfind] at h
          exact ih h (by omega)

/-- Where the pointers name only finitely many names, the search ends when there is more fuel than
names that were not followed yet. -/
theorem follow_ends_of_unseen {targets : Finset ν}
    (hfound : ∀ name place target, find name = .ok place → pointer place = some target →
      target ∈ targets) {here : ρ} (hhere : ∀ target, pointer here = some target → target ∈ targets)
    (hfuel : (targets.filter (· ∉ seen)).card < fuel) :
    (follow pointer find fuel seen here).isSome = true := by
  induction fuel generalizing seen here with
  | zero => exact absurd hfuel (Nat.not_lt_zero _)
  | succ fuel ih =>
    unfold follow
    cases hpointer : pointer here with
    | none => rfl
    | some target =>
      dsimp only
      by_cases hseen : target ∈ seen
      · rw [if_pos hseen]
        rfl
      · rw [if_neg hseen]
        cases hfind : find target with
        | error reason => rfl
        | ok next =>
          refine ih (fun t ht => hfound target next t hfind ht) ?_
          -- following the target uses it up
          have hmem : target ∈ targets.filter (· ∉ seen) :=
            Finset.mem_filter.mpr ⟨hhere target hpointer, hseen⟩
          have hsub : targets.filter (· ∉ target :: seen) ⊆
              (targets.filter (· ∉ seen)).erase target := by
            intro name hname
            rw [Finset.mem_filter, mem_cons, not_or] at hname
            exact Finset.mem_erase.mpr ⟨hname.2.1, Finset.mem_filter.mpr ⟨hname.1, hname.2.2⟩⟩
          have hcard := Finset.card_le_card hsub
          rw [Finset.card_erase_of_mem hmem] at hcard
          have hpos := Finset.card_pos.mpr ⟨target, hmem⟩
          omega

theorem follow_ends (targets : Finset ν)
    (hfound : ∀ name place target, find name = .ok place → pointer place = some target →
      target ∈ targets) {here : ρ} (hhere : ∀ target, pointer here = some target → target ∈ targets)
    (hfuel : targets.card < fuel) : (follow pointer find fuel seen here).isSome = true :=
  follow_ends_of_unseen hfound hhere ((Finset.card_filter_le _ _).trans_lt hfuel)

end AwsOps.Chains

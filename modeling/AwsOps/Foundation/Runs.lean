import Mathlib.Logic.Basic

/-!
# Runs of a transition function

A transition function takes a state and an action to the next state, or refuses the action. What
every permitted step preserves, every permitted run preserves; a rank that every step lowers
bounds the runs.
-/

namespace AwsOps.Runs

variable {σ α : Type} (step : σ → α → Option σ)

/-- The state after the actions, if none of them is refused. -/
def run (s : σ) : List α → Option σ
  | [] => some s
  | a :: as => (step s a).bind fun t => run t as

/-- Every action is permitted in the state in which it is taken. -/
def Meets (condition : σ → α → Prop) (s : σ) : List α → Prop
  | [] => True
  | a :: as => condition s a ∧ ∀ t ∈ step s a, Meets condition t as

instance Meets.decidable (condition : σ → α → Prop) [∀ s a, Decidable (condition s a)] :
    ∀ (s : σ) (as : List α), Decidable (Meets step condition s as)
  | _, [] => isTrue trivial
  | s, a :: as =>
    have : Decidable (∀ t ∈ step s a, Meets step condition t as) :=
      match h : step s a with
      | none => isTrue nofun
      | some t =>
        have := Meets.decidable condition t as
        decidable_of_iff (Meets step condition t as)
          ⟨fun ht u hu => by cases hu; exact ht, fun hall => hall t rfl⟩
    inferInstanceAs (Decidable (condition s a ∧ ∀ t ∈ step s a, Meets step condition t as))

variable {step}

theorem run_keeps {condition : σ → α → Prop} {I : σ → Prop}
    (hstep : ∀ s a t, I s → condition s a → step s a = some t → I t) {s t : σ} {as : List α}
    (hs : I s) (hmeets : Meets step condition s as) (hrun : run step s as = some t) : I t := by
  induction as generalizing s with
  | nil =>
    cases hrun
    exact hs
  | cons a as ih =>
    obtain ⟨u, hu, hrest⟩ := Option.bind_eq_some_iff.mp hrun
    exact ih (hstep s a u hs hmeets.1 hu) (hmeets.2 u hu) hrest

/-- What every step preserves, every run preserves. -/
theorem run_always {I : σ → Prop} (hstep : ∀ s a t, I s → step s a = some t → I t) {s t : σ}
    {as : List α} (hs : I s) (hrun : run step s as = some t) : I t := by
  induction as generalizing s with
  | nil =>
    cases hrun
    exact hs
  | cons a as ih =>
    obtain ⟨u, hu, hrest⟩ := Option.bind_eq_some_iff.mp hrun
    exact ih (hstep s a u hs hu) hrest

theorem length_le_rank {I : σ → Prop} {rank : σ → Nat}
    (hstep : ∀ s a t, I s → step s a = some t → I t)
    (hrank : ∀ s a t, I s → step s a = some t → rank t < rank s) {s t : σ} {as : List α}
    (hs : I s) (hrun : run step s as = some t) : as.length ≤ rank s := by
  induction as generalizing s with
  | nil => exact Nat.zero_le _
  | cons a as ih =>
    obtain ⟨u, hu, hrest⟩ := Option.bind_eq_some_iff.mp hrun
    have hlower := hrank s a u hs hu
    have hrestLength := ih (hstep s a u hs hu) hrest
    rw [List.length_cons]
    omega

end AwsOps.Runs

import Mathlib.Data.List.Basic

/-!
# The first candidate that fits

Two searches, each for the first candidate in its own list that passes its own test. `Together` goes
through the lists side by side, up to the first candidate that one of the searches takes.
-/

namespace AwsOps.FirstFit

variable {α : Type*} (p q : α → Bool)

/-- Side by side, the candidates pass or fail together, and the first that passes is the same. -/
def Together : List α → List α → Prop
  | [], [] => True
  | c :: cs, [] => p c = false ∧ Together cs []
  | [], d :: ds => q d = false ∧ Together [] ds
  | c :: cs, d :: ds => p c = q d ∧ (p c → c = d) ∧ (p c = false → Together cs ds)

/-- Where one search passes over its candidate, it does not find the candidate of the other one
further on. -/
def Uncrossed : List α → List α → Prop
  | c :: cs, d :: ds =>
    (q d = false → ∀ d' ∈ ds, q d' → c ≠ d') ∧ (p c = false → ∀ c' ∈ cs, p c' → c' ≠ d) ∧
      Uncrossed cs ds
  | _, _ => True

variable {p q}

theorem Uncrossed.same {cs ds : List α} (c : α) (h : Uncrossed p q cs ds) :
    Uncrossed p q (c :: cs) (c :: ds) := by
  refine ⟨fun hq d _ hfits heq => ?_, fun hp d _ hfits heq => ?_, h⟩
  · rw [heq, hfits] at hq
    cases hq
  · rw [← heq, hfits] at hp
    cases hp

theorem find_eq_iff {cs ds : List α} (h : Uncrossed p q cs ds) :
    cs.find? p = ds.find? q ↔ Together p q cs ds := by
  induction cs generalizing ds with
  | nil =>
    induction ds with
    | nil => simp [Together]
    | cons d ds ih =>
      have hrest := ih trivial
      by_cases hd : q d
      · simp [Together, hd]
      · simp [Together, hd, ← hrest]
  | cons c cs ih =>
    cases ds with
    | nil =>
      have hrest : cs.find? p = [].find? q ↔ Together p q cs [] := ih (by cases cs <;> trivial)
      by_cases hc : p c
      · simp [Together, hc]
      · simp [Together, hc, ← hrest]
    | cons d ds =>
      obtain ⟨hleft, hright, hrest⟩ := h
      unfold Together
      by_cases hc : p c <;> by_cases hd : q d
      · simp [hc, hd]
      · -- The first search stops here, the second one goes on.
        have hne : ds.find? q ≠ some c := fun hfind =>
          hleft (by simpa using hd) c (List.mem_of_find?_eq_some hfind)
            (List.find?_some hfind) rfl
        simp [hc, hd, Ne.symm hne]
      · have hne : cs.find? p ≠ some d := fun hfind =>
          hright (by simpa using hc) d (List.mem_of_find?_eq_some hfind)
            (List.find?_some hfind) rfl
        simp [hc, hd, hne]
      · simp [hc, hd, ih hrest]

end AwsOps.FirstFit

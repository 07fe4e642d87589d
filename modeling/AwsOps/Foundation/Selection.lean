import Mathlib.Data.List.Induction
import Mathlib.Order.Nat

/-!
# The first candidate of highest rank

A loop that keeps the best candidate seen so far and replaces it only by a strictly better one
ends with the first candidate of highest rank. A rank of `none` is no candidate.
-/

namespace AwsOps.Selection

open List

variable {α : Type*}

/-- Keep the better one of the best candidate so far and the next item. -/
def better (rank : α → Option Nat) (best : Option (α × Nat)) (item : α) : Option (α × Nat) :=
  match rank item with
  | none => best
  | some n => if best.all fun b => decide (b.2 < n) then some (item, n) else best

/-- The candidate that the loop ends with, and its rank. -/
def firstBest (rank : α → Option Nat) (items : List α) : Option (α × Nat) :=
  items.foldl (better rank) none

/-- The item is the first one of highest rank: earlier candidates rank lower, later ones no
higher. -/
def IsFirstBest (rank : α → Option Nat) (items : List α) (item : α) (n : Nat) : Prop :=
  ∃ before after, items = before ++ item :: after ∧ rank item = some n ∧
    (∀ x ∈ before, ∀ m, rank x = some m → m < n) ∧ ∀ x ∈ after, ∀ m, rank x = some m → m ≤ n

/-- What the loop has found after some items. -/
def Found (rank : α → Option Nat) (items : List α) : Option (α × Nat) → Prop
  | none => ∀ x ∈ items, rank x = none
  | some (item, n) => IsFirstBest rank items item n

variable {rank : α → Option Nat} {items : List α}

theorem IsFirstBest.rank_le {item x : α} {n m : Nat} (h : IsFirstBest rank items item n)
    (hx : x ∈ items) (hm : rank x = some m) : m ≤ n := by
  obtain ⟨before, after, rfl, hn, hbefore, hafter⟩ := h
  rcases mem_append.mp hx with hx | hx
  · exact (hbefore x hx m hm).le
  · rcases mem_cons.mp hx with rfl | hx
    · rw [hn] at hm
      cases hm
      exact le_rfl
    · exact hafter x hx m hm

theorem IsFirstBest.mem {item : α} {n : Nat} (h : IsFirstBest rank items item n) :
    item ∈ items := by
  obtain ⟨before, after, rfl, -⟩ := h
  simp

theorem IsFirstBest.rank_eq {item : α} {n : Nat} (h : IsFirstBest rank items item n) :
    rank item = some n := by
  obtain ⟨_, _, _, hn, _⟩ := h
  exact hn

theorem found_better {best : Option (α × Nat)} (h : Found rank items best) (item : α) :
    Found rank (items ++ [item]) (better rank best item) := by
  cases hrank : rank item with
  | none =>
    simp only [better, hrank]
    cases best with
    | none =>
      intro x hx
      rcases mem_append.mp hx with hx | hx
      · exact h x hx
      · rw [mem_singleton.mp hx, hrank]
    | some b =>
      obtain ⟨before, after, rfl, hn, hbefore, hafter⟩ := h
      refine ⟨before, after ++ [item], by simp, hn, hbefore, ?_⟩
      intro x hx m hm
      rcases mem_append.mp hx with hx | hx
      · exact hafter x hx m hm
      · rw [mem_singleton.mp hx, hrank] at hm
        cases hm
  | some n =>
    simp only [better, hrank]
    split
    · rename_i hbetter
      refine ⟨items, [], rfl, hrank, ?_, by simp⟩
      intro x hx m hm
      cases best with
      | none =>
        rw [h x hx] at hm
        cases hm
      | some b =>
        have hlt : b.2 < n := by simpa using hbetter
        exact (IsFirstBest.rank_le h hx hm).trans_lt hlt
    · rename_i hbetter
      cases best with
      | none => simp at hbetter
      | some b =>
        have hle : n ≤ b.2 := by simpa using hbetter
        obtain ⟨before, after, rfl, hn, hbefore, hafter⟩ := h
        refine ⟨before, after ++ [item], by simp, hn, hbefore, ?_⟩
        intro x hx m hm
        rcases mem_append.mp hx with hx | hx
        · exact hafter x hx m hm
        · rw [mem_singleton.mp hx, hrank] at hm
          cases hm
          exact hle

theorem found_first_best (rank : α → Option Nat) (items : List α) :
    Found rank items (firstBest rank items) := by
  induction items using List.reverseRecOn with
  | nil => intro x hx; cases hx
  | append_singleton items item ih =>
    rw [firstBest, foldl_append]
    exact found_better ih item

/-- Two rankings that give each other's first best candidate the same rank have the same one. -/
theorem IsFirstBest.unique {rank' : α → Option Nat} {item item' : α} {n : Nat}
    (h : IsFirstBest rank items item n) (h' : IsFirstBest rank' items item' n)
    (hitem : rank' item = some n) (hitem' : rank item' = some n) : item = item' := by
  obtain ⟨before, after, heq, -, hbefore, -⟩ := h
  obtain ⟨before', after', heq', -, hbefore', -⟩ := h'
  rcases append_eq_append_iff.mp (heq.symm.trans heq') with
    ⟨middle, hb, hrest⟩ | ⟨middle, hb, hrest⟩
  · cases middle with
    | nil => exact (List.cons.inj hrest).1
    | cons x middle =>
      obtain ⟨rfl, -⟩ := List.cons.inj hrest
      have hlt := hbefore' item (by simp [hb]) n hitem
      omega
  · cases middle with
    | nil => exact (List.cons.inj hrest).1.symm
    | cons x middle =>
      obtain ⟨rfl, -⟩ := List.cons.inj hrest
      have hlt := hbefore item' (by simp [hb]) n hitem'
      omega

end AwsOps.Selection

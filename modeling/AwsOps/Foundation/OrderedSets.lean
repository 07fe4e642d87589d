import Mathlib.Data.List.Nodup
import Mathlib.Data.List.Infix
import Mathlib.Data.List.Perm.Subperm

/-!
# Sets in insertion order

A set as the list of its elements without repetition, in the order in which they came in. Adding
leaves what is there in front: `add_all_eq` and `prefix_add_all`.
-/

namespace AwsOps.OrderedSets

open List

variable {α : Type} [DecidableEq α]

/-- One element more, unless it is there. -/
def add (set : List α) (x : α) : List α :=
  if x ∈ set then set else set ++ [x]

/-- Several elements more, one after the other. -/
def addAll (set : List α) (more : List α) : List α :=
  more.foldl add set

/-- The set of the elements of a list. -/
def ofList (items : List α) : List α :=
  addAll [] items

variable {set more : List α} {x y : α}

@[simp] theorem mem_add : y ∈ add set x ↔ y ∈ set ∨ y = x := by
  unfold add
  split_ifs with hx
  · constructor
    · exact Or.inl
    · rintro (h | rfl)
      · exact h
      · exact hx
  · rw [mem_append, mem_singleton]

@[simp] theorem mem_add_all : y ∈ addAll set more ↔ y ∈ set ∨ y ∈ more := by
  induction more generalizing set with
  | nil => simp [addAll]
  | cons x more ih =>
    show y ∈ addAll (add set x) more ↔ _
    rw [ih, mem_add, mem_cons, or_assoc]

@[simp] theorem mem_of_list : y ∈ ofList more ↔ y ∈ more := by
  simp [ofList]

theorem nodup_add (h : set.Nodup) : (add set x).Nodup := by
  unfold add
  split_ifs with hx
  · exact h
  · exact nodup_append.mpr ⟨h, nodup_singleton x, fun a ha b hb hab =>
      hx (mem_singleton.mp hb ▸ hab ▸ ha)⟩

theorem nodup_add_all (h : set.Nodup) : (addAll set more).Nodup := by
  induction more generalizing set with
  | nil => exact h
  | cons x more ih => exact ih (nodup_add h)

theorem nodup_of_list : (ofList more).Nodup :=
  nodup_add_all nodup_nil

theorem prefix_add_all : set <+: addAll set more := by
  induction more generalizing set with
  | nil => exact prefix_rfl
  | cons x more ih =>
    have hone : set <+: add set x := by
      unfold add
      split_ifs
      · exact prefix_rfl
      · exact prefix_append set [x]
    exact hone.trans ih

theorem add_all_of_nodup (h : (set ++ more).Nodup) : addAll set more = set ++ more := by
  induction more generalizing set with
  | nil => exact (append_nil set).symm
  | cons x more ih =>
    have hx : x ∉ set := fun hx =>
      (nodup_append.mp h).2.2 x hx x mem_cons_self rfl
    have hadd : add set x = set ++ [x] := if_neg hx
    show addAll (add set x) more = set ++ x :: more
    rw [hadd, ih (by rwa [append_assoc]), append_assoc]
    rfl

theorem of_list_of_nodup (h : more.Nodup) : ofList more = more :=
  add_all_of_nodup h

theorem of_list_concat (items : List α) (x : α) : ofList (items ++ [x]) = add (ofList items) x :=
  foldl_concat ..

theorem of_list_cons (h : more.Nodup) : ofList (x :: more) = x :: more.filter (· ≠ x) := by
  have hadd : ofList (x :: more) = addAll [x] more := rfl
  have hskip : ∀ (set items : List α), x ∈ set →
      addAll set items = addAll set (items.filter (· ≠ x)) := by
    intro set items
    induction items generalizing set with
    | nil => exact fun _ => rfl
    | cons y items ih =>
      intro hx
      by_cases hy : y = x
      · rw [filter_cons_of_neg (by simpa using hy)]
        show addAll (add set y) items = _
        rw [add, if_pos (hy ▸ hx)]
        exact ih set hx
      · rw [filter_cons_of_pos (by simpa using hy)]
        show addAll (add set y) items = addAll (add set y) _
        exact ih _ (mem_add.mpr (.inl hx))
  rw [hadd, hskip [x] more mem_cons_self]
  refine add_all_of_nodup (nodup_append.mpr ⟨nodup_singleton x, h.filter _, ?_⟩)
  intro a ha b hb hab
  rw [mem_singleton] at ha
  simp only [mem_filter, decide_eq_true_eq] at hb
  exact hb.2 (hab.symm.trans ha)

end AwsOps.OrderedSets

import Mathlib.Order.Lattice

/-!
# Timelines of half-open epochs

For each key a timeline holds a value over half-open epochs `[opened, closed)`, the last of which
may still be open. The epochs of all keys stand in one list in the order in which they were
opened. `Ordered` says that the epochs of a key follow one another, and closing and opening at a
time that has not passed yet keep it. At most one epoch of a key is open, and at most one covers
a time.
-/

namespace AwsOps.Timeline

open List

/-- One epoch of a key. -/
structure Epoch (κ τ β : Type) where
  key : κ
  opened : τ
  closed : Option τ
  value : β
  deriving DecidableEq

variable {κ τ β : Type}

def Epoch.covers [LinearOrder τ] (epoch : Epoch κ τ β) (time : τ) : Bool :=
  decide (epoch.opened ≤ time) && epoch.closed.all fun closed => decide (time < closed)

/-- Close the open epochs of the selected keys. -/
def closeWhere (selected : κ → Bool) (now : τ) (epochs : List (Epoch κ τ β)) :
    List (Epoch κ τ β) :=
  epochs.map fun epoch =>
    if epoch.closed.isNone && selected epoch.key then { epoch with closed := some now } else epoch

def openEpoch (key : κ) (now : τ) (value : β) (epochs : List (Epoch κ τ β)) :
    List (Epoch κ τ β) :=
  epochs ++ [⟨key, now, none, value⟩]

section Membership

variable {selected : κ → Bool} {now : τ} {epochs : List (Epoch κ τ β)}

variable {epoch : Epoch κ τ β}

theorem mem_close_where : epoch ∈ closeWhere selected now epochs ↔
      (epoch ∈ epochs ∧ ¬ (epoch.closed = none ∧ selected epoch.key = true)) ∨
      ∃ before ∈ epochs, before.closed = none ∧ selected before.key = true ∧
        epoch = { before with closed := some now } := by
  simp only [closeWhere, mem_map]
  constructor
  · rintro ⟨before, hbefore, rfl⟩
    split
    · rename_i hclose
      simp only [Bool.and_eq_true, Option.isNone_iff_eq_none] at hclose
      exact .inr ⟨before, hbefore, hclose.1, hclose.2, rfl⟩
    · rename_i hkeep
      exact .inl ⟨hbefore, by simpa using hkeep⟩
  · rintro (⟨hepoch, hkeep⟩ | ⟨before, hbefore, hopen, hselected, rfl⟩)
    · exact ⟨epoch, hepoch, if_neg (by simpa using hkeep)⟩
    · exact ⟨before, hbefore, if_pos (by simp [hopen, hselected])⟩

theorem closed_of_mem_close_where (h : epoch ∈ closeWhere selected now epochs)
    (hselected : selected epoch.key = true) :
    ∃ closed, epoch.closed = some closed := by
  obtain ⟨-, hkeep⟩ | ⟨before, -, -, -, rfl⟩ := mem_close_where.mp h
  · exact Option.ne_none_iff_exists'.mp fun hnone => hkeep ⟨hnone, hselected⟩
  · exact ⟨now, rfl⟩

theorem mem_open_epoch {key : κ} {value : β} :
    epoch ∈ openEpoch key now value epochs ↔ epoch ∈ epochs ∨ epoch = ⟨key, now, none, value⟩ := by
  simp [openEpoch]

end Membership

variable [LinearOrder τ]

/-- `later` begins after `earlier` and not before `earlier` was closed, if they share a key. -/
def Follows (earlier later : Epoch κ τ β) : Prop :=
  earlier.key = later.key →
    earlier.opened < later.opened ∧ ∃ closed, earlier.closed = some closed ∧ closed ≤ later.opened

/-- The epochs of each key follow one another and end no earlier than they begin. -/
structure Ordered (epochs : List (Epoch κ τ β)) : Prop where
  ends : ∀ epoch ∈ epochs, ∀ closed, epoch.closed = some closed → epoch.opened ≤ closed
  follows : epochs.Pairwise Follows

/-- Nothing in the timeline is later than the time. -/
def UpTo (now : τ) (epochs : List (Epoch κ τ β)) : Prop :=
  ∀ epoch ∈ epochs, epoch.opened ≤ now ∧ ∀ closed, epoch.closed = some closed → closed ≤ now

theorem covers_iff {epoch : Epoch κ τ β} {time : τ} : epoch.covers time = true ↔
      epoch.opened ≤ time ∧ ∀ closed, epoch.closed = some closed → time < closed := by
  simp only [Epoch.covers, Bool.and_eq_true, decide_eq_true_eq]
  refine and_congr_right fun _ => ?_
  cases epoch.closed <;> simp

theorem Ordered.nil : Ordered ([] : List (Epoch κ τ β)) :=
  ⟨fun _ h => (not_mem_nil h).elim, .nil⟩

variable {epochs : List (Epoch κ τ β)} {α : Type}

theorem UpTo.mono {now later : τ} (h : UpTo now epochs) (hle : now ≤ later) : UpTo later epochs :=
  fun epoch hepoch => ⟨(h epoch hepoch).1.trans hle, fun closed hclosed =>
    ((h epoch hepoch).2 closed hclosed).trans hle⟩

theorem eq_or_rel_of_pairwise {R : α → α → Prop} {l : List α} (h : l.Pairwise R) {a b : α}
    (ha : a ∈ l) (hb : b ∈ l) : a = b ∨ R a b ∨ R b a := by
  induction h with
  | nil => cases ha
  | cons hhead _ ih =>
    obtain heqa | ha := mem_cons.mp ha
    · obtain heqb | hb := mem_cons.mp hb
      · exact .inl (heqa.trans heqb.symm)
      · exact .inr (.inl (heqa ▸ hhead b hb))
    · obtain heqb | hb := mem_cons.mp hb
      · exact .inr (.inr (heqb ▸ hhead a ha))
      · exact ih ha hb

theorem exists_latest [Nonempty τ] (time : α → τ) (l : List α) : ∃ now, ∀ a ∈ l, time a ≤ now := by
  induction l with
  | nil =>
    obtain ⟨now⟩ := ‹Nonempty τ›
    exact ⟨now, fun _ h => (not_mem_nil h).elim⟩
  | cons a rest ih =>
    obtain ⟨now, hnow⟩ := ih
    refine ⟨max (time a) now, fun b hb => ?_⟩
    obtain rfl | hb := mem_cons.mp hb
    · exact le_max_left _ _
    · exact (hnow b hb).trans (le_max_right _ _)

theorem length_le_one_of_pairwise {l : List α} (h : l.Pairwise fun _ _ => False) :
    l.length ≤ 1 := by
  match l, h with
  | [], _ => exact Nat.zero_le 1
  | [_], _ => exact Nat.le_refl 1
  | _ :: second :: _, .cons hfirst _ => exact (hfirst second mem_cons_self).elim

theorem Ordered.covers_unique (h : Ordered epochs) {a b : Epoch κ τ β} (ha : a ∈ epochs)
    (hb : b ∈ epochs) (hkey : a.key = b.key) {time : τ} (hcoversA : a.covers time = true)
    (hcoversB : b.covers time = true) : a = b := by
  have hno : ∀ x y : Epoch κ τ β, x.key = y.key → x.covers time = true → y.covers time = true →
      ¬ Follows x y := by
    intro x y hxy hx hy hfollows
    obtain ⟨-, closed, hclosed, hle⟩ := hfollows hxy
    exact absurd ((covers_iff.mp hx).2 closed hclosed)
      (not_lt.mpr (hle.trans (covers_iff.mp hy).1))
  obtain heq | hab | hba := eq_or_rel_of_pairwise h.follows ha hb
  · exact heq
  · exact absurd hab (hno a b hkey hcoversA hcoversB)
  · exact absurd hba (hno b a hkey.symm hcoversB hcoversA)

theorem Ordered.open_unique (h : Ordered epochs) {a b : Epoch κ τ β} (ha : a ∈ epochs)
    (hb : b ∈ epochs) (hkey : a.key = b.key) (hopenA : a.closed = none)
    (hopenB : b.closed = none) : a = b := by
  obtain heq | hab | hba := eq_or_rel_of_pairwise h.follows ha hb
  · exact heq
  · obtain ⟨-, closed, hclosed, -⟩ := hab hkey
    rw [hopenA] at hclosed
    cases hclosed
  · obtain ⟨-, closed, hclosed, -⟩ := hba hkey.symm
    rw [hopenB] at hclosed
    cases hclosed

section Close

variable {selected : κ → Bool} {now : τ}

theorem UpTo.not_covers_now (h : UpTo now epochs) {epoch : Epoch κ τ β} (hepoch : epoch ∈ epochs)
    (hclosed : epoch.closed ≠ none) : epoch.covers now = false := by
  obtain ⟨closed, hsome⟩ := Option.ne_none_iff_exists'.mp hclosed
  by_contra hcovers
  have hcovers : epoch.covers now = true := by simpa using hcovers
  exact absurd ((covers_iff.mp hcovers).2 closed hsome) (not_lt.mpr ((h epoch hepoch).2 closed hsome))

theorem before_close_where {epoch : Epoch κ τ β} (h : epoch ∈ closeWhere selected now epochs) :
    ∃ before ∈ epochs, before.key = epoch.key ∧ before.opened = epoch.opened ∧
      before.value = epoch.value ∧ ∀ time, epoch.covers time = true → before.covers time = true := by
  obtain ⟨hmem, -⟩ | ⟨before, hbefore, hopen, -, rfl⟩ := mem_close_where.mp h
  · exact ⟨epoch, hmem, rfl, rfl, rfl, fun _ => id⟩
  · refine ⟨before, hbefore, rfl, rfl, rfl, fun time hcovers => covers_iff.mpr
      ⟨(covers_iff.mp hcovers).1, fun closed hclosed => ?_⟩⟩
    rw [hopen] at hclosed
    cases hclosed

theorem UpTo.close_where (h : UpTo now epochs) : UpTo now (closeWhere selected now epochs) := by
  intro epoch hepoch
  obtain ⟨hmem, -⟩ | ⟨before, hbefore, -, -, rfl⟩ := mem_close_where.mp hepoch
  · exact h epoch hmem
  · refine ⟨(h before hbefore).1, fun closed hclosed => ?_⟩
    cases hclosed
    exact le_refl _

theorem Ordered.close_where (h : Ordered epochs) (hnow : UpTo now epochs) :
    Ordered (closeWhere selected now epochs) := by
  refine ⟨fun epoch hepoch closed hclosed => ?_, ?_⟩
  · obtain ⟨hmem, -⟩ | ⟨before, hbefore, -, -, rfl⟩ := mem_close_where.mp hepoch
    · exact h.ends epoch hmem closed hclosed
    · cases hclosed
      exact (hnow before hbefore).1
  · refine pairwise_map.mpr (h.follows.imp ?_)
    intro earlier later hfollows hkey
    have hkey' : earlier.key = later.key := by
      revert hkey
      split <;> split <;> exact id
    obtain ⟨hlt, closed, hclosed, hle⟩ := hfollows hkey'
    have hkeep : (earlier.closed.isNone && selected earlier.key) = false := by simp [hclosed]
    simp only [hkeep, Bool.false_eq_true, if_false]
    split
    · exact ⟨hlt, closed, hclosed, hle⟩
    · exact ⟨hlt, closed, hclosed, hle⟩

end Close

section Open

variable {key : κ} {now : τ} {value : β}

theorem UpTo.open_epoch (h : UpTo now epochs) : UpTo now (openEpoch key now value epochs) := by
  intro epoch hepoch
  obtain hmem | rfl := mem_open_epoch.mp hepoch
  · exact h epoch hmem
  · exact ⟨le_refl _, fun closed hclosed => by cases hclosed⟩

theorem Ordered.open_epoch (h : Ordered epochs) (hnow : UpTo now epochs)
    (hopen : ∀ epoch ∈ epochs, epoch.key = key → epoch.closed ≠ none)
    (hfresh : ∀ epoch ∈ epochs, epoch.key = key → epoch.opened ≠ now) :
    Ordered (openEpoch key now value epochs) := by
  refine ⟨fun epoch hepoch closed hclosed => ?_, pairwise_append.mpr
    ⟨h.follows, pairwise_singleton _ _, fun earlier hearlier later hlater hkey => ?_⟩⟩
  · obtain hmem | rfl := mem_open_epoch.mp hepoch
    · exact h.ends epoch hmem closed hclosed
    · cases hclosed
  · obtain rfl := mem_singleton.mp hlater
    obtain ⟨closed, hclosed⟩ := Option.ne_none_iff_exists'.mp (hopen earlier hearlier hkey)
    exact ⟨lt_of_le_of_ne (hnow earlier hearlier).1 (hfresh earlier hearlier hkey), closed,
      hclosed, (hnow earlier hearlier).2 closed hclosed⟩

end Open

end AwsOps.Timeline

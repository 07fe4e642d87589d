import Mathlib.Data.List.Forall2

/-!
# Computations that may fail

What is known of the steps of a computation that has succeeded.
-/

namespace AwsOps

open List

variable {ε α β : Type}

variable {f : α → Except ε β} {items : List α} {results : List β}

theorem bind_eq_ok {x : Except ε α} {b : β} : (x >>= f) = .ok b ↔ ∃ a, x = .ok a ∧ f a = .ok b := by
  cases x <;> simp [bind, Except.bind]

theorem ok_bind (a : α) (f : α → Except ε β) : ((Except.ok a : Except ε α) >>= f) = f a :=
  rfl

theorem pure_eq_ok {a b : α} : (pure a : Except ε α) = .ok b ↔ a = b :=
  ⟨fun h => Except.ok.inj h, fun h => congrArg Except.ok h⟩

theorem mapM_ok
    (h : items.mapM f = .ok results) : List.Forall₂ (fun a b => f a = .ok b) items results := by
  induction items generalizing results with
  | nil =>
    rw [mapM_nil] at h
    rw [← pure_eq_ok.mp h]
    exact .nil
  | cons a rest ih =>
    rw [mapM_cons] at h
    obtain ⟨b, hb, h⟩ := bind_eq_ok.mp h
    obtain ⟨bs, hbs, h⟩ := bind_eq_ok.mp h
    rw [← pure_eq_ok.mp h]
    exact .cons hb (ih hbs)

theorem mapM_total (h : ∀ a ∈ items, ∃ b, f a = .ok b) : ∃ results, items.mapM f = .ok results := by
  induction items with
  | nil => exact ⟨[], rfl⟩
  | cons a rest ih =>
    obtain ⟨b, hb⟩ := h a mem_cons_self
    obtain ⟨bs, hbs⟩ := ih fun x hx => h x (mem_cons_of_mem a hx)
    exact ⟨b :: bs, by rw [mapM_cons, hb, ok_bind, hbs, ok_bind]; rfl⟩

/-- All items can be computed when each of them can, and then to what is known of each. -/
theorem mapM_eq_ok {g : α → β} {p : α → Prop} (h : ∀ a b, f a = .ok b ↔ p a ∧ b = g a) :
    items.mapM f = .ok results ↔ (∀ a ∈ items, p a) ∧ results = items.map g := by
  induction items generalizing results with
  | nil =>
    rw [mapM_nil, pure_eq_ok]
    simp
  | cons a rest ih =>
    rw [mapM_cons]
    simp only [bind_eq_ok, h, ih, pure_eq_ok, mem_cons, forall_eq_or_imp, map_cons]
    constructor
    · rintro ⟨_, ⟨ha, rfl⟩, _, ⟨hrest, rfl⟩, rfl⟩
      exact ⟨⟨ha, hrest⟩, rfl⟩
    · rintro ⟨⟨ha, hrest⟩, rfl⟩
      exact ⟨_, ⟨ha, rfl⟩, _, ⟨hrest, rfl⟩, rfl⟩

theorem forall₂_mem_left {R : α → β → Prop} {as : List α} {bs : List β} (h : List.Forall₂ R as bs) :
    ∀ a ∈ as, ∃ b ∈ bs, R a b := by
  intro a ha
  induction h with
  | nil => cases ha
  | cons hb _ ih =>
    rcases mem_cons.mp ha with rfl | ha
    · exact ⟨_, mem_cons_self, hb⟩
    · obtain ⟨b, hmem, hb⟩ := ih ha
      exact ⟨b, mem_cons_of_mem _ hmem, hb⟩

theorem forall₂_mem_right {R : α → β → Prop} {as : List α} {bs : List β}
    (h : List.Forall₂ R as bs) : ∀ b ∈ bs, ∃ a ∈ as, R a b :=
  forall₂_mem_left h.flip

theorem result_of_mapM (h : items.mapM f = .ok results) : ∀ a ∈ items, ∃ b ∈ results, f a = .ok b :=
  forall₂_mem_left (mapM_ok h)

theorem source_of_mapM (h : items.mapM f = .ok results) : ∀ b ∈ results, ∃ a ∈ items, f a = .ok b :=
  forall₂_mem_right (mapM_ok h)

end AwsOps

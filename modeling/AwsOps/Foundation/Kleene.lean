import Mathlib.Data.List.Perm.Basic

/-!
# Three-valued answers from incomplete evidence

An answer that may be missing is an `Option`: `some x` is definite and `none` means that the
evidence does not decide it. `Refines a b` says that `b` may answer what `a` leaves open and
repeats what `a` answers. `any` is the existential over a list in which one definite witness
decides the question and one open member otherwise leaves it open; `first` is the first-match
search that stops at the first open member. Both are monotone in the evidence, which is what
an evaluation under missing data has to preserve.
-/

namespace AwsOps.Kleene

open List Option

variable {α β : Type*}

/-- `Refines a b` says that every definite answer of `a` is also the answer of `b`. -/
def Refines (a b : Option β) : Prop :=
  ∀ x, a = some x → b = some x

@[refl] theorem Refines.refl (a : Option β) : Refines a a :=
  fun _ h => h

@[simp] theorem Refines.of_none (a : Option β) : Refines none a :=
  fun _ h => by cases h

theorem Refines.bind {a b : Option α} {f g : α → Option β} (hab : Refines a b)
    (hfg : ∀ x, Refines (f x) (g x)) : Refines (a.bind f) (b.bind g) := by
  intro y hy
  obtain ⟨x, hx, hfx⟩ := bind_eq_some_iff.mp hy
  exact bind_eq_some_iff.mpr ⟨x, hab x hx, hfg x y hfx⟩

theorem Refines.map {a b : Option α} (f : α → β) (h : Refines a b) :
    Refines (a.map f) (b.map f) := by
  intro y hy
  obtain ⟨x, hx, rfl⟩ := map_eq_some_iff.mp hy
  rw [h x hx, map_some]

/-- Conjunction read from the left: a definite `false` or an open answer ends it. -/
def both (a b : Option Bool) : Option Bool :=
  a.bind fun x => if x then b else some false

theorem Refines.both {a a' b b' : Option Bool} (ha : Refines a a') (hb : Refines b b') :
    Refines (both a b) (both a' b') := by
  refine Refines.bind ha fun x => ?_
  cases x with
  | false => exact .refl _
  | true => exact hb

/-- Disjunction of two answers: a definite `true` decides, and otherwise an open answer leaves it
open. -/
def either : Option Bool → Option Bool → Option Bool
  | some true, _ => some true
  | _, some true => some true
  | some false, some false => some false
  | _, _ => none

theorem Refines.either {a a' b b' : Option Bool} (ha : Refines a a') (hb : Refines b b') :
    Refines (either a b) (either a' b') := by
  intro x hx
  match a, b, hx with
  | some true, _, hx => rw [ha true rfl]; simpa [Kleene.either] using hx
  | some false, some true, hx =>
    rw [ha false rfl, hb true rfl]
    exact hx
  | some false, some false, hx =>
    rw [ha false rfl, hb false rfl]
    exact hx
  | none, some true, hx =>
    rw [hb true rfl]
    cases a' with
    | none => exact hx
    | some c => cases c <;> exact hx

/-- Whether some member answers `true`: a definite `true` decides, and otherwise an open member
leaves the whole question open. -/
def any (f : α → Option Bool) : List α → Option Bool
  | [] => some false
  | a :: rest =>
    match f a with
    | some true => some true
    | some false => any f rest
    | none => if any f rest = some true then some true else none

variable {f : α → Option Bool} {l : List α}

theorem any_eq_true_iff : any f l = some true ↔ ∃ a ∈ l, f a = some true := by
  induction l with
  | nil => simp [any]
  | cons a rest ih =>
    cases ha : f a with
    | none =>
      by_cases hrest : any f rest = some true
      · simpa [any, ha, hrest] using ih.mp hrest
      · simpa [any, ha, hrest] using fun x hx => fun h => hrest (ih.mpr ⟨x, hx, h⟩)
    | some b => cases b <;> simp [any, ha, ih]

theorem any_eq_false_iff : any f l = some false ↔ ∀ a ∈ l, f a = some false := by
  induction l with
  | nil => simp [any]
  | cons a rest ih =>
    cases ha : f a with
    | none => by_cases hrest : any f rest = some true <;> simp [any, ha, hrest]
    | some b => cases b <;> simp [any, ha, ih]

theorem Refines.any {g : α → Option Bool}
    (h : ∀ a ∈ l, Refines (f a) (g a)) : Refines (any f l) (any g l) := by
  intro b hb
  cases b with
  | true =>
    obtain ⟨a, ha, hf⟩ := any_eq_true_iff.mp hb
    exact any_eq_true_iff.mpr ⟨a, ha, h a ha true hf⟩
  | false =>
    have hall := any_eq_false_iff.mp hb
    exact any_eq_false_iff.mpr fun a ha => h a ha false (hall a ha)

/-- The first member that matches, where an open member before it leaves the search open. -/
def first (f : α → Option Bool) : List α → Option (Option α)
  | [] => some none
  | a :: rest =>
    match f a with
    | some true => some (some a)
    | some false => first f rest
    | none => none

theorem Refines.first {g : α → Option Bool}
    (h : ∀ a ∈ l, Refines (f a) (g a)) : Refines (first f l) (first g l) := by
  induction l with
  | nil => exact .refl _
  | cons a rest ih =>
    have hrest := ih fun x hx => h x (mem_cons_of_mem a hx)
    have ha := h a mem_cons_self
    cases hf : f a with
    | none => simp [Kleene.first, hf]
    | some b =>
      have hg := ha b hf
      cases b <;> simp only [Kleene.first, hf, hg]
      · exact hrest
      · exact .refl _

/-- The member the search stops at has the property, when it stops at a member. -/
def firstHas (f : α → Option Bool) (v : α → Bool) (l : List α) : Option Bool :=
  (first f l).map fun found => found.any v

/-- Members put before a list whose search is settled do not change its answer exactly when each
of them that is not passed over repeats the answer, or comes after a member that does. -/
theorem first_has_append_iff {v : α → Bool} {t : List α} {b : Bool} (ht : firstHas f v t = some b)
    (l : List α) :
    firstHas f v (l ++ t) = some b ↔ ∀ lower a rest, l = lower ++ a :: rest → f a ≠ some false →
        (f a = some true ∧ v a = b) ∨ ∃ x ∈ lower, f x = some true ∧ v x = b := by
  induction l with
  | nil => simp [ht]
  | cons head l ih =>
    have hcons : firstHas f v (head :: l ++ t) =
        match f head with
        | some true => some (v head)
        | some false => firstHas f v (l ++ t)
        | none => none := by
      cases hf : f head with
      | none => simp [firstHas, first, hf]
      | some matched => cases matched <;> simp [firstHas, first, hf]
    rw [hcons]
    cases hf : f head with
    | none =>
      simp only [reduceCtorEq, false_iff]
      intro hall
      have hhead := hall [] head l rfl (by simp [hf])
      simp [hf] at hhead
    | some matched =>
      cases matched with
      | true =>
        constructor
        · intro hv lower a rest heq hfa
          have hv : v head = b := by simpa using hv
          cases lower with
          | nil =>
            obtain ⟨rfl, rfl⟩ := List.cons.inj heq
            exact .inl ⟨hf, hv⟩
          | cons y lower =>
            obtain ⟨rfl, -⟩ := List.cons.inj heq
            exact .inr ⟨head, mem_cons_self, hf, hv⟩
        · intro hall
          have hhead := hall [] head l rfl (by simp [hf])
          simpa [hf] using hhead
      | false =>
        show firstHas f v (l ++ t) = some b ↔ _
        rw [ih]
        constructor
        · intro hall lower a rest heq hfa
          cases lower with
          | nil =>
            obtain ⟨rfl, rfl⟩ := List.cons.inj heq
            exact absurd hf hfa
          | cons y lower =>
            obtain ⟨rfl, rfl⟩ := List.cons.inj heq
            refine (hall lower a rest rfl hfa).imp id ?_
            intro ⟨x, hx, hsays⟩
            exact ⟨x, mem_cons_of_mem _ hx, hsays⟩
        · intro hall lower a rest heq hfa
          refine (hall (head :: lower) a rest (by rw [heq]; rfl) hfa).imp id ?_
          intro ⟨x, hx, hmatch, hsays⟩
          rcases mem_cons.mp hx with rfl | hx
          · simp [hf] at hmatch
          · exact ⟨x, hx, hmatch, hsays⟩

/-- What one member of a search contributes: a witness, nothing, or a reason why it cannot be
decided. -/
inductive Finding (β ρ : Type*) where
  | hit (witness : β)
  | miss
  | unclear (reason : ρ)

def Finding.answer {ρ : Type*} : Finding β ρ → Option Bool
  | .hit _ => some true
  | .miss => some false
  | .unclear _ => none

/-- Search for the first witness, remembering the reasons passed on the way. -/
def search {ρ : Type*} (f : α → Finding β ρ) : List α → Option β × List ρ
  | [] => (none, [])
  | a :: rest =>
    match f a with
    | .hit witness => (some witness, [])
    | .miss => search f rest
    | .unclear reason =>
      let (witness, reasons) := search f rest
      (witness, reason :: reasons)

/-- The answer of a completed search: a witness, or else a reason, decides it. -/
def conclusion {ρ : Type*} : Option β × List ρ → Option Bool
  | (some _, _) => some true
  | (none, []) => some false
  | (none, _ :: _) => none

theorem conclusion_search {ρ : Type*} (f : α → Finding β ρ) (l : List α) :
    conclusion (search f l) = any (fun a => (f a).answer) l := by
  induction l with
  | nil => rfl
  | cons a rest ih =>
    cases hf : f a with
    | hit witness => simp [search, hf, conclusion, any, Finding.answer]
    | miss => simpa [search, hf, any, Finding.answer] using ih
    | unclear reason =>
      have hsearch : search f (a :: rest) =
          ((search f rest).1, reason :: (search f rest).2) := by simp [search, hf]
      have hany : any (fun a => (f a).answer) (a :: rest) =
          if any (fun a => (f a).answer) rest = some true then some true else none := by
        rw [any, hf]
        rfl
      rw [hsearch, hany, ← ih]
      obtain ⟨witness, reasons⟩ := search f rest
      cases witness with
      | some witness => simp [conclusion]
      | none => cases reasons <;> simp [conclusion]

/-- A flag that each step of a fold raises on certain entries is raised at the end exactly when it
was before or some entry raises it. -/
theorem foldl_flag {σ : Type*} {step : σ → α → σ} (flag : σ → Bool) {raises : α → Bool}
    (h : ∀ s a, flag (step s a) = (flag s || raises a)) (l : List α) (s : σ) :
    flag (l.foldl step s) = (flag s || l.any raises) := by
  induction l generalizing s with
  | nil => simp
  | cons a rest ih => rw [foldl_cons, ih, h, any_cons, Bool.or_assoc]

end AwsOps.Kleene

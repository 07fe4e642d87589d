import AwsOps.Foundation.Text

/-!
# Patterns taken step by step

A pattern of fixed words and runs of characters, each of which ends where the next one begins, with a
mark behind it. It is searched from the left, at the beginnings of words. A character that no step
takes cuts the search in two (`search_cut`), and without the mark there is no match.
-/

namespace AwsOps.Scans

open List Option

/-- A step of a pattern: a word, or a run of characters, which may have to be non-empty. -/
inductive Step
  | word (letters : List Char)
  | run (least : Nat) (member : Char → Bool)

/-- What a step takes at the start of a text, and what is behind it. -/
def Step.take : Step → List Char → Option (List Char × List Char)
  | .word letters, text =>
    if letters.isPrefixOf text then some (letters, text.drop letters.length) else none
  | .run least member, text =>
    if least ≤ (text.takeWhile member).length then
      some (text.takeWhile member, text.dropWhile member)
    else none

def takeSteps : List Step → List Char → Option (List Char × List Char)
  | [], text => some ([], text)
  | step :: steps, text =>
    (step.take text).bind fun (taken, rest) =>
      (takeSteps steps rest).map fun (more, rest) => (taken ++ more, rest)

/-- A pattern: a word, steps and the mark that stands behind them. -/
structure Pattern where
  head : Char
  tail : List Char
  steps : List Step
  mark : Char

namespace Pattern

def all (p : Pattern) : List Step :=
  .word (p.head :: p.tail) :: p.steps

/-- What the pattern takes before its mark, if it matches at the start of the text. -/
def here (p : Pattern) (text : List Char) : Option (List Char) :=
  (takeSteps p.all text).bind fun (taken, rest) =>
    if rest.head? = some p.mark then some taken else none

end Pattern

section Search

variable (isWord : Char → Bool)

/-- The leftmost match that does not stand behind a word character: what is before it and what it
takes. The character before the text is given. -/
def search (p : Pattern) : Option Char → List Char → Option (List Char × List Char)
  | _, [] => none
  | before, c :: rest =>
    match if before.any isWord then none else p.here (c :: rest) with
    | some taken => some ([], taken)
    | none => (search p (some c) rest).map fun (front, taken) => (c :: front, taken)

end Search

/-- A step takes no such character. -/
def Step.Stops (x : Char) : Step → Prop
  | .word letters => x ∉ letters
  | .run _ member => member x = false

/-- No step of the pattern takes such a character. -/
def Pattern.Stops (p : Pattern) (x : Char) : Prop :=
  ∀ step ∈ p.all, step.Stops x

instance (x : Char) (step : Step) : Decidable (step.Stops x) := by
  unfold Step.Stops
  split <;> infer_instance

instance (p : Pattern) (x : Char) : Decidable (p.Stops x) :=
  inferInstanceAs (Decidable (∀ step ∈ p.all, step.Stops x))

variable {isWord : Char → Bool} {p : Pattern} {x : Char}

/-! ## Steps before a stop -/

variable {member : Char → Bool} {steps : List Step} {before : Option Char}

theorem dropWhile_stop (h : member x = false) (a b : List Char) :
    (a ++ x :: b).dropWhile member = a.dropWhile member ++ x :: b := by
  induction a with
  | nil => rw [nil_append, dropWhile_cons_of_neg (by simp [h])]; rfl
  | cons c a ih =>
    rw [cons_append, dropWhile_cons, dropWhile_cons]
    split
    · exact ih
    · rfl

theorem takeWhile_stop (h : member x = false) (a b : List Char) :
    (a ++ x :: b).takeWhile member = a.takeWhile member := by
  induction a with
  | nil => rw [nil_append, takeWhile_cons_of_neg (by simp [h])]; rfl
  | cons c a ih =>
    rw [cons_append, takeWhile_cons, takeWhile_cons]
    split
    · rw [ih]
    · rfl

theorem isPrefixOf_stop {letters : List Char} (h : x ∉ letters) (a b : List Char) :
    letters.isPrefixOf (a ++ x :: b) = letters.isPrefixOf a := by
  induction letters generalizing a with
  | nil => simp
  | cons k letters ih =>
    rw [mem_cons, not_or] at h
    cases a with
    | nil => simp [List.isPrefixOf, Ne.symm h.1]
    | cons c a => simp only [cons_append, List.isPrefixOf, ih h.2]

theorem Step.take_stop {step : Step} (h : step.Stops x) (a b : List Char) :
    step.take (a ++ x :: b) = (step.take a).map fun (taken, rest) => (taken, rest ++ x :: b) := by
  cases step with
  | word letters =>
    simp only [Step.take]
    rw [isPrefixOf_stop h]
    split
    · next hprefix =>
        obtain ⟨rest, rfl⟩ := isPrefixOf_iff_prefix.mp hprefix
        rw [append_assoc, drop_left, drop_left]
        rfl
    · rfl
  | run least member =>
    simp only [Step.take]
    rw [takeWhile_stop h, dropWhile_stop h]
    split <;> rfl

theorem take_steps_stop (h : ∀ step ∈ steps, step.Stops x) (a b : List Char) :
    takeSteps steps (a ++ x :: b) =
      (takeSteps steps a).map fun (taken, rest) => (taken, rest ++ x :: b) := by
  induction steps generalizing a with
  | nil => rfl
  | cons step steps ih =>
    unfold takeSteps
    rw [Step.take_stop (h step mem_cons_self)]
    cases step.take a with
    | none => rfl
    | some r =>
      obtain ⟨taken, rest⟩ := r
      show Option.map _ (takeSteps steps (rest ++ x :: b)) = Option.map _ (Option.map _ _)
      rw [ih fun step hstep => h step (mem_cons_of_mem _ hstep)]
      cases takeSteps steps rest <;> rfl

theorem take_steps_append {text taken rest : List Char}
    (h : takeSteps steps text = some (taken, rest)) : text = taken ++ rest := by
  induction steps generalizing text taken with
  | nil =>
    cases h
    rfl
  | cons step steps ih =>
    obtain ⟨⟨first, middle⟩, hfirst, h⟩ := bind_eq_some_iff.mp h
    obtain ⟨⟨more, last⟩, hmore, h⟩ := map_eq_some_iff.mp h
    obtain ⟨rfl, rfl⟩ := Prod.mk.inj h
    have hsplit : text = first ++ middle := by
      cases step with
      | word letters =>
        simp only [Step.take] at hfirst
        split at hfirst
        · next hprefix =>
            cases hfirst
            obtain ⟨tail, rfl⟩ := isPrefixOf_iff_prefix.mp hprefix
            rw [drop_left]
        · cases hfirst
      | run least member =>
        simp only [Step.take] at hfirst
        split at hfirst
        · cases hfirst
          exact takeWhile_append_dropWhile.symm
        · cases hfirst
    rw [hsplit, ih hmore, append_assoc]

/-! ## One place -/

theorem here_stop (h : p.Stops x) (a b : List Char) : p.here (a ++ x :: b) = p.here (a ++ [x]) := by
  unfold Pattern.here
  rw [take_steps_stop h, take_steps_stop h]
  cases takeSteps p.all a with
  | none => rfl
  | some r =>
    obtain ⟨taken, rest⟩ := r
    cases rest <;> rfl

theorem here_at_stop (h : p.Stops x) (b : List Char) : p.here (x :: b) = none := by
  have hhead : x ≠ p.head := fun heq =>
    h (.word (p.head :: p.tail)) mem_cons_self (heq ▸ mem_cons_self)
  unfold Pattern.here Pattern.all takeSteps Step.take
  simp [Ne.symm hhead]

theorem here_append {text taken : List Char} (h : p.here text = some taken) :
    ∃ rest, text = taken ++ p.mark :: rest := by
  obtain ⟨⟨taken', rest⟩, htake, h⟩ := bind_eq_some_iff.mp h
  dsimp only at h
  split at h
  · next hmark =>
      cases h
      cases rest with
      | nil => cases hmark
      | cons c rest =>
        cases hmark
        exact ⟨rest, take_steps_append htake⟩
  · cases h

/-! ## The search -/

theorem search_append {text front taken : List Char}
    (h : search isWord p before text = some (front, taken)) :
    ∃ rest, text = front ++ (taken ++ p.mark :: rest) := by
  induction text generalizing before front with
  | nil => cases h
  | cons c text ih =>
    unfold search at h
    split at h
    · next taken' hhere =>
        cases h
        split at hhere
        · cases hhere
        · exact here_append hhere
    · obtain ⟨⟨front', taken'⟩, hmore, h⟩ := map_eq_some_iff.mp h
      cases h
      obtain ⟨rest, hrest⟩ := ih hmore
      exact ⟨rest, by rw [hrest]; rfl⟩

theorem search_of_no_mark {text : List Char} (h : p.mark ∉ text) :
    search isWord p before text = none := by
  cases hsearch : search isWord p before text with
  | none => rfl
  | some r =>
    obtain ⟨rest, hrest⟩ := search_append hsearch
    rw [hrest] at h
    simp at h

theorem search_before {other : Option Char} (h : before.any isWord = other.any isWord)
    (text : List Char) : search isWord p before text = search isWord p other text := by
  cases text with
  | nil => rfl
  | cons c text => rw [search, search, h]

theorem search_cut (h : p.Stops x) (before : Option Char) (a b : List Char) :
    search isWord p before (a ++ x :: b) = (search isWord p before (a ++ [x])).or
      ((search isWord p (some x) b).map fun (front, taken) => (a ++ x :: front, taken)) := by
  induction a generalizing before with
  | nil =>
    rw [nil_append, nil_append, search, search, here_at_stop h, here_at_stop h]
    simp [search]
  | cons c a ih =>
    rw [cons_append, cons_append, search, search, ← cons_append, ← cons_append, here_stop h]
    split
    · rfl
    · rw [ih]
      cases search isWord p (some c) (a ++ [x]) with
      | some r => rfl
      | none => simp [Option.map_map, Function.comp_def]

end AwsOps.Scans

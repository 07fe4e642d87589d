import AwsOps.Foundation.Text

/-!
# Reading written numbers back

The digits that a number is written with, read by the conversions of the source languages, and the
leftmost match of a rule in a text whose front no match can start in.
-/

namespace AwsOps.Text

open List

/-! ## Leftmost matches -/

section Search

variable {α : Type} {rule : List Char → Option α} {front rest : List Char}

theorem search_append (h : ∀ tail, tail ≠ [] → tail <:+ front → rule (tail ++ rest) = none) :
    search rule (front ++ rest) = (search rule rest).map fun (before, a) => (front ++ before, a) := by
  induction front with
  | nil => simp
  | cons c front ih =>
    have hhere : rule (c :: (front ++ rest)) = none :=
      h (c :: front) (cons_ne_nil _ _) (suffix_refl _)
    have hlater := ih fun tail hne htail => h tail hne (htail.trans (suffix_cons c front))
    rw [cons_append, search, hhere, hlater]
    cases search rule rest <;> rfl

theorem search_past (h : ∀ c ∈ front, ∀ tail, rule (c :: tail) = none) :
    search rule (front ++ rest) = (search rule rest).map fun (before, a) => (front ++ before, a) := by
  refine search_append fun tail hne htail => ?_
  cases tail with
  | nil => exact absurd rfl hne
  | cons c tail => exact h c (htail.subset mem_cons_self) _

theorem search_here {a : α} (h : rule rest = some a) : search rule rest = some ([], a) := by
  cases rest with
  | nil => simp [search, h]
  | cons c rest => simp [search, h]

theorem cut_first_append {sep : Char} (h : sep ∉ front) :
    cutFirst sep (front ++ sep :: rest) = some (front, rest) := by
  induction front with
  | nil => simp [cutFirst]
  | cons c front ih =>
    simp only [mem_cons, not_or] at h
    have hne : (c == sep) = false := by simpa using Ne.symm h.1
    rw [cons_append, cutFirst, hne, ih h.2]
    rfl

end Search

/-! ## Digits -/

section Digits

variable {p : Char → Bool} {n : Nat} {rest : List Char}

theorem digit_of_mem {c : Char} (h : c ∈ Nat.toDigits 10 n) : c.isDigit :=
  Nat.isDigit_of_mem_toDigits (by decide) (by decide) h

theorem span_digits (hp : ∀ c, c.isDigit → p c) (hrest : ∀ c ∈ rest.head?, p c = false) :
    (Nat.toDigits 10 n ++ rest).span p = (Nat.toDigits 10 n, rest) := by
  have hall : ∀ c ∈ Nat.toDigits 10 n, p c = true := fun c hc => hp c (digit_of_mem hc)
  have hstop : rest.takeWhile p = [] ∧ rest.dropWhile p = rest := by
    cases rest with
    | nil => exact ⟨rfl, rfl⟩
    | cons c rest => simp [hrest c rfl]
  rw [span_eq_takeWhile_dropWhile, takeWhile_append_of_pos hall,
    dropWhile_append_of_pos hall, hstop.1, hstop.2, append_nil]

theorem digit_value (U : Unicode) {c : Char} (h : c.isDigit) : U.digit c = some (c.toNat - 48) := by
  rw [U.digit_ascii c (ascii_of_digit h), if_pos h]

theorem underscore_not_digit : ('_' : Char).isDigit = false := by decide

theorem digit_run_digits (U : Unicode) {ds : List Char} (hds : ∀ c ∈ ds, c.isDigit)
    (hne : ds ≠ []) : digitRun U ds = some (ds.map fun c => c.toNat - 48) := by
  induction ds with
  | nil => exact absurd rfl hne
  | cons c rest ih =>
    have hc := digit_value U (hds c mem_cons_self)
    have htail : ∀ d ∈ rest, d.isDigit := fun d hd => hds d (mem_cons_of_mem _ hd)
    cases rest with
    | nil => simp [digitRun, hc]
    | cons d rest =>
      have hd : d ≠ '_' := by
        intro heq
        have := htail d mem_cons_self
        rw [heq, underscore_not_digit] at this
        cases this
      rw [digitRun, hc, ih htail (cons_ne_nil _ _)]
      · rfl
      · exact cons_ne_nil _ _
      · intro tail heq
        exact hd (List.cons.inj heq).1

theorem of_digits_map (ds : List Char) (n : Nat) :
    (ds.map fun c => c.toNat - 48).foldl (fun n d => n * 10 + d) n = Nat.ofDigitChars 10 ds n := by
  induction ds generalizing n with
  | nil => rfl
  | cons c rest ih =>
    rw [map_cons, foldl_cons, ih, Nat.ofDigitChars_cons]
    congr 1
    show n * 10 + (c.toNat - 48) = 10 * n + (c.toNat - '0'.toNat)
    rw [Nat.mul_comm]
    rfl

theorem magnitude_digits (U : Unicode) (h : (Nat.toDigits 10 n).length ≤ maxIntDigits) :
    magnitude U (Nat.toDigits 10 n) = some n := by
  have hread := digit_run_digits U (fun c => digit_of_mem (n := n) (c := c)) Nat.toDigits_ne_nil
  rw [magnitude, hread, Option.bind_some, length_map, if_pos h, ofDigits, of_digits_map,
    Nat.ofDigitChars_ten_toDigits]

end Digits

end AwsOps.Text

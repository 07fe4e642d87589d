import AwsOps.Redaction.Completeness

/-!
# Dotted quads and the address pattern

The address pattern takes four whole numbers at a time out of a dotted row of them, from the left,
where a number is a whole run of word characters. `quad_kept_iff` tells from that which dotted
quads of ASCII digits it leaves: those that no four whole numbers cover.
-/

namespace AwsOps.Redaction

open List Option Substitute

open Substitute (Classes Pattern Tag)
open Text (lastOf isAscii last_of_append)

variable {E : Classes} {text found before after place rest : List Char}

/-- No member of the class stands beside a stretch between the two parts of a text. -/
structure Free (member : Char → Bool) (before after : List Char) : Prop where
  before : (lastOf none before).any member = false
  after : after.head?.any member = false

/-- The text starts with that many numbers in a dotted row, and the last of them is whole. -/
def Begins (E : Classes) (n : Nat) (text : List Char) : Prop :=
  ∃ row after, text = row ++ after ∧ Numbers E n row ∧ after.head?.any E.word = false

variable {n : Nat} {b : Option Char}

theorem Begins.more (hnumber : Number E found) (h : Begins E n text) :
    Begins E (n + 1) (found ++ '.' :: text) := by
  obtain ⟨row, after, rfl, hrow, hafter⟩ := h
  exact ⟨found ++ '.' :: row, after, by rw [append_assoc, cons_append], .more hnumber hrow, hafter⟩

theorem Numbers.shorter (h : Numbers E (n + 2) found) :
    ∃ row rest, found = row ++ '.' :: rest ∧ Numbers E (n + 1) row := by
  induction n generalizing found with
  | zero =>
    cases h with
    | more hnumber hnumbers => exact ⟨_, _, rfl, .one hnumber⟩
  | succ n ih =>
    cases h with
    | more hnumber hnumbers =>
      obtain ⟨row, rest, rfl, hrow⟩ := ih hnumbers
      exact ⟨_, rest, by rw [append_assoc, cons_append], .more hnumber hrow⟩

theorem Begins.shorter (h : Begins E (n + 2) text) : Begins E (n + 1) text := by
  obtain ⟨row, after, rfl, hrow, -⟩ := h
  obtain ⟨front, rest, rfl, hfront⟩ := hrow.shorter
  exact ⟨front, '.' :: (rest ++ after), by rw [append_assoc, cons_append], hfront, by simp⟩

theorem Begins.first (h : Begins E n text) : text.head?.any E.digit := by
  obtain ⟨row, after, rfl, hrow, -⟩ := h
  have hfirst := hrow.ends.1
  rw [List.head?_eq_some_head hrow.nonempty] at hfirst
  rwa [List.head?_append, List.head?_eq_some_head hrow.nonempty, some_or]

theorem address_iff :
    ((addressPattern E).length b text).isSome ↔ b.any E.word = false ∧ Begins E 4 text := by
  constructor
  · intro h
    obtain ⟨n, hn⟩ := isSome_iff_exists.mp h
    obtain ⟨found, after, rfl, hne, hmatch⟩ := match_of_length hn
    obtain ⟨hnumbers, hbefore, hafter⟩ := (address_match hne).mp hmatch
    exact ⟨hbefore, found, after, rfl, hnumbers, hafter⟩
  · rintro ⟨hbefore, row, after, rfl, hrow, hafter⟩
    have hmatch : addressLength E b (row ++ after) = some row.length :=
      (address_match hrow.nonempty).mpr ⟨hrow, hbefore, hafter⟩
    exact isSome_iff_exists.mpr ⟨_, hmatch⟩

theorem address_none (h : b.any E.word = true ∨ ¬Begins E 4 text) :
    (addressPattern E).length b text = none := by
  by_contra hsome
  rw [← ne_eq, ne_none_iff_isSome, address_iff] at hsome
  rcases h with h | h
  · rw [hsome.1] at h
    exact absurd h (by simp)
  · exact h hsome.2

/-- A digit in a row belongs to a number of the row, with a point or the end of the row on both
sides. -/
theorem Numbers.around {left right : List Char} {c : Char} (h : Numbers E n (left ++ c :: right))
    (hc : E.digit c) :
    ∃ f u v g, left = f ++ u ∧ right = v ++ g ∧ Number E (u ++ c :: v) ∧
      (f = [] ∨ f.getLast? = some '.') ∧ (g = [] ∨ g.head? = some '.') := by
  generalize hrow : left ++ c :: right = row at h
  induction h generalizing left with
  | one hnumber =>
    rename_i digits
    subst hrow
    exact ⟨[], left, right, [], rfl, by simp, hnumber, .inl rfl, .inl rfl⟩
  | more hnumber hnumbers ih =>
    rename_i digits n row
    rcases append_eq_append_iff.mp hrow with ⟨u, hu, hright⟩ | ⟨u, hu, hright⟩
    · -- The digit belongs to the first number, unless it would be the point.
      cases u with
      | nil =>
        rw [nil_append, List.cons.injEq] at hright
        rw [hright.1, point_not_digit] at hc
        exact absurd hc (by simp)
      | cons d u =>
        rw [cons_append, List.cons.injEq] at hright
        obtain ⟨rfl, hright⟩ := hright
        exact ⟨[], left, u, '.' :: row, rfl, hright, hu ▸ hnumber, .inl rfl, .inr rfl⟩
    · cases u with
      | nil =>
        rw [nil_append, List.cons.injEq] at hright
        rw [← hright.1, point_not_digit] at hc
        exact absurd hc (by simp)
      | cons d u =>
        rw [cons_append, List.cons.injEq] at hright
        obtain ⟨rfl, hright⟩ := hright
        obtain ⟨f, x, v, g, rfl, rfl, hx, hf, hg⟩ := ih hright.symm
        refine ⟨digits ++ '.' :: f, x, v, g, by rw [hu, append_assoc, cons_append],
          rfl, hx, .inr ?_, hg⟩
        rw [List.getLast?_append]
        rcases hf with rfl | hf
        · rfl
        · rw [List.getLast?_cons, hf]
          rfl

theorem Numbers.before_point {left right : List Char} (h : Numbers E n (left ++ '.' :: right)) :
    ∃ f digits, left = f ++ digits ∧ Number E digits ∧ (f = [] ∨ f.getLast? = some '.') := by
  generalize hrow : left ++ '.' :: right = row at h
  induction h generalizing left with
  | one hnumber =>
    have hpoint := hnumber.digits '.' (hrow ▸ mem_append_right _ mem_cons_self)
    rw [point_not_digit] at hpoint
    exact absurd hpoint (by simp)
  | more hnumber hnumbers ih =>
    rename_i digits n row
    rcases append_eq_append_iff.mp hrow with ⟨u, hu, hright⟩ | ⟨u, hu, hright⟩
    · cases u with
      | nil =>
        rw [append_nil] at hu
        exact ⟨[], left, rfl, hu ▸ hnumber, .inl rfl⟩
      | cons d u =>
        rw [cons_append, List.cons.injEq] at hright
        have hpoint := hnumber.digits '.' (by rw [hu, hright.1]; simp)
        rw [point_not_digit] at hpoint
        exact absurd hpoint (by simp)
    · cases u with
      | nil =>
        rw [append_nil] at hu
        exact ⟨[], left, rfl, hu ▸ hnumber, .inl rfl⟩
      | cons d u =>
        rw [cons_append, List.cons.injEq] at hright
        obtain ⟨rfl, hright⟩ := hright
        obtain ⟨f, other, rfl, hother, hf⟩ := ih hright.symm
        refine ⟨digits ++ '.' :: f, other, by rw [hu, append_assoc, cons_append], hother, .inr ?_⟩
        rw [List.getLast?_append]
        rcases hf with rfl | hf
        · rfl
        · rw [List.getLast?_cons, hf]
          rfl

theorem not_word_of_point {f : List Char} (hb : b.any E.word = false)
    (hf : f = [] ∨ f.getLast? = some '.') : (lastOf b f).any E.word = false := by
  rcases hf with rfl | hf
  · exact hb
  · rw [lastOf, hf, some_or, any_some, point_not_word]

/-- A match of the address pattern that overlaps a stretch of word characters holds all of it in
one of its numbers, which is a whole run of word characters. -/
theorem number_of_overlap {earlier later word : List Char}
    (htext : text = earlier ++ (found ++ later)) (hne : found ≠ [])
    (hmatch : (addressPattern E).length (lastOf none earlier) (found ++ later) = some found.length)
    (hword : text = place ++ (word ++ rest)) (hsome : word ≠ []) (hall : ∀ c ∈ word, E.word c)
    (hlt : earlier.length < place.length + word.length)
    (hgt : place.length < earlier.length + found.length) :
    ∃ front digits back, text = front ++ (digits ++ back) ∧ Number E digits ∧
      Free E.word front back ∧ earlier.length ≤ front.length ∧
      front.length + digits.length ≤ earlier.length + found.length ∧
      front.length ≤ place.length ∧
      place.length + word.length ≤ front.length + digits.length := by
  obtain ⟨hnumbers, hbefore, hafter⟩ := (address_match hne).mp hmatch
  have hpos := length_pos_iff.mpr hne
  have hword_pos := length_pos_iff.mpr hsome
  -- A common character is a digit, since it is in the match and belongs to a word.
  obtain ⟨c, hc, hat⟩ := mem_of_place (i := max earlier.length place.length) hword
    (by omega) (by omega)
  obtain ⟨left, right, hfound, hleft⟩ : ∃ left right, found = left ++ c :: right ∧
      earlier.length + left.length = max earlier.length place.length := by
    obtain ⟨d, hd, hat'⟩ := mem_of_place (i := max earlier.length place.length) htext
      (by omega) (by omega)
    rw [htext, List.getElem?_append_right (by omega), List.getElem?_append_left (by omega)] at hat
    obtain ⟨hi, hget⟩ := List.getElem?_eq_some_iff.mp hat
    refine ⟨found.take (max earlier.length place.length - earlier.length),
      found.drop (max earlier.length place.length - earlier.length + 1), ?_, ?_⟩
    · rw [← hget, getElem_cons_drop hi, take_append_drop]
    · rw [length_take]
      omega
  have hdigit : E.digit c := by
    rcases hnumbers.chars (hfound ▸ mem_append_right left mem_cons_self) with h | rfl
    · exact h
    · have hpoint := hall '.' hc
      rw [point_not_word] at hpoint
      exact absurd hpoint (by simp)
  obtain ⟨f, u, v, g, rfl, rfl, hnumber, hf, hg⟩ := (hfound ▸ hnumbers).around hdigit
  have hfront : text = (earlier ++ f) ++ ((u ++ c :: v) ++ (g ++ later)) := by
    rw [htext, hfound]
    simp
  have hfree : Free E.word (earlier ++ f) (g ++ later) := by
    refine ⟨?_, ?_⟩
    · rw [last_of_append]
      exact not_word_of_point hbefore hf
    · rcases hg with rfl | hg
      · exact hafter
      · rw [List.head?_append, hg, some_or, any_some, point_not_word]
  have hlength : found.length = f.length + (u ++ c :: v).length + g.length := by
    rw [hfound]
    simp only [length_append, length_cons]
    omega
  rw [length_append] at hleft
  have hsize : (u ++ c :: v).length = u.length + v.length + 1 := by
    rw [length_append, length_cons]
    omega
  have hwithin := within_run hfront hword hfree.before hfree.after hall
    (by rw [length_append]; omega) (by rw [length_append]; omega)
  refine ⟨earlier ++ f, u ++ c :: v, g ++ later, hfront, hnumber, hfree, ?_, ?_, hwithin.1,
    hwithin.2⟩
  · rw [length_append]
    omega
  · rw [length_append]
    omega

theorem outside_of_not_number {earlier later word : List Char}
    (htext : text = earlier ++ (found ++ later)) (hne : found ≠ [])
    (hmatch : (addressPattern E).length (lastOf none earlier) (found ++ later) = some found.length)
    (hword : text = place ++ (word ++ rest)) (hsome : word ≠ []) (hall : ∀ c ∈ word, E.word c)
    (hfree : Free E.word place rest) (hnot : ¬Number E word) :
    earlier.length + found.length ≤ place.length ∨ place.length + word.length ≤ earlier.length := by
  by_contra hoverlap
  rw [not_or] at hoverlap
  obtain ⟨front, digits, back, hfront, hnumber, -, -, -, hle, hge⟩ :=
    number_of_overlap htext hne hmatch hword hsome hall (by omega) (by omega)
  have hpos := length_pos_iff.mpr hsome
  have hwithin := within_run hword hfront hfree.before hfree.after
    (fun c hc => E.word_of_digit c (hnumber.digits c hc)) (by omega) (by omega)
  rw [hfront] at hword
  obtain ⟨-, hrest⟩ := append_inj hword (by omega)
  obtain ⟨rfl, -⟩ := append_inj hrest (by omega)
  exact hnot hnumber

/-- A match does not touch more than three word characters in a row. -/
theorem outside_of_long {earlier later word : List Char}
    (htext : text = earlier ++ (found ++ later)) (hne : found ≠ [])
    (hmatch : (addressPattern E).length (lastOf none earlier) (found ++ later) = some found.length)
    (hword : text = place ++ (word ++ rest)) (hall : ∀ c ∈ word, E.word c)
    (hlong : 3 < word.length) :
    earlier.length + found.length ≤ place.length ∨ place.length + word.length ≤ earlier.length := by
  by_contra hoverlap
  rw [not_or] at hoverlap
  obtain ⟨front, digits, back, -, hnumber, -, -, -, hle, hge⟩ :=
    number_of_overlap htext hne hmatch hword (length_pos_iff.mp (by omega)) hall (by omega)
      (by omega)
  have hshort := hnumber.short
  omega

/-! ## Whole numbers in a row -/

/-- As many whole numbers, each with a point behind it, stand at the end of the text, and no
more. -/
inductive Row (E : Classes) : List Char → Nat → Prop
  | start {prior} : (¬∃ front digits, prior = front ++ (digits ++ ['.']) ∧ Number E digits ∧
      (lastOf none front).any E.word = false) → Row E prior 0
  | next {front digits n} : Number E digits → (lastOf none front).any E.word = false →
      Row E front n → Row E (front ++ (digits ++ ['.'])) (n + 1)

theorem exists_row (E : Classes) (text : List Char) : ∃ n, Row E text n := by
  induction h : text.length using Nat.strong_induction_on generalizing text with
  | _ size ih =>
    by_cases hlast : ∃ front digits, text = front ++ (digits ++ ['.']) ∧ Number E digits ∧
        (lastOf none front).any E.word = false
    · obtain ⟨front, digits, rfl, hnumber, hfront⟩ := hlast
      obtain ⟨n, hn⟩ := ih front.length (by
        rw [← h, length_append, length_append, length_singleton]
        omega) front rfl
      exact ⟨n + 1, .next hnumber hfront hn⟩
    · exact ⟨0, .start hlast⟩

/-- Numbers with a point behind each. -/
def dotted (numbers : List (List Char)) : List Char :=
  numbers.flatMap (· ++ ['.'])

theorem numbers_dotted {numbers : List (List Char)} (hall : ∀ digits ∈ numbers, Number E digits)
    {row : List Char} (hrow : Numbers E n row) :
    Numbers E (numbers.length + n) (dotted numbers ++ row) := by
  induction numbers with
  | nil => rwa [length_nil, Nat.zero_add]
  | cons digits numbers ih =>
    have htail := ih fun other hmem => hall other (mem_cons_of_mem digits hmem)
    rw [length_cons, Nat.add_right_comm, dotted, flatMap_cons, append_assoc, append_assoc]
    exact .more (hall digits mem_cons_self) htail

/-- The scan starts a match at every fourth number of a row: behind a row of whole numbers before a
place at which three more start, it comes to the last of them whose index is a multiple of four. -/
theorem row_aligned (hrow : Row E before n) (hword : (lastOf none before).any E.word = false)
    (htext : text = before ++ rest) (hrest : Begins E 3 rest) :
    ∃ front numbers, before = front ++ dotted numbers ∧ numbers.length = n % 4 ∧
      (∀ digits ∈ numbers, Number E digits) ∧ (addressPattern E).Reaches text front ∧
      (lastOf none front).any E.word = false := by
  induction hrow generalizing rest with
  | start hlast =>
    rename_i before
    refine ⟨before, [], by simp [dotted], rfl, by simp, ?_, hword⟩
    rcases (addressPattern E).reaches_or_cuts htext with hreaches |
      ⟨earlier, inner, outer, later, hinner, houter, rfl, rfl, hcut⟩
    · exact hreaches
    exfalso
    obtain ⟨-, hne, hmatch⟩ := hcut.is_match
    obtain ⟨hnumbers, hbefore, -⟩ := (address_match hne).mp hmatch
    obtain ⟨d, outer, rfl⟩ := exists_cons_of_ne_nil houter
    have hd : E.digit d := hrest.first
    obtain ⟨f, u, v, g, rfl, -, hnumber, hf, -⟩ := hnumbers.around hd
    -- The match goes on behind a point, which closes a number.
    obtain rfl | ⟨u, x, rfl⟩ := eq_nil_or_concat u
    · rw [append_nil] at hinner hnumbers hlast
      obtain rfl | ⟨f, p, rfl⟩ := eq_nil_or_concat f
      · exact hinner rfl
      have hp : p = '.' := by simpa using hf
      subst hp
      rw [concat_eq_append] at hnumbers hlast
      rw [append_assoc, singleton_append] at hnumbers
      obtain ⟨front, digits, rfl, hdigits, hfront⟩ := hnumbers.before_point
      refine hlast ⟨earlier ++ front, digits, ?_, hdigits, ?_⟩
      · simp
      · rw [last_of_append]
        exact not_word_of_point hbefore hfront
    · rw [concat_eq_append] at hnumber hword
      have hx := E.word_of_digit x (hnumber.digits x (by simp))
      rw [last_of_append, last_of_append, last_of_append, lastOf, List.getLast?_singleton,
        some_or, any_some, hx] at hword
      exact absurd hword (by simp)
  | next hnumber hfront hrow ih =>
    rename_i front digits n
    have hmore : Begins E 4 (digits ++ '.' :: rest) := hrest.more hnumber
    have hsplit : text = front ++ (digits ++ '.' :: rest) := by
      rw [htext]
      simp
    obtain ⟨place, numbers, rfl, hlength, hall, hreaches, hplace⟩ :=
      ih hfront hsplit hmore.shorter
    by_cases hfull : n % 4 = 3
    · -- The fourth number completes a match, and the scan goes on behind the point.
      have hnumbers : Numbers E 4 (dotted numbers ++ digits) := by
        have h := numbers_dotted hall (.one hnumber)
        rwa [hlength, hfull] at h
      have hmatch : addressLength E (lastOf none place)
          ((dotted numbers ++ digits) ++ '.' :: rest) = some (dotted numbers ++ digits).length :=
        (address_match hnumbers.nonempty).mpr ⟨hnumbers, hplace, by simp⟩
      have htext' : text = place ++ ((dotted numbers ++ digits) ++ '.' :: rest) := by
        rw [hsplit]
        simp
      have hcut := hreaches.cuts htext' hnumbers.nonempty hmatch
      have hnone : (addressPattern E).length (lastOf none (place ++ (dotted numbers ++ digits)))
          ('.' :: rest) = none := by
        refine address_none (.inr fun h => ?_)
        have hfirst := h.first
        rw [List.head?_cons, any_some, point_not_digit] at hfirst
        exact absurd hfirst (by simp)
      have hbehind : text = (place ++ (dotted numbers ++ digits)) ++ '.' :: rest := by
        rw [htext']
        simp
      have hnext := hcut.reaches.next hbehind hnone
      refine ⟨(place ++ (dotted numbers ++ digits)) ++ ['.'], [], ?_, ?_, by simp, hnext, ?_⟩
      · simp [dotted]
      · rw [length_nil]
        omega
      · rw [last_of_append]
        simp [lastOf]
    · refine ⟨place, numbers ++ [digits], ?_, ?_, ?_, hreaches, hplace⟩
      · simp [dotted]
      · rw [length_append, length_singleton]
        omega
      · intro other hmem
        rcases mem_append.mp hmem with hmem | hmem
        · exact hall other hmem
        · rw [mem_singleton.mp hmem]
          exact hnumber

/-! ## The quads that are left -/

/-- An ASCII word character. -/
def isPlainWord (c : Char) : Bool :=
  c.isAlphanum || c == '_'

/-- A number of one to three ASCII digits. -/
structure PlainNumber (digits : List Char) : Prop where
  nonempty : digits ≠ []
  short : digits.length ≤ 3
  digits : ∀ c ∈ digits, c.isDigit

/-- Four such numbers with points between them. -/
structure Quad (quad : List Char) : Prop where
  parts : ∃ a b c d, quad = a ++ '.' :: (b ++ '.' :: (c ++ '.' :: d)) ∧ PlainNumber a ∧
    PlainNumber b ∧ PlainNumber c ∧ PlainNumber d

/-- A quad that the address pattern leaves. The quad has `x` and `y` beside it, so that its first
and its last number are the ends of longer words. No four whole numbers start at its first or its
second number, and where its first number is whole, the whole numbers before it go into matches of
their own. -/
structure Hidden (E : Classes) (before x a b c d y after : List Char) : Prop where
  numbers : PlainNumber a ∧ PlainNumber b ∧ PlainNumber c ∧ PlainNumber d
  plain : Free isPlainWord (before ++ x) (y ++ after)
  words : (∀ e ∈ x, E.word e) ∧ ∀ e ∈ y, E.word e
  whole : Free E.word before after
  first : ¬(Number E (x ++ a) ∧ Number E (d ++ y))
  second : ¬Begins E 4 (b ++ '.' :: (c ++ '.' :: (d ++ (y ++ after))))
  aligned : Number E (x ++ a) → ∃ n, Row E before n ∧ 4 ∣ n

/-- The text holds a quad that the address pattern leaves. -/
def MissedQuad (E : Classes) (text : List Char) : Prop :=
  ∃ before x a b c d y after, Hidden E before x a b c d y after ∧
    text = (before ++ x) ++ ((a ++ '.' :: (b ++ '.' :: (c ++ '.' :: d))) ++ (y ++ after))

theorem PlainNumber.number (h : PlainNumber found) : Number E found where
  nonempty := h.nonempty
  short := h.short
  digits c hc := by
    rw [E.digit_ascii c (Text.ascii_of_digit (h.digits c hc))]
    exact h.digits c hc

theorem Number.words (h : Number E found) {c : Char} (hc : c ∈ found) : E.word c :=
  E.word_of_digit c (h.digits c hc)

theorem quiet_word {word : List Char} (hall : ∀ c ∈ word, E.word c)
    (hstart : (addressPattern E).length (lastOf none place) (word ++ rest) = none) :
    (addressPattern E).Quiet place word rest := by
  intro x c y hsplit
  obtain rfl | ⟨x, d, rfl⟩ := eq_nil_or_concat x
  · rw [append_nil]
    rw [hsplit] at hstart
    exact hstart
  · refine address_none (.inl ?_)
    rw [concat_eq_append, last_of_append, last_of_append]
    exact hall d (by rw [hsplit]; simp)

theorem quiet_point : (addressPattern E).Quiet place ['.'] rest := by
  intro x c y hsplit
  obtain ⟨rfl, rfl, rfl⟩ : x = [] ∧ c = '.' ∧ y = [] := by
    cases x with
    | nil => simpa [eq_comm] using hsplit
    | cons d x => exact absurd (congrArg List.length hsplit) (by simp)
  refine address_none (.inr fun h => ?_)
  have hfirst := h.first
  rw [List.head?_cons, any_some, point_not_digit] at hfirst
  exact absurd hfirst (by simp)

theorem quiet_behind_point {window : List Char}
    (h : (addressPattern E).Quiet (place ++ ['.']) window rest) :
    (addressPattern E).Quiet place ('.' :: window) rest :=
  Substitute.Pattern.Quiet.append quiet_point h

theorem Begins.number {word : List Char} (h : Begins E n (word ++ rest)) (hne : word ≠ [])
    (hall : ∀ c ∈ word, E.word c) (hrest : rest.head?.any E.word = false) :
    Number E word := by
  have hrun : ∀ {digits other : List Char}, Number E digits → word ++ rest = digits ++ other →
      other.head?.any E.word = false → Number E word := by
    intro digits other hdigits hsplit hother
    have hle := length_le_run hsplit hrest (fun c hc => hdigits.words hc) hne
    have hge := length_le_run hsplit.symm hother hall hdigits.nonempty
    obtain ⟨rfl, -⟩ := append_inj hsplit (by omega)
    exact hdigits
  obtain ⟨row, after, hsplit, hrow, hafter⟩ := h
  cases hrow with
  | one hnumber => exact hrun hnumber hsplit hafter
  | more hnumber hnumbers =>
    rw [append_assoc, cons_append] at hsplit
    exact hrun hnumber hsplit (by simp)

/-- Behind the first word of a row the row goes on. -/
theorem Begins.tail {word : List Char} (h : Begins E (n + 2) (word ++ '.' :: rest))
    (hne : word ≠ []) (hall : ∀ c ∈ word, E.word c) : Begins E (n + 1) rest := by
  obtain ⟨row, after, hsplit, hrow, hafter⟩ := h
  cases hrow with
  | more hnumber hnumbers =>
    rename_i digits row
    rw [append_assoc, cons_append] at hsplit
    have hlength : word.length = digits.length := by
      have hle := length_le_run hsplit (by simp) (fun c hc => hnumber.words hc) hne
      have hge := length_le_run hsplit.symm (by simp) hall hnumber.nonempty
      omega
    obtain ⟨-, htail⟩ := append_inj hsplit hlength
    rw [List.cons.injEq] at htail
    exact ⟨row, after, htail.2, hnumbers, hafter⟩

theorem word_at_end (E : Classes) (text : List Char) :
    ∃ front word, text = front ++ word ∧ (∀ c ∈ word, E.word c) ∧
      (lastOf none front).any E.word = false := by
  induction text using List.reverseRecOn with
  | nil => exact ⟨[], [], rfl, by simp, rfl⟩
  | append_singleton text c ih =>
    cases hc : E.word c with
    | true =>
      obtain ⟨front, word, rfl, hall, hfront⟩ := ih
      refine ⟨front, word ++ [c], by rw [append_assoc], ?_, hfront⟩
      intro d hd
      rcases mem_append.mp hd with hd | hd
      · exact hall d hd
      · rw [mem_singleton.mp hd]
        exact hc
    | false =>
      refine ⟨text ++ [c], [], by rw [append_nil], by simp, ?_⟩
      rw [last_of_append]
      exact hc

theorem word_at_start (E : Classes) (text : List Char) :
    ∃ word back, text = word ++ back ∧ (∀ c ∈ word, E.word c) ∧ back.head?.any E.word = false := by
  refine ⟨text.takeWhile E.word, text.dropWhile E.word, takeWhile_append_dropWhile.symm,
    fun c hc => mem_takeWhile_imp hc, ?_⟩
  cases hback : (text.dropWhile E.word).head? with
  | none => rfl
  | some c =>
    have hnot := List.head?_dropWhile_not E.word text
    rw [hback] at hnot
    simpa using hnot

section Hiding

variable {x a b c d y : List Char}

theorem quad_text : (before ++ x) ++ ((a ++ '.' :: (b ++ '.' :: (c ++ '.' :: d))) ++ (y ++ after)) =
    before ++ ((x ++ a) ++ '.' :: (b ++ '.' :: (c ++ '.' :: ((d ++ y) ++ after)))) := by
  simp

theorem word_around (ha : PlainNumber a) (hx : ∀ e ∈ x, E.word e) :
    (∀ e ∈ x ++ a, E.word e) ∧ ∀ e ∈ a ++ x, E.word e := by
  have hnumber : ∀ e ∈ a, E.word e := fun e he => (ha.number (E := E)).words he
  refine ⟨fun e he => ?_, fun e he => ?_⟩
  · rcases mem_append.mp he with he | he
    · exact hx e he
    · exact hnumber e he
  · rcases mem_append.mp he with he | he
    · exact hnumber e he
    · exact hx e he

theorem begins_quad (ha : Number E (x ++ a)) (hb : PlainNumber b) (hc : PlainNumber c)
    (hd : Number E (d ++ y)) (hafter : after.head?.any E.word = false) :
    Begins E 4 ((x ++ a) ++ '.' :: (b ++ '.' :: (c ++ '.' :: ((d ++ y) ++ after)))) :=
  .more ha (.more hb.number (.more hc.number ⟨_, after, rfl, .one hd, hafter⟩))

theorem missed_of_kept {quad back : List Char} (hquad : Quad quad)
    (hfree : Free isPlainWord place back) (htext : text = place ++ (quad ++ back))
    (hreaches : (addressPattern E).Reaches text place)
    (hquiet : (addressPattern E).Quiet place quad back) : MissedQuad E text := by
  obtain ⟨a, b, c, d, rfl, ha, hb, hc, hd⟩ := hquad.parts
  obtain ⟨before, x, rfl, hx, hbefore⟩ := word_at_end E place
  obtain ⟨y, after, rfl, hy, hafter⟩ := word_at_start E back
  have hsplit := htext.trans quad_text
  have hsize := length_pos_iff.mpr ha.nonempty
  -- Whole numbers before the quad that do not fill matches would be matched with its first.
  have haligned : Number E (x ++ a) → ∃ n, Row E before n ∧ 4 ∣ n := by
    intro hnumber
    obtain ⟨n, hn⟩ := exists_row E before
    refine ⟨n, hn, ?_⟩
    by_contra hndvd
    have hthree : Begins E 3
        ((x ++ a) ++ '.' :: (b ++ '.' :: (c ++ '.' :: ((d ++ y) ++ after)))) :=
      .more hnumber (.more hb.number ⟨c, _, rfl, .one hc.number, by simp⟩)
    obtain ⟨front, numbers, hfront, hlength, hall, hthere, hword⟩ :=
      row_aligned hn hbefore hsplit hthree
    have hsome : ∃ j, numbers.length + (j + 1) = 4 ∧ Begins E (j + 1)
        ((x ++ a) ++ '.' :: (b ++ '.' :: (c ++ '.' :: ((d ++ y) ++ after)))) := by
      have hmod : n % 4 = 1 ∨ n % 4 = 2 ∨ n % 4 = 3 := by omega
      rcases hmod with h | h | h
      · exact ⟨2, by omega, hthree⟩
      · exact ⟨1, by omega, hthree.shorter⟩
      · exact ⟨0, by omega, hthree.shorter.shorter⟩
    obtain ⟨j, hj, row, later, hrest, hrow, hlater⟩ := hsome
    have hfour := numbers_dotted hall hrow
    rw [hj] at hfour
    have hmatch := (address_match hfour.nonempty).mpr ⟨hfour, hword, hlater⟩
    have hcut := hthere.cuts (by
      rw [hsplit, hrest, hfront]
      simp) hfour.nonempty hmatch
    obtain ⟨htext', hne, -⟩ := hcut.is_match
    have hrowsize := length_pos_iff.mpr hrow.nonempty
    have hdots : 0 < (dotted numbers).length := by
      cases numbers with
      | nil =>
        rw [length_nil] at hlength
        omega
      | cons digits numbers =>
        rw [dotted, flatMap_cons]
        simp only [length_append, length_singleton]
        omega
    have hbeforesize : before.length = front.length + (dotted numbers).length := by
      rw [hfront, length_append]
    obtain ⟨inside, digits, other, -, -, -, -, hle, -, hge⟩ := number_of_overlap htext' hne hmatch hsplit
      (by simp [ha.nonempty]) (word_around ha hx).1
      (by rw [length_append]; omega) (by rw [length_append]; omega)
    have hout := hreaches.outside hcut
    simp only [length_append] at hout hle hge
    omega
  refine ⟨before, x, a, b, c, d, y, after, ⟨⟨ha, hb, hc, hd⟩, hfree, ⟨hx, hy⟩,
    ⟨hbefore, hafter⟩, ?_, ?_, haligned⟩, htext⟩
  · rintro ⟨hfirst, hfourth⟩
    obtain ⟨n, hn, hdvd⟩ := haligned hfirst
    have hfour := begins_quad hfirst hb hc hfourth hafter
    obtain ⟨front, numbers, hfront, hlength, -, hthere, -⟩ :=
      row_aligned hn hbefore hsplit hfour.shorter
    have hnil : numbers = [] := length_eq_zero_iff.mp (by omega)
    rw [hnil, dotted, flatMap_nil, append_nil] at hfront
    subst hfront
    obtain ⟨row, later, hrest, hrow, hlater⟩ := hfour
    have hmatch := (address_match hrow.nonempty).mpr ⟨hrow, hbefore, hlater⟩
    have hcut := hthere.cuts (by rw [hsplit, hrest]) hrow.nonempty hmatch
    obtain ⟨htext', hne, -⟩ := hcut.is_match
    have hrowsize := length_pos_iff.mpr hne
    obtain ⟨inside, digits, other, -, -, -, -, hle, -, hge⟩ := number_of_overlap htext' hne hmatch hsplit
      (by simp [ha.nonempty]) (word_around ha hx).1
      (by rw [length_append]; omega) (by omega)
    have hout := hreaches.outside hcut
    simp only [length_append] at hout hle hge
    have hxnil : x = [] := length_eq_zero_iff.mp (by omega)
    subst hxnil
    obtain ⟨e, a, rfl⟩ := exists_cons_of_ne_nil ha.nonempty
    have hnone := hquiet [] e (a ++ '.' :: (b ++ '.' :: (c ++ '.' :: d))) rfl
    have hsome := (address_iff (b := lastOf none before)).mpr ⟨hbefore, row, later, hrest, hrow, hlater⟩
    rw [append_nil, append_nil] at hnone
    simp only [append_assoc, cons_append, nil_append] at hnone hsome
    rw [hnone] at hsome
    exact absurd hsome (by simp)
  · intro hsecond
    obtain ⟨e, b, rfl⟩ := exists_cons_of_ne_nil hb.nonempty
    have hnone := hquiet (a ++ ['.']) e (b ++ '.' :: (c ++ '.' :: d)) (by
      simp)
    have hsome := (address_iff (b := some '.')).mpr ⟨by simp, hsecond⟩
    have hlast : lastOf none (before ++ x ++ (a ++ ['.'])) = some '.' := by
      rw [last_of_append, last_of_append]
      simp [lastOf]
    rw [hlast] at hnone
    simp only [append_assoc, cons_append] at hnone hsome
    rw [hnone] at hsome
    exact absurd hsome (by simp)

theorem kept_of_missed (h : Hidden E before x a b c d y after)
    (htext : text = (before ++ x) ++
      ((a ++ '.' :: (b ++ '.' :: (c ++ '.' :: d))) ++ (y ++ after))) :
    (addressPattern E).Reaches text (before ++ x) ∧
      (addressPattern E).Quiet (before ++ x) (a ++ '.' :: (b ++ '.' :: (c ++ '.' :: d)))
        (y ++ after) := by
  obtain ⟨ha, hb, hc, hd⟩ := h.numbers
  obtain ⟨hx, hy⟩ := h.words
  obtain ⟨hbefore, hafter⟩ := h.whole
  have hsplit := htext.trans quad_text
  have hwords := (word_around (E := E) ha hx).1
  have hne : x ++ a ≠ [] := by simp [ha.nonempty]
  have hnotfirst : ¬Begins E 4 ((x ++ a) ++ '.' :: (b ++ '.' :: (c ++ '.' :: ((d ++ y) ++ after)))) := by
    intro hfour
    have hfirst := hfour.number hne hwords (by simp)
    have hthree := hfour.tail hne hwords
    have htwo := hthree.tail hb.nonempty fun e he => (hb.number (E := E)).words he
    have hone := htwo.tail hc.nonempty fun e he => (hc.number (E := E)).words he
    exact h.first ⟨hfirst, hone.number (by simp [hd.nonempty]) (word_around hd hy).2 hafter⟩
  have hreaches : (addressPattern E).Reaches text (before ++ x) := by
    by_cases hnumber : Number E (x ++ a)
    · obtain ⟨n, hn, hdvd⟩ := h.aligned hnumber
      have hthree : Begins E 3
          ((x ++ a) ++ '.' :: (b ++ '.' :: (c ++ '.' :: ((d ++ y) ++ after)))) :=
        .more hnumber (.more hb.number ⟨c, _, rfl, .one hc.number, by simp⟩)
      obtain ⟨front, numbers, hfront, hlength, -, hthere, -⟩ :=
        row_aligned hn hbefore hsplit hthree
      have hnil : numbers = [] := length_eq_zero_iff.mp (by omega)
      rw [hnil, dotted, flatMap_nil, append_nil] at hfront
      subst hfront
      refine hthere.walk (htext.trans (append_assoc _ _ _)) (quiet_word hx ?_)
      refine address_none (.inr ?_)
      simpa using hnotfirst
    · rcases (addressPattern E).reaches_or_cuts htext with hthere |
        ⟨earlier, inner, outer, later, hinner, houter, hplace, -, hcut⟩
      · exact hthere
      · obtain ⟨htext', hfound, hmatch⟩ := hcut.is_match
        have hout := outside_of_not_number htext' hfound hmatch hsplit hne hwords
          ⟨hbefore, by simp⟩ hnumber
        have hplacesize := congrArg List.length hplace
        have hi := length_pos_iff.mpr hinner
        have ho := length_pos_iff.mpr houter
        simp only [length_append] at hplacesize hout
        omega
  refine ⟨hreaches, ?_⟩
  have hnumber : ∀ {digits : List Char}, PlainNumber digits → ∀ e ∈ digits, E.word e :=
    fun hdigits e he => (hdigits.number (E := E)).words he
  refine Substitute.Pattern.Quiet.append (quiet_word (hnumber ha) ?_) ?_
  · obtain rfl | ⟨x, e, rfl⟩ := eq_nil_or_concat x
    · refine address_none (.inr ?_)
      simpa using hnotfirst
    · refine address_none (.inl ?_)
      rw [concat_eq_append, last_of_append, last_of_append]
      exact hx e (by simp)
  refine quiet_behind_point ?_
  refine Substitute.Pattern.Quiet.append (quiet_word (hnumber hb) ?_) ?_
  · refine address_none (.inr ?_)
    simpa using h.second
  refine quiet_behind_point ?_
  refine Substitute.Pattern.Quiet.append (quiet_word (hnumber hc) ?_) ?_
  · refine address_none (.inr fun hfour => h.second ?_)
    have hfive := hfour.more (hb.number (E := E))
    simpa using hfive.shorter
  refine quiet_behind_point ?_
  refine quiet_word (hnumber hd) ?_
  refine address_none (.inr fun hfour => h.second ?_)
  exact ((hfour.more (hc.number (E := E))).more (hb.number (E := E))).shorter.shorter

end Hiding

end AwsOps.Redaction

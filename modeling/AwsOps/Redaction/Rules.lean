import AwsOps.Foundation.Substitute
import AwsOps.Foundation.Tokens

/-!
# Redaction of prompt texts

`redact` of the workers: five patterns are replaced by tags, one after the other, before a text
goes to a language model. Each pattern is a function that gives the length of its match at a place,
and one lemma says when a stretch of text is a match.
-/

namespace AwsOps.Redaction

open List

open Substitute (Classes Pattern Tag)
open Text (lastOf)
open Tokens (apostrophe doubleQuote)

variable (E : Classes)

/-- The opening of an ARN. -/
def arnMark : List Char :=
  ['a', 'r', 'n', ':', 'a', 'w', 's', ':']

/-- A quotation mark. -/
def isQuote (c : Char) : Bool :=
  c == doubleQuote || c == apostrophe

/-- `[^\s"']`. -/
def isArnChar (c : Char) : Bool :=
  !E.space c && !isQuote c

/-- `arn:aws:[^\s"']+`. -/
def arnLength (text : List Char) : Option Nat :=
  if arnMark.isPrefixOf text then
    let run := (text.drop arnMark.length).takeWhile (isArnChar E)
    if run.isEmpty then none else some (arnMark.length + run.length)
  else none

/-- `[A-Za-z0-9._%+-]`. -/
def isLocal (c : Char) : Bool :=
  c.isAlphanum || ['.', '_', '%', '+', '-'].contains c

/-- `[A-Za-z0-9.-]`. -/
def isHost (c : Char) : Bool :=
  c.isAlphanum || c == '.' || c == '-'

/-- The end of the last `\.[A-Za-z]{2,}` in the text. -/
def lastDomain : List Char → Option Nat
  | [] => none
  | c :: text =>
    match lastDomain text with
    | some n => some (n + 1)
    | none =>
      let letters := text.takeWhile Char.isAlpha
      if c == '.' && 2 ≤ letters.length then some (1 + letters.length) else none

/-- `[A-Za-z0-9._%+-]+@[A-Za-z0-9.-]+\.[A-Za-z]{2,}`. The host takes as much as it can and then
gives back until a point with two letters follows. -/
def emailLength (text : List Char) : Option Nat :=
  let name := text.takeWhile isLocal
  if name.isEmpty then none
  else
    match text.drop name.length with
    | '@' :: rest =>
      match rest.takeWhile isHost with
      | _ :: host => (lastDomain host).map (name.length + 2 + ·)
      | [] => none
    | _ => none

/-- `(?<!\d)\d{12}(?!\d)`. -/
def accountLength (before : Option Char) (text : List Char) : Option Nat :=
  let run := text.take 12
  if !before.any E.digit && run.length == 12 && run.all E.digit && !(text.drop 12).head?.any E.digit
  then some 12 else none

/-- `(?:\d{1,3}\.){n}\d{1,3}\b`. A number is a whole run of digits: behind a part of one there is
neither a point nor a boundary. -/
def numbersLength : Nat → List Char → Option Nat
  | 0, text =>
    let run := text.takeWhile E.digit
    if 1 ≤ run.length ∧ run.length ≤ 3 ∧
        E.boundary run.getLast? (text.drop run.length).head? then
      some run.length
    else none
  | n + 1, text =>
    let run := text.takeWhile E.digit
    if 1 ≤ run.length ∧ run.length ≤ 3 then
      match text.drop run.length with
      | '.' :: rest => (numbersLength n rest).map (run.length + 1 + ·)
      | _ => none
    else none

/-- `\b(?:\d{1,3}\.){3}\d{1,3}\b`. -/
def addressLength (before : Option Char) (text : List Char) : Option Nat :=
  if E.boundary before text.head? then numbersLength E 3 text else none

/-- `[A-Z0-9]`. -/
def isKeyChar (c : Char) : Bool :=
  c.isUpper || c.isDigit

/-- `\b(AKIA|ASIA)[A-Z0-9]{16}\b`. -/
def keyLength (before : Option Char) (text : List Char) : Option Nat :=
  let key := text.take 20
  if E.boundary before text.head? &&
      (['A', 'K', 'I', 'A'].isPrefixOf key || ['A', 'S', 'I', 'A'].isPrefixOf key) &&
      key.length == 20 && (key.drop 4).all isKeyChar &&
      E.boundary key.getLast? (text.drop 20).head?
  then some 20 else none

/-! ## The matches of the patterns -/

/-- A number as the pattern knows it: one to three digits. -/
structure Number (digits : List Char) : Prop where
  nonempty : digits ≠ []
  short : digits.length ≤ 3
  digits : ∀ c ∈ digits, E.digit c

/-- Numbers with points between them. -/
inductive Numbers : Nat → List Char → Prop
  | one {digits} : Number E digits → Numbers 1 digits
  | more {digits n row} : Number E digits → Numbers n row →
      Numbers (n + 1) (digits ++ '.' :: row)

/-- A key id: a known start and sixteen capitals and digits. -/
structure KeyId (key : List Char) : Prop where
  size : key.length = 20
  start : ['A', 'K', 'I', 'A'] <+: key ∨ ['A', 'S', 'I', 'A'] <+: key
  chars : ∀ c ∈ key.drop 4, isKeyChar c

/-- The core of an e-mail address: the last character of the name, the host up to some point, and
two letters. -/
structure EmailCore (core : List Char) : Prop where
  parts : ∃ x d host l m, core = x :: '@' :: d :: (host ++ ['.', l, m]) ∧ isLocal x ∧ isHost d ∧
    (∀ c ∈ host, isHost c) ∧ l.isAlpha ∧ m.isAlpha

variable {E} {before : Option Char} {text found after : List Char}

theorem arn_length_mark (c : Char) (after : List Char) :
    (arnLength E (arnMark ++ c :: after)).isSome = isArnChar E c := by
  have hprefix : arnMark.isPrefixOf (arnMark ++ c :: after) = true := by
    rw [ isPrefixOf_iff_prefix]
    exact prefix_append _ _
  rw [arnLength, if_pos hprefix, drop_left]
  cases hc : isArnChar E c with
  | true => simp [hc]
  | false => simp [hc]

variable {n : Nat}

theorem arn_length_some (h : arnLength E text = some n) :
    (∃ c after, text = arnMark ++ c :: after ∧ isArnChar E c) ∧ 0 < n ∧ n ≤ text.length := by
  rw [arnLength] at h
  split at h
  · rename_i hprefix
    obtain ⟨rest, rfl⟩ := isPrefixOf_iff_prefix.mp hprefix
    rw [drop_left] at h
    cases hrun : rest.takeWhile (isArnChar E) with
    | nil => simp [hrun] at h
    | cons c run =>
      obtain ⟨after, hafter⟩ := takeWhile_prefix (isArnChar E) (l := rest)
      rw [hrun] at hafter
      have hc : isArnChar E c := mem_takeWhile_imp (hrun ▸ mem_cons_self)
      simp only [hrun, isEmpty_cons, Bool.false_eq_true, if_false, Option.some.injEq] at h
      refine ⟨⟨c, run ++ after, by rw [← hafter]; rfl, hc⟩, ?_, ?_⟩
      · rw [← h, show arnMark.length = 8 from rfl]
        omega
      · rw [← h, ← hafter, length_append, length_append]
        omega
  · exact absurd h (by simp)

theorem account_match :
    accountLength E before (found ++ after) = some found.length ↔
      found.length = 12 ∧ (∀ c ∈ found, E.digit c) ∧ before.any E.digit = false ∧
        after.head?.any E.digit = false := by
  have htake : found.length = 12 → (found ++ after).take 12 = found ∧
      (found ++ after).drop 12 = after := by
    intro h
    rw [← h]
    exact ⟨take_left, drop_left⟩
  rw [accountLength]
  constructor
  · intro h
    have hlength : found.length = 12 := by
      split at h
      · exact (Option.some.inj h).symm
      · exact absurd h (by simp)
    obtain ⟨ht, hd⟩ := htake hlength
    simp only [ht, hd, hlength] at h
    refine ⟨hlength, ?_⟩
    split at h
    · rename_i hcond
      simpa [and_assoc, and_left_comm] using hcond
    · exact absurd h (by simp)
  · rintro ⟨hlength, hall, hbefore, hafter⟩
    obtain ⟨ht, hd⟩ := htake hlength
    simp only [ht, hd, hlength, hbefore, hafter]
    simp [all_eq_true.mpr hall]

theorem account_length_bounded (h : accountLength E before text = some n) :
    0 < n ∧ n ≤ text.length := by
  rw [accountLength] at h
  split at h
  · rename_i hcond
    simp only [Bool.and_eq_true, beq_iff_eq, length_take] at hcond
    rw [← Option.some.inj h]
    omega
  · exact absurd h (by simp)

theorem Number.first (h : Number E found) : found.head?.any E.digit ∧ found.getLast?.any E.digit := by
  refine ⟨?_, ?_⟩
  · rw [List.head?_eq_some_head h.nonempty]
    exact h.digits _ (head_mem h.nonempty)
  · rw [List.getLast?_eq_some_getLast h.nonempty]
    exact h.digits _ (getLast_mem h.nonempty)

theorem Number.take_while (h : Number E found) (hafter : after.head?.any E.digit = false) :
    (found ++ after).takeWhile E.digit = found ∧ (found ++ after).drop found.length = after := by
  refine ⟨?_, drop_left⟩
  rw [takeWhile_append_of_pos h.digits]
  cases after with
  | nil => rw [takeWhile_nil, append_nil]
  | cons c after =>
    have hc : E.digit c = false := by simpa using hafter
    rw [takeWhile_cons, hc]
    simp

@[simp] theorem point_not_digit : E.digit '.' = false :=
  E.digit_ascii '.' (by decide)

@[simp] theorem point_not_word : E.word '.' = false :=
  E.word_ascii '.' (by decide)

theorem any_word_of_digit {c : Option Char} (h : c.any E.digit) : c.any E.word := by
  cases c with
  | none => exact h
  | some c => exact E.word_of_digit c h

theorem not_digit_of_not_word {c : Option Char} (h : c.any E.word = false) :
    c.any E.digit = false := by
  by_contra hdigit
  rw [any_word_of_digit (by simpa using hdigit)] at h
  exact absurd h (by simp)

theorem number_take_while (hpos : 1 ≤ (text.takeWhile E.digit).length)
    (hshort : (text.takeWhile E.digit).length ≤ 3) : Number E (text.takeWhile E.digit) :=
  ⟨length_pos_iff.mp hpos, hshort, fun _ hc => mem_takeWhile_imp hc⟩

theorem numbers_length_some {m : Nat} (h : numbersLength E n text = some m) :
    ∃ found after, text = found ++ after ∧ found.length = m ∧ Numbers E (n + 1) found ∧
      after.head?.any E.word = false := by
  have hsplit : text.takeWhile E.digit ++ text.drop (text.takeWhile E.digit).length = text :=
    prefix_iff_eq_append.mp ( takeWhile_prefix _)
  induction n generalizing text m with
  | zero =>
    simp only [numbersLength] at h
    split at h
    · rename_i hcond
      obtain ⟨hpos, hshort, hboundary⟩ := hcond
      have hnumber := number_take_while hpos hshort
      refine ⟨_, _, hsplit.symm, Option.some.inj h, .one hnumber, ?_⟩
      rw [Classes.boundary, any_word_of_digit hnumber.first.2] at hboundary
      simpa using hboundary
    · exact absurd h (by simp)
  | succ n ih =>
    simp only [numbersLength] at h
    split at h
    · rename_i hsize
      have hnumber := number_take_while hsize.1 hsize.2
      split at h
      · rename_i rest hrest
        obtain ⟨k, hk, hm⟩ := Option.map_eq_some_iff.mp h
        obtain ⟨found, after, rfl, hfound, hnumbers, hafter⟩ := ih hk
          (prefix_iff_eq_append.mp ( takeWhile_prefix _))
        refine ⟨text.takeWhile E.digit ++ '.' :: found, after, ?_, ?_, .more hnumber hnumbers,
          hafter⟩
        · rw [hrest] at hsplit
          rw [append_assoc, cons_append, hsplit]
        · rw [length_append, length_cons]
          omega
      · exact absurd h (by simp)
    · exact absurd h (by simp)

theorem numbers_length_of (h : Numbers E n found) (hafter : after.head?.any E.word = false) :
    numbersLength E (n - 1) (found ++ after) = some found.length := by
  induction h with
  | one hnumber =>
    rename_i digits
    obtain ⟨htake, hdrop⟩ := hnumber.take_while (not_digit_of_not_word hafter)
    have hpos := length_pos_iff.mpr hnumber.nonempty
    have hboundary : E.boundary digits.getLast? after.head? = true := by
      rw [Classes.boundary, any_word_of_digit hnumber.first.2, hafter]
      rfl
    simp only [numbersLength, Nat.sub_self, htake, hdrop, hboundary]
    rw [if_pos ⟨hpos, hnumber.short, trivial⟩]
  | more hnumber hnumbers ih =>
    rename_i digits n row
    obtain ⟨htake, hdrop⟩ : (digits ++ '.' :: (row ++ after)).takeWhile E.digit = digits ∧
        (digits ++ '.' :: (row ++ after)).drop digits.length = '.' :: (row ++ after) :=
      hnumber.take_while (by simp)
    have hpos := length_pos_iff.mpr hnumber.nonempty
    obtain ⟨m, rfl⟩ : ∃ m, n = m + 1 := by
      cases hnumbers <;> exact ⟨_, rfl⟩
    rw [Nat.add_sub_cancel] at ih
    rw [append_assoc, cons_append, Nat.add_sub_cancel]
    simp only [numbersLength, htake, hdrop]
    rw [if_pos ⟨hpos, hnumber.short⟩, ih, Option.map_some, length_append, length_cons]
    congr 1
    omega

theorem Numbers.ends (h : Numbers E n found) :
    found.head?.any E.digit ∧ found.getLast?.any E.digit := by
  induction h with
  | one hnumber => exact hnumber.first
  | more hnumber hnumbers ih =>
    rename_i digits n row
    refine ⟨?_, ?_⟩
    · rw [List.head?_append, List.head?_eq_some_head hnumber.nonempty]
      exact hnumber.digits _ (head_mem hnumber.nonempty)
    · have hrow : row ≠ [] := by
        rintro rfl
        exact absurd ih.1 (by simp)
      rw [List.getLast?_append, List.getLast?_cons_of_ne_nil hrow]
      rw [List.getLast?_eq_some_getLast hrow] at ih ⊢
      exact ih.2

/-- An address is four numbers with points between them that stand free of word characters. -/
theorem address_match (hne : found ≠ []) :
    addressLength E before (found ++ after) = some found.length ↔
      Numbers E 4 found ∧ before.any E.word = false ∧ after.head?.any E.word = false := by
  rw [addressLength]
  constructor
  · intro h
    split at h
    · rename_i hboundary
      obtain ⟨row, rest, hsplit, hlength, hnumbers, hafter⟩ := numbers_length_some h
      obtain ⟨rfl, rfl⟩ := append_inj hsplit hlength.symm
      refine ⟨hnumbers, ?_, hafter⟩
      rw [List.head?_append, Classes.boundary] at hboundary
      have hfirst := any_word_of_digit hnumbers.ends.1
      rw [List.head?_eq_some_head hne] at hfirst hboundary
      rw [Option.some_or, hfirst] at hboundary
      simpa using hboundary
    · exact absurd h (by simp)
  · rintro ⟨hnumbers, hbefore, hafter⟩
    have hboundary : E.boundary before (found ++ after).head? = true := by
      have hfirst := any_word_of_digit hnumbers.ends.1
      rw [List.head?_eq_some_head hne] at hfirst
      rw [List.head?_append, List.head?_eq_some_head hne, Option.some_or, Classes.boundary, hfirst,
        hbefore]
      rfl
    rw [if_pos hboundary]
    exact numbers_length_of hnumbers hafter

theorem address_length_bounded (h : addressLength E before text = some n) :
    0 < n ∧ n ≤ text.length := by
  rw [addressLength] at h
  split at h
  · obtain ⟨found, after, rfl, rfl, hnumbers, -⟩ := numbers_length_some h
    have hne : found ≠ [] := by
      rintro rfl
      exact absurd hnumbers.ends.1 (by simp)
    have hpos := length_pos_iff.mpr hne
    rw [length_append]
    omega
  · exact absurd h (by simp)

theorem word_of_key_char {c : Char} (h : isKeyChar c) : E.word c := by
  have halnum : c.isAlphanum := by
    simp only [isKeyChar, Bool.or_eq_true] at h
    rcases h with h | h <;> simp [Text.alphanum_iff, h]
  rw [E.word_ascii c (Text.ascii_of_alphanum halnum), halnum, Bool.true_or]

theorem KeyId.all_chars (h : KeyId found) {c : Char} (hc : c ∈ found) : isKeyChar c := by
  rw [← take_append_drop 4 found] at hc
  rcases mem_append.mp hc with hc | hc
  · have htake : found.take 4 = ['A', 'K', 'I', 'A'] ∨ found.take 4 = ['A', 'S', 'I', 'A'] := by
      rcases h.start with ⟨rest, rfl⟩ | ⟨rest, rfl⟩
      · exact .inl rfl
      · exact .inr rfl
    rcases htake with htake | htake
    · rw [htake] at hc
      exact all_eq_true.mp (show ['A', 'K', 'I', 'A'].all isKeyChar = true by decide) c hc
    · rw [htake] at hc
      exact all_eq_true.mp (show ['A', 'S', 'I', 'A'].all isKeyChar = true by decide) c hc
  · exact h.chars c hc

theorem KeyId.ends (h : KeyId found) : found.head?.any E.word ∧ found.getLast?.any E.word := by
  have hne : found ≠ [] := by
    rintro rfl
    exact absurd h.size (by simp)
  refine ⟨?_, ?_⟩
  · rw [List.head?_eq_some_head hne]
    exact word_of_key_char (h.all_chars (head_mem hne))
  · rw [List.getLast?_eq_some_getLast hne]
    exact word_of_key_char (h.all_chars (getLast_mem hne))

theorem key_match :
    keyLength E before (found ++ after) = some found.length ↔
      KeyId found ∧ before.any E.word = false ∧ after.head?.any E.word = false := by
  have htake : found.length = 20 → (found ++ after).take 20 = found ∧
      (found ++ after).drop 20 = after := by
    intro h
    rw [← h]
    exact ⟨take_left, drop_left⟩
  have hboundary : KeyId found → (E.boundary before (found ++ after).head? = true ↔
      before.any E.word = false) ∧ (E.boundary found.getLast? after.head? = true ↔
      after.head?.any E.word = false) := by
    intro h
    obtain ⟨hfirst, hlast⟩ := h.ends (E := E)
    have hne : found ≠ [] := by
      rintro rfl
      exact absurd h.size (by simp)
    rw [List.head?_eq_some_head hne] at hfirst
    rw [List.head?_append, List.head?_eq_some_head hne, Option.some_or, Classes.boundary,
      Classes.boundary, hfirst, hlast]
    cases before.any E.word <;> cases after.head?.any E.word <;> simp
  rw [keyLength]
  constructor
  · intro h
    have hlength : found.length = 20 := by
      split at h
      · exact (Option.some.inj h).symm
      · exact absurd h (by simp)
    obtain ⟨ht, hd⟩ := htake hlength
    simp only [ht, hd] at h
    split at h
    · rename_i hcond
      simp only [Bool.and_eq_true, Bool.or_eq_true, isPrefixOf_iff_prefix, all_eq_true] at hcond
      have hkey : KeyId found := ⟨hlength, hcond.1.1.1.2, hcond.1.2⟩
      exact ⟨hkey, (hboundary hkey).1.mp hcond.1.1.1.1, (hboundary hkey).2.mp hcond.2⟩
    · exact absurd h (by simp)
  · rintro ⟨hkey, hbefore, hafter⟩
    obtain ⟨ht, hd⟩ := htake hkey.size
    simp only [ht, hd]
    rw [if_pos, hkey.size]
    simp only [Bool.and_eq_true, Bool.or_eq_true, isPrefixOf_iff_prefix, all_eq_true, beq_iff_eq]
    exact ⟨⟨⟨⟨(hboundary hkey).1.mpr hbefore, hkey.start⟩, hkey.size⟩, hkey.chars⟩,
      (hboundary hkey).2.mpr hafter⟩

theorem key_length_bounded (h : keyLength E before text = some n) : 0 < n ∧ n ≤ text.length := by
  rw [keyLength] at h
  split at h
  · rename_i hcond
    simp only [Bool.and_eq_true, beq_iff_eq, length_take] at hcond
    rw [← Option.some.inj h]
    omega
  · exact absurd h (by simp)

theorem last_domain_bounded (h : lastDomain text = some n) : n ≤ text.length := by
  induction text generalizing n with
  | nil => exact absurd h (by simp [lastDomain])
  | cons c text ih =>
    rw [lastDomain] at h
    split at h
    · rename_i m hm
      have hle := ih hm
      rw [← Option.some.inj h, length_cons]
      omega
    · dsimp only at h
      split at h
      · have hle := ( takeWhile_prefix Char.isAlpha (l := text)).length_le
        rw [← Option.some.inj h, length_cons]
        omega
      · exact absurd h (by simp)

theorem last_domain_found {host : List Char} {l m : Char} (hl : l.isAlpha) (hm : m.isAlpha)
    (after : List Char) : (lastDomain (host ++ '.' :: l :: m :: after)).isSome := by
  induction host with
  | nil =>
    rw [nil_append, lastDomain]
    split
    · rfl
    · simp [hl, hm]
  | cons c host ih =>
    obtain ⟨n, hn⟩ := Option.isSome_iff_exists.mp ih
    rw [cons_append, lastDomain, hn]
    rfl

theorem email_length_some (h : emailLength text = some n) :
    ∃ name c host rest m, text = name ++ '@' :: (c :: host ++ rest) ∧ name ≠ [] ∧
      (∀ x ∈ name, isLocal x) ∧ isHost c ∧ (∀ x ∈ host, isHost x) ∧ lastDomain host = some m ∧
      n = name.length + 2 + m := by
  rw [emailLength] at h
  have hsplit : text.takeWhile isLocal ++ text.drop (text.takeWhile isLocal).length = text :=
    prefix_iff_eq_append.mp ( takeWhile_prefix _)
  split at h
  · exact absurd h (by simp)
  rename_i hempty
  split at h
  · rename_i rest hrest
    split at h
    · rename_i c host hhost
      obtain ⟨m, hm, rfl⟩ := Option.map_eq_some_iff.mp h
      obtain ⟨more, hmore⟩ := takeWhile_prefix isHost (l := rest)
      rw [hhost] at hmore
      have hall : ∀ x ∈ c :: host, isHost x := by
        intro x hx
        rw [← hhost] at hx
        exact mem_takeWhile_imp hx
      refine ⟨_, c, host, more, m, ?_, by simpa using hempty,
        fun x hx => mem_takeWhile_imp hx, hall c mem_cons_self,
        fun x hx => hall x (mem_cons_of_mem c hx), hm, rfl⟩
      rw [hmore, ← hrest, hsplit]
    · exact absurd h (by simp)
  · exact absurd h (by simp)

theorem email_length_bounded (h : emailLength text = some n) : 0 < n ∧ n ≤ text.length := by
  obtain ⟨name, c, host, rest, m, rfl, -, -, -, -, hm, rfl⟩ := email_length_some h
  have hle := last_domain_bounded hm
  simp only [length_append, length_cons]
  omega

/-- An e-mail address is matched at the last character of its name. -/
theorem email_core_matched (h : EmailCore found) (after : List Char) :
    (emailLength (found ++ after)).isSome := by
  obtain ⟨x, d, host, l, m, rfl, hx, hd, hhost, hl, hm⟩ := h.parts
  have hat : isLocal '@' = false := by decide
  have hpoint : isHost '.' = true := by decide
  have hletter : ∀ c : Char, c.isAlpha → isHost c := by
    intro c hc
    simp [isHost, Char.isAlphanum, hc]
  have hname : (x :: '@' :: d :: (host ++ ['.', l, m]) ++ after).takeWhile isLocal = [x] := by
    simp [hx, hat]
  obtain ⟨more, hmore⟩ : ∃ more, (d :: (host ++ ['.', l, m]) ++ after).takeWhile isHost =
      d :: (host ++ '.' :: l :: m :: more) := by
    refine ⟨after.takeWhile isHost, ?_⟩
    have hall : ∀ c ∈ d :: (host ++ ['.', l, m]), isHost c := by
      intro c hc
      simp only [mem_cons, mem_append, not_mem_nil, or_false] at hc
      rcases hc with rfl | hc | rfl | rfl | rfl
      · exact hd
      · exact hhost c hc
      · exact hpoint
      · exact hletter _ hl
      · exact hletter _ hm
    rw [takeWhile_append_of_pos hall]
    simp
  obtain ⟨n, hn⟩ : ∃ n, lastDomain (host ++ '.' :: l :: m :: more) = some n :=
    Option.isSome_iff_exists.mp (last_domain_found hl hm more)
  rw [emailLength, hname]
  simp only [isEmpty_cons, Bool.false_eq_true, if_false, length_singleton,
    cons_append, drop_succ_cons, drop_zero]
  rw [← cons_append, hmore]
  show (Option.map (1 + 2 + ·) (lastDomain (host ++ '.' :: l :: m :: more))).isSome = true
  rw [hn]
  rfl

/-! ## The redactors -/

variable (E)

/-- The patterns of `REDACTORS`. -/
def arnPattern : Pattern where
  length _ := arnLength E
  bounded h := (arn_length_some h).2

def emailPattern : Pattern where
  length _ := emailLength
  bounded h := email_length_bounded h

def accountPattern : Pattern where
  length := accountLength E
  bounded h := account_length_bounded h

def addressPattern : Pattern where
  length := addressLength E
  bounded h := address_length_bounded h

def keyPattern : Pattern where
  length := keyLength E
  bounded h := key_length_bounded h

/-- A replacement of `REDACTORS`. -/
def tag (name : String) : Tag where
  opening := '<'
  name := name.toList
  closing := '>'

/-- `REDACTORS`: the address of an e-mail goes before the account ids. -/
def redactors : List (Pattern × Tag) :=
  [(arnPattern E, tag "arn"), (emailPattern, tag "email"), (accountPattern E, tag "acct"),
    (addressPattern E, tag "ip"), (keyPattern E, tag "akid")]

def redact (text : List Char) : List Char :=
  (redactors E).foldl (fun text r => r.1.sub r.2.chars text) text

end AwsOps.Redaction

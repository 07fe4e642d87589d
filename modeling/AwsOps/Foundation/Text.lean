import Mathlib.Algebra.GroupWithZero.Nat
import Mathlib.Data.List.Infix

/-!
# Text operations of the source language

Strings are read as lists of characters. The operations that depend on the Unicode character
database take it as a `Unicode` value: only its values on ASCII are fixed, so a result stated for
every `Unicode` holds under every version of the database. Whitespace is the fixed set that
`str.strip` and `str.isspace` use.
-/

namespace AwsOps.Text

/-- The character is in the ASCII range. -/
def isAscii (c : Char) : Bool :=
  c.toNat < 128

/-- The letter that `IGNORECASE` compares a character by. Besides the ASCII letters, the long s,
the Kelvin sign and the Turkish i's count as ASCII letters. -/
def foldCase (c : Char) : Char :=
  match c.toNat with
  | 0x17F => 'S'
  | 0x212A => 'K'
  | 0x130 => 'I'
  | 0x131 => 'I'
  | _ => c.toUpper

/-- The parts of the Unicode character database that text operations consult: `str.isalnum`,
`str.isprintable`, `str.isdigit`, the value of a decimal digit, `str.lower` and `str.upper`. On
ASCII they have their usual values, and the letters that `IGNORECASE` knows are no digits. -/
structure Unicode where
  alnum : Char → Bool
  printable : Char → Bool
  isDigit : Char → Bool
  digit : Char → Option Nat
  lower : List Char → List Char
  upper : List Char → List Char
  alnum_ascii : ∀ c, isAscii c → alnum c = c.isAlphanum
  printable_ascii : ∀ c, isAscii c → printable c = decide (32 ≤ c.toNat ∧ c.toNat < 127)
  is_digit_ascii : ∀ c, isAscii c → isDigit c = c.isDigit
  digit_ascii : ∀ c, isAscii c → digit c = if c.isDigit then some (c.toNat - 48) else none
  digit_not_letter : ∀ c, (digit c).isSome → (foldCase c).isUpper = false
  lower_ascii : ∀ s, s.all isAscii → lower s = s.map Char.toLower
  upper_ascii : ∀ s, s.all isAscii → upper s = s.map Char.toUpper

theorem forall_ascii (p : Char → Prop) (h : ∀ n : Fin 128, p (Char.ofNat n)) (c : Char)
    (hascii : isAscii c) : p c := by
  have hlt : c.toNat < 128 := by simpa [isAscii] using hascii
  have hc := h ⟨c.toNat, hlt⟩
  rwa [Char.ofNat_toNat] at hc

theorem ascii_of_digit {c : Char} (h : c.isDigit) : isAscii c := by
  simp only [Char.isDigit, Bool.and_eq_true, decide_eq_true_eq, UInt32.le_iff_toNat_le] at h
  have hle : c.toNat ≤ 57 := h.2
  simp only [isAscii, decide_eq_true_eq]
  omega

theorem ascii_of_upper {c : Char} (h : isAscii c.toUpper) : isAscii c := by
  unfold Char.toUpper at h
  split at h
  case isFalse => exact h
  case isTrue hrange =>
    have hle : c.toNat ≤ 122 := hrange.2
    simp only [isAscii, decide_eq_true_eq]
    omega

theorem alphanum_iff {c : Char} :
    c.isAlphanum = true ↔ (c.isUpper = true ∨ c.isLower = true) ∨ c.isDigit = true := by
  show (c.isUpper || c.isLower || c.isDigit) = true ↔ _
  rw [Bool.or_eq_true, Bool.or_eq_true]

theorem ascii_of_alphanum {c : Char} (h : c.isAlphanum) : isAscii c := by
  rcases alphanum_iff.mp h with (hupper | hlower) | hdigit
  · have hle : c.toNat ≤ 90 := (of_decide_eq_true hupper).2
    simp only [isAscii, decide_eq_true_eq]
    omega
  · have hle : c.toNat ≤ 122 := of_decide_eq_true (Bool.and_eq_true_iff.mp hlower).2
    simp only [isAscii, decide_eq_true_eq]
    omega
  · exact ascii_of_digit hdigit

theorem fold_case_digit (c : Char) (h : c.isDigit) : (foldCase c).isUpper = false := by
  have key : c.isDigit → (foldCase c).isUpper = false :=
    forall_ascii (fun c => c.isDigit → (foldCase c).isUpper = false) (by decide) c
      (ascii_of_digit h)
  exact key h

/-- The database restricted to ASCII: no other character is a letter or a digit or has a case. -/
def Unicode.ascii : Unicode where
  alnum := Char.isAlphanum
  printable c := decide (32 ≤ c.toNat ∧ c.toNat < 127)
  isDigit := Char.isDigit
  digit c := if c.isDigit then some (c.toNat - 48) else none
  lower s := s.map Char.toLower
  upper s := s.map Char.toUpper
  alnum_ascii _ _ := rfl
  printable_ascii _ _ := rfl
  is_digit_ascii _ _ := rfl
  digit_ascii _ _ := rfl
  digit_not_letter c h := fold_case_digit c (by simpa using h)
  lower_ascii _ _ := rfl
  upper_ascii _ _ := rfl

/-- `str.isspace` for one character. -/
def isSpace (c : Char) : Bool :=
  let n := c.toNat
  (9 ≤ n && n ≤ 13) || (28 ≤ n && n ≤ 32) || n == 0x85 || n == 0xA0 || n == 0x1680 ||
    (0x2000 ≤ n && n ≤ 0x200A) || n == 0x2028 || n == 0x2029 || n == 0x202F || n == 0x205F ||
    n == 0x3000

/-- The white space that `trim` of JavaScript removes. -/
def isTrimmed (c : Char) : Bool :=
  [0x9, 0xA, 0xB, 0xC, 0xD, 0x20, 0xA0, 0x1680, 0x2028, 0x2029, 0x202F, 0x205F, 0x3000,
    0xFEFF].contains c.toNat || 0x2000 ≤ c.toNat && c.toNat ≤ 0x200A

/-- Remove the characters of a set from both ends, as `str.strip(chars)` does. -/
def stripBy (p : Char → Bool) (s : List Char) : List Char :=
  ((s.dropWhile p).reverse.dropWhile p).reverse

theorem strip_by_eq_self {p : Char → Bool} {s : List Char} (h : ∀ c ∈ s, p c = false) :
    stripBy p s = s := by
  have hkeep : ∀ {s : List Char}, (∀ c ∈ s, p c = false) → s.dropWhile p = s := by
    intro s h
    cases s with
    | nil => rfl
    | cons c s => rw [List.dropWhile_cons_of_neg (by simp [h c List.mem_cons_self])]
  rw [stripBy, hkeep h, hkeep fun c hc => h c (List.mem_reverse.mp hc), List.reverse_reverse]

/-- `str.strip()`. -/
def strip (s : List Char) : List Char :=
  stripBy isSpace s

/-- A word character of a regular expression: `\w`. -/
def isWord (U : Unicode) (c : Char) : Bool :=
  U.alnum c || c == '_'

/-- The digits of a base-`base` numeral, most significant first. -/
def ofDigits (base : Nat) (digits : List Nat) : Nat :=
  digits.foldl (fun n d => n * base + d) 0

/-- Digits that may be separated by single underscores, as `int` accepts them. -/
def digitRun (U : Unicode) : List Char → Option (List Nat)
  | [] => none
  | [c] => (U.digit c).map ([·])
  | c :: '_' :: rest => do
      let d ← U.digit c
      let ds ← digitRun U rest
      pure (d :: ds)
  | c :: rest => do
      let d ← U.digit c
      let ds ← digitRun U rest
      pure (d :: ds)

/-- The number of digits beyond which `int` refuses to convert a text. -/
def maxIntDigits : Nat := 4300

/-- The value of the digits of a numeral. -/
def magnitude (U : Unicode) (s : List Char) : Option Nat :=
  (digitRun U s).bind fun ds => if ds.length ≤ maxIntDigits then some (ofDigits 10 ds) else none

/-- `int(text)` in base ten: surrounding whitespace, one sign, then digits. `none` is the
`ValueError`. -/
def int (U : Unicode) (s : List Char) : Option Int :=
  match strip s with
  | '-' :: rest => (magnitude U rest).map fun n => -(n : Int)
  | '+' :: rest => (magnitude U rest).map fun n => (n : Int)
  | rest => (magnitude U rest).map fun n => (n : Int)

/-- Cut the text at the occurrences of a separator, from the left and without overlap; the number
counts the characters of the current occurrence that are still to be skipped. -/
def cutOn (sep : List Char) : Nat → List Char → List (List Char)
  | _, [] => [[]]
  | skip + 1, _ :: rest => cutOn sep skip rest
  | 0, c :: rest =>
    if sep.isPrefixOf (c :: rest) then [] :: cutOn sep (sep.length - 1) rest
    else
      match cutOn sep 0 rest with
      | [] => [[c]]
      | piece :: pieces => (c :: piece) :: pieces

/-- `text.split(sep)`. -/
def split (sep s : List Char) : List (List Char) :=
  cutOn sep 0 s

theorem split_separator (sep : Char) (rest : List Char) :
    split [sep] (sep :: rest) = [] :: split [sep] rest := by
  have hpos : [sep].isPrefixOf (sep :: rest) = true := by simp
  unfold split
  rw [cutOn, if_pos hpos]
  rfl

theorem split_ne_nil (sep : Char) (text : List Char) : split [sep] text ≠ [] := by
  cases text with
  | nil => exact List.cons_ne_nil _ _
  | cons c rest =>
    unfold split cutOn
    split
    · exact List.cons_ne_nil _ _
    · split <;> exact List.cons_ne_nil _ _

theorem split_cons {sep c : Char} (hc : c ≠ sep) (rest : List Char) :
    ∃ first others, split [sep] rest = first :: others ∧
      split [sep] (c :: rest) = (c :: first) :: others := by
  obtain ⟨first, others, hrest⟩ := List.exists_cons_of_ne_nil (split_ne_nil sep rest)
  refine ⟨first, others, hrest, ?_⟩
  have hneg : ¬[sep].isPrefixOf (c :: rest) = true := by simpa using hc.symm
  unfold split at hrest ⊢
  rw [cutOn, if_neg hneg, hrest]

/-- `text.replace(sep, "")`. -/
def erase (sep s : List Char) : List Char :=
  (split sep s).flatten

/-- `sub in text`. -/
def contains (sub s : List Char) : Bool :=
  decide (sub <:+: s)

/-- `str.lower()` on a string. -/
def lower (U : Unicode) (s : String) : String :=
  String.ofList (U.lower s.toList)

/-- `str.upper()` on a string. -/
def upper (U : Unicode) (s : String) : String :=
  String.ofList (U.upper s.toList)

/-- The digits of a natural number in a base, zero-padded on the left to the given width. -/
def numeral (base width n : Nat) : List Char :=
  let digits := Nat.toDigits base n
  List.replicate (width - digits.length) '0' ++ digits

/-- The text without the one newline that `$` tolerates at its end. -/
def beforeEnd (s : List Char) : List Char :=
  if s.getLast? == some '\n' then s.dropLast else s

/-- `^[first][rest]{0,bound}$`. -/
def matchesIdentifier (first rest : Char → Bool) (bound : Nat) (s : List Char) : Bool :=
  match beforeEnd s with
  | [] => false
  | c :: cs => first c && cs.all rest && decide (cs.length ≤ bound)

/-- The text before and after the first occurrence of a character, if there is one. -/
def cutFirst (sep : Char) : List Char → Option (List Char × List Char)
  | [] => none
  | c :: rest =>
    if c == sep then some ([], rest)
    else (cutFirst sep rest).map fun (front, back) => (c :: front, back)

/-- The leftmost place at which the rest of the text matches, with the text before it. -/
def search {α : Type} (rule : List Char → Option α) : List Char → Option (List Char × α)
  | [] => (rule []).map fun a => ([], a)
  | c :: rest =>
    match rule (c :: rest) with
    | some a => some ([], a)
    | none => (search rule rest).map fun (before, a) => (c :: before, a)

/-- How `repr` writes one character of a string in the given quotes. -/
def escapeChar (U : Unicode) (quote c : Char) : List Char :=
  let backslash := Char.ofNat 92
  let n := c.toNat
  if c == quote || c == backslash then [backslash, c]
  else if c == '\t' then [backslash, 't']
  else if c == '\n' then [backslash, 'n']
  else if n == 13 then [backslash, 'r']
  else if U.printable c then [c]
  else if n < 0x100 then backslash :: 'x' :: numeral 16 2 n
  else if n < 0x10000 then backslash :: 'u' :: numeral 16 4 n
  else backslash :: 'U' :: numeral 16 8 n

/-- `repr` of a string: in single quotes, unless it holds one of these and no double quote. -/
def repr (U : Unicode) (s : String) : String :=
  let single := Char.ofNat 39
  let double := Char.ofNat 34
  let quote := if s.toList.contains single && !s.toList.contains double then double else single
  String.ofList (quote :: (s.toList.flatMap (escapeChar U quote) ++ [quote]))

/-- `repr` of an optional string. -/
def reprOption (U : Unicode) (s : Option String) : String :=
  (s.map (repr U)).getD "None"

/-- `repr` of a plain string, one without quotes, backslashes and unprintable characters. -/
def reprPlain (s : String) : String :=
  "'" ++ s ++ "'"

/-- `repr` of a list of plain strings. -/
def reprList (items : List String) : String :=
  "[" ++ String.intercalate ", " (items.map reprPlain) ++ "]"

/-- `repr` of an optional plain string. -/
def reprOf (s : Option String) : String :=
  (s.map reprPlain).getD "None"

/-- `str` of an optional string. -/
def strOf (s : Option String) : String :=
  s.getD "None"

/-- `str` of an optional integer. -/
def strOfInt (n : Option Int) : String :=
  (n.map toString).getD "None"

example : int .ascii " -1_000 ".toList = some (-1000) := by decide

end AwsOps.Text

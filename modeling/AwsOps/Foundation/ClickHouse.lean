import AwsOps.Foundation.Text
import AwsOps.Foundation.Tokens

/-!
# The lexical structure of ClickHouse

The tokens of a text as ClickHouse cuts them: strings and quoted identifiers with doubled quotes and
backslash escapes, curly quotes without either, heredocs, comments that do not nest. Of the symbols
each character is a token of its own, a number takes up the letters that follow it, and what is not
closed runs to the end of the text, where the server reports it. A character beyond ASCII outside
quotes and comments, which the server skips or rejects, is `foreign`, and so is a `#` that opens no
comment.
-/

namespace AwsOps.ClickHouse

open List Text Tokens

/-- The kinds of tokens. -/
inductive Kind
  | blank | line | block | constant | heredoc | curlyConstant | quoted | curlyQuoted | word | number
  | symbol | foreign
  deriving DecidableEq

/-- White space. -/
def isBlank (c : Char) : Bool :=
  c == ' ' || (9 ≤ c.toNat && c.toNat ≤ 13)

/-- A word character. -/
def isWordChar (c : Char) : Bool :=
  c.isAlphanum || c == '_'

/-- A character that continues a word. -/
def isWordCont (c : Char) : Bool :=
  isWordChar c || c == '$'

/-- The curly quotes of strings. -/
def openSingle : Char := Char.ofNat 0x2018

def closeSingle : Char := Char.ofNat 0x2019

/-- The curly quotes of identifiers. -/
def openDouble : Char := Char.ofNat 0x201C

def closeDouble : Char := Char.ofNat 0x201D

/-- A token that opens with a dollar sign: a heredoc if it is closed, or a word, or the sign
alone. -/
def dollarToken (rest : List Char) : Token Kind :=
  let tag := rest.takeWhile fun c => c != '$'
  let mark := '$' :: tag ++ ['$']
  let body := rest.drop (tag.length + 1)
  if rest.contains '$' && contains mark body then ⟨.heredoc, mark ++ throughText mark body⟩
  else if rest.head?.any isWordChar then ⟨.word, '$' :: rest.takeWhile isWordCont⟩
  else ⟨.symbol, ['$']⟩

/-- The text opens a comment to the end of the line. -/
def opensLine (c : Char) (rest : List Char) : Bool :=
  c == '-' && rest.head? == some '-' ||
    c == '#' && (rest.head? == some ' ' || rest.head? == some '!')

def firstToken (c : Char) (rest : List Char) : Token Kind :=
  if isBlank c then ⟨.blank, [c]⟩
  else if opensLine c rest then
    ⟨.line, c :: rest.takeWhile fun c => c != '\n'⟩
  else if c == '/' && rest.head? == some '*' then
    ⟨.block, c :: '*' :: throughText ['*', '/'] rest.tail⟩
  else if c == apostrophe then ⟨.constant, c :: quotedText (some backslash) apostrophe rest⟩
  else if c == doubleQuote || c == backtick then
    ⟨.quoted, c :: quotedText (some backslash) c rest⟩
  else if c == '$' then dollarToken rest
  else if c == openSingle then ⟨.curlyConstant, c :: throughText [closeSingle] rest⟩
  else if c == openDouble then ⟨.curlyQuoted, c :: throughText [closeDouble] rest⟩
  else if c.isAlpha || c == '_' then ⟨.word, c :: rest.takeWhile isWordCont⟩
  else if c.isDigit then ⟨.number, c :: rest.takeWhile isWordChar⟩
  else if isAscii c && c != '#' then ⟨.symbol, [c]⟩
  else ⟨.foreign, [c]⟩

/-! ## Values of identifiers -/

/-- The value of a hexadecimal digit. -/
def hexValue (c : Char) : Option Nat :=
  if c.isDigit then some (c.toNat - 48)
  else if 'a' ≤ c ∧ c ≤ 'f' then some (c.toNat - 87)
  else if 'A' ≤ c ∧ c ≤ 'F' then some (c.toNat - 55)
  else none

/-- The characters that `\n`, `\t` and the like stand for. -/
def controlEscapes : List (Char × Nat) :=
  [('a', 7), ('b', 8), ('e', 27), ('f', 12), ('n', 10), ('r', 13), ('t', 9), ('v', 11), ('0', 0)]

/-- The characters that an escape stands for, given the character after the backslash: a control
character, a quote, a slash or a backslash; any other keeps its backslash. -/
def escaped (c : Char) : List Char :=
  match controlEscapes.lookup c with
  | some n => [Char.ofNat n]
  | none =>
    if [backslash, apostrophe, doubleQuote, backtick, '/'].contains c then [c] else [backslash, c]

/-- What an escape stands for, given the text after the backslash, and the number of characters that
it takes: `\xHH` is the character with the number, `\N` is nothing. -/
def escapeOf : List Char → List Char × Nat
  | [] => ([backslash], 0)
  | 'x' :: high :: low :: _ =>
    match hexValue high, hexValue low with
    | some h, some l => ([Char.ofNat (16 * h + l)], 3)
    | _, _ => (escaped 'x', 1)
  | 'N' :: _ => ([], 1)
  | c :: _ => (escaped c, 1)

/-- What a quoted text stands for after its opening quote, of which the first characters are still to
be skipped; a doubled quote is one. -/
def decodedFrom (quote : Char) : Nat → List Char → List Char
  | _, [] => []
  | skip + 1, _ :: rest => decodedFrom quote skip rest
  | 0, c :: rest =>
    if c = backslash then
      let (out, taken) := escapeOf rest
      out ++ decodedFrom quote taken rest
    else if c = quote then
      if rest.head? = some quote then c :: decodedFrom quote 1 rest else []
    else c :: decodedFrom quote 0 rest

def identifierValue (t : Token Kind) : Option (List Char) :=
  match t.kind, t.text with
  | .word, text => some text
  | .quoted, quote :: text => some (decodedFrom quote 0 text)
  | .curlyQuoted, _ :: text => some (text.takeWhile fun c => c != closeDouble)
  | _, _ => none

/-- A text with a dollar sign is what stands before the first one, the sign, and the rest. -/
theorem split_at_dollar {rest : List Char} (h : '$' ∈ rest) :
    rest = (rest.takeWhile fun c => c != '$') ++
      '$' :: rest.drop ((rest.takeWhile fun c => c != '$').length + 1) := by
  have hsplit := (prefix_iff_eq_append.mp
    ( takeWhile_prefix (fun c : Char => c != '$') (l := rest))).symm
  cases hdrop : rest.drop (rest.takeWhile fun c => c != '$').length with
  | nil =>
    rw [hdrop, append_nil] at hsplit
    rw [hsplit] at h
    simpa using mem_takeWhile_imp h
  | cons c tail =>
    rw [hdrop] at hsplit
    have hc : (c != '$') = false := stop_of_take_while hsplit rfl
    obtain rfl := bne_eq_false_iff_eq.mp hc
    rw [← drop_drop, hdrop, drop_one, tail_cons]
    exact hsplit

theorem dollar_token_reads (rest : List Char) :
    ∃ more, (dollarToken rest).text = '$' :: more ∧ more <+: rest := by
  unfold dollarToken
  dsimp only
  split
  · next hopen =>
      refine ⟨_, rfl, ?_⟩
      simp only [Bool.and_eq_true, contains_eq_mem, decide_eq_true_eq] at hopen
      have hstarts : ∀ mark : List Char, (rest.takeWhile fun c => c != '$') ++ ['$'] ++
          throughText mark (rest.drop ((rest.takeWhile fun c => c != '$').length + 1)) <+: rest := by
        intro mark
        conv_rhs => rw [split_at_dollar hopen.1]
        rw [append_assoc, prefix_append_right_inj]
        exact (prefix_cons_inj '$').mpr (through_text_starts mark _)
      exact hstarts _
  · split
    · exact ⟨_, rfl, takeWhile_prefix _⟩
    · exact ⟨[], rfl, nil_prefix⟩

/-- A token opens with the first character of a text and goes on with it. -/
def Opens (c : Char) (rest : List Char) (t : Token Kind) : Prop :=
  ∃ more, t.text = c :: more ∧ more <+: rest

theorem first_token_reads (c : Char) (rest : List Char) : Opens c rest (firstToken c rest) := by
  have hquoted : ∀ kind, Opens c rest ⟨kind, c :: quotedText (some backslash) c rest⟩ :=
    fun _ => ⟨_, rfl, quoted_text_starts _ _ _⟩
  have hrun : ∀ kind (p : Char → Bool), Opens c rest ⟨kind, c :: rest.takeWhile p⟩ :=
    fun _ _ => ⟨_, rfl, takeWhile_prefix _⟩
  have hthrough : ∀ kind mark, Opens c rest ⟨kind, c :: throughText mark rest⟩ :=
    fun _ _ => ⟨_, rfl, through_text_starts _ _⟩
  have hone : ∀ kind, Opens c rest ⟨kind, [c]⟩ := fun _ => ⟨[], rfl, nil_prefix⟩
  unfold firstToken
  refine iteInduction (fun _ => hone _) fun _ => iteInduction (fun _ => hrun _ _) fun _ =>
    iteInduction (fun hopen => ?_) fun _ =>
    iteInduction (fun _ => ⟨_, rfl, quoted_text_starts _ _ _⟩) fun _ =>
    iteInduction (fun _ => hquoted _) fun _ => iteInduction (fun hdollar => ?_) fun _ =>
    iteInduction (fun _ => hthrough _ _) fun _ => iteInduction (fun _ => hthrough _ _) fun _ =>
    iteInduction (fun _ => hrun _ _) fun _ => iteInduction (fun _ => hrun _ _) fun _ =>
    iteInduction (fun _ => hone _) fun _ => hone _
  · simp only [Bool.and_eq_true, beq_iff_eq] at hopen
    refine ⟨_, rfl, ?_⟩
    conv_rhs => rw [eq_cons_of_mem_head? hopen.2]
    exact (prefix_cons_inj _).mpr (through_text_starts _ _)
  · rw [eq_of_beq hdollar]
    exact dollar_token_reads rest

/-- The lexer, which needs no state. -/
def lexer : Lexer Kind Unit where
  first _ := firstToken
  after _ _ := ()
  reads _ := first_token_reads

def tokens (text : List Char) : List (Token Kind) :=
  lexer.tokens () text

end AwsOps.ClickHouse

import AwsOps.Foundation.Text
import AwsOps.Foundation.Tokens

/-!
# The lexical structure of PostgreSQL

The tokens of a text as the lexer of PostgreSQL 17 cuts them, with `standard_conforming_strings` on
and in an encoding where every byte of a character beyond ASCII is one of an identifier. Of the
symbols each character is a token of its own: an operator never runs over the start of a comment, so
this changes no other token. The letters before a constant in binary, hexadecimal, national or
Unicode form are words, since they change its value but not where it ends. A number takes up the
letters that follow it, where the server reports trailing junk; what is not closed runs to the end
of the text, where the server reports that too.
-/

namespace AwsOps.Postgres

open List Text Tokens

/-- The kinds of tokens. A constant is `escape` where it opens with `E`, and `continued` where it
continues such a one over a line break. -/
inductive Kind
  | blank | line | block | constant | escape | continued | dollar | quoted | word | number
  | parameter | symbol
  deriving DecidableEq

/-- A line break ends a comment. -/
def isNewline (c : Char) : Bool :=
  c == '\n' || c == '\r'

/-- White space. -/
def isBlank (c : Char) : Bool :=
  c == ' ' || c == '\t' || isNewline c || c == Char.ofNat 11 || c == Char.ofNat 12

/-- A character that opens an identifier. -/
def isIdentStart (c : Char) : Bool :=
  c.isAlpha || c == '_' || !isAscii c

/-- A character of a tag, or of a number with its junk. -/
def isTagChar (c : Char) : Bool :=
  isIdentStart c || c.isDigit

/-- A character that continues an identifier. -/
def isIdentCont (c : Char) : Bool :=
  isTagChar c || c == '$'

/-- Whether a constant with escapes is open for a continuation, and whether a line break has been
seen since. -/
inductive Pending
  | plain
  | escape (newline : Bool)
  deriving DecidableEq

/-- A token that opens with a dollar sign: a constant between two equal tags, a parameter, or the
sign alone. -/
def dollarToken (rest : List Char) : Token Kind :=
  let tag := rest.takeWhile isTagChar
  if tag.head?.any Char.isDigit then ⟨.parameter, '$' :: tag⟩
  else match rest.drop tag.length with
    | '$' :: body =>
      let mark := '$' :: tag ++ ['$']
      ⟨.dollar, mark ++ throughText mark body⟩
    | _ => ⟨.symbol, ['$']⟩

def firstToken (pending : Pending) (c : Char) (rest : List Char) : Token Kind :=
  if isBlank c then ⟨.blank, [c]⟩
  else if c == '-' && rest.head? == some '-' then
    ⟨.line, c :: rest.takeWhile fun c => !isNewline c⟩
  else if c == '/' && rest.head? == some '*' then ⟨.block, c :: '*' :: nestedText 1 rest.tail⟩
  else if c == apostrophe then
    if pending = .escape true then
      ⟨.continued, c :: quotedText (some backslash) apostrophe rest⟩
    else ⟨.constant, c :: quotedText none apostrophe rest⟩
  else if (c == 'e' || c == 'E') && rest.head? == some apostrophe then
    ⟨.escape, c :: apostrophe :: quotedText (some backslash) apostrophe rest.tail⟩
  else if c == doubleQuote then ⟨.quoted, c :: quotedText none doubleQuote rest⟩
  else if c == '$' then dollarToken rest
  else if isIdentStart c then ⟨.word, c :: rest.takeWhile isIdentCont⟩
  else if c.isDigit then ⟨.number, c :: rest.takeWhile isTagChar⟩
  else ⟨.symbol, [c]⟩

/-- Whether a continuation is open after a token. -/
def pendingAfter (pending : Pending) (t : Token Kind) : Pending :=
  match t.kind, pending with
  | .escape, _ | .continued, _ => .escape false
  | .blank, .escape newline => .escape (newline || t.text.any isNewline)
  | .line, pending => pending
  | _, _ => .plain

theorem dollar_token_reads (rest : List Char) :
    ∃ more, (dollarToken rest).text = '$' :: more ∧ more <+: rest := by
  have htag : rest.takeWhile isTagChar <+: rest := takeWhile_prefix _
  unfold dollarToken
  dsimp only
  split
  · exact ⟨_, rfl, htag⟩
  · split
    · next body hbody =>
        refine ⟨_, rfl, ?_⟩
        have hrest : rest = rest.takeWhile isTagChar ++ '$' :: body := by
          rw [← hbody]
          exact (prefix_iff_eq_append.mp htag).symm
        have hmark : ∀ mark : List Char,
            rest.takeWhile isTagChar ++ ['$'] ++ throughText mark body <+: rest := by
          intro mark
          conv_rhs => rw [hrest]
          rw [append_assoc, prefix_append_right_inj]
          exact (prefix_cons_inj '$').mpr (through_text_starts mark body)
        exact hmark _
    · exact ⟨[], rfl, nil_prefix⟩

theorem first_token_reads (pending : Pending) (c : Char) (rest : List Char) :
    ∃ more, (firstToken pending c rest).text = c :: more ∧ more <+: rest := by
  unfold firstToken
  split
  · exact ⟨[], rfl, nil_prefix⟩
  · split
    · exact ⟨_, rfl, takeWhile_prefix _⟩
    · split
      · next hopen =>
          simp only [Bool.and_eq_true, beq_iff_eq] at hopen
          refine ⟨_, rfl, ?_⟩
          conv_rhs => rw [eq_cons_of_mem_head? hopen.2]
          exact (prefix_cons_inj _).mpr (nested_text_starts 1 _)
      · split
        · split
          · exact ⟨_, rfl, quoted_text_starts _ _ _⟩
          · exact ⟨_, rfl, quoted_text_starts _ _ _⟩
        · split
          · next hopen =>
              simp only [Bool.and_eq_true, beq_iff_eq] at hopen
              refine ⟨_, rfl, ?_⟩
              conv_rhs => rw [eq_cons_of_mem_head? hopen.2]
              exact (prefix_cons_inj _).mpr (quoted_text_starts _ _ _)
          · split
            · exact ⟨_, rfl, quoted_text_starts _ _ _⟩
            · split
              · next hdollar =>
                  rw [eq_of_beq hdollar]
                  exact dollar_token_reads rest
              · split
                · exact ⟨_, rfl, takeWhile_prefix _⟩
                · split
                  · exact ⟨_, rfl, takeWhile_prefix _⟩
                  · exact ⟨[], rfl, nil_prefix⟩

def lexer : Lexer Kind Pending where
  first := firstToken
  after := pendingAfter
  reads := first_token_reads

def tokens (text : List Char) : List (Token Kind) :=
  lexer.tokens .plain text

end AwsOps.Postgres

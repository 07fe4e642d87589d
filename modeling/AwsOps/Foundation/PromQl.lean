import AwsOps.Foundation.Tokens

/-!
# The lexical structure of PromQL

The comments and the strings of a text in PromQL and the languages like it: a comment runs to the end
of the line, strings in double or single quotes have backslash escapes and end on their line, strings
in backticks have no escapes. A string that is not closed is an error that the rest of the text
belongs to. Which escapes there are is not checked. Any other character stands alone.
-/

namespace AwsOps.PromQl

open List Tokens

/-- The kinds of tokens. -/
inductive Kind
  | comment | string | unclosed | other
  deriving DecidableEq

/-- What is read of a string after its opening quote, up to the quote that closes it. -/
def quoted (quote : Char) : Bool → List Char → Option (List Char)
  | _, [] => none
  | escaped, c :: rest =>
    if c = '\n' then none
    else if escaped then (quoted quote false rest).map (c :: ·)
    else if c = quote then some [c]
    else (quoted quote (c == backslash) rest).map (c :: ·)

def firstToken (c : Char) (rest : List Char) : Token Kind :=
  if c = '#' then ⟨.comment, c :: rest.takeWhile fun c => c != '\n'⟩
  else if c = doubleQuote ∨ c = apostrophe then
    match quoted c false rest with
    | some content => ⟨.string, c :: content⟩
    | none => ⟨.unclosed, c :: rest⟩
  else if c = backtick then
    if rest.contains c then ⟨.string, c :: throughText [c] rest⟩ else ⟨.unclosed, c :: rest⟩
  else ⟨.other, [c]⟩

theorem quoted_starts {quote : Char} {escaped : Bool} {text content : List Char}
    (h : quoted quote escaped text = some content) : content <+: text := by
  induction text generalizing escaped content with
  | nil => cases h
  | cons c rest ih =>
    unfold quoted at h
    split_ifs at h
    case pos =>
      obtain ⟨tail, htail, rfl⟩ := Option.map_eq_some_iff.mp h
      exact (prefix_cons_inj c).mpr (ih htail)
    case pos => cases h; exact (prefix_cons_inj c).mpr nil_prefix
    case neg =>
      obtain ⟨tail, htail, rfl⟩ := Option.map_eq_some_iff.mp h
      exact (prefix_cons_inj c).mpr (ih htail)

theorem first_token_reads (c : Char) (rest : List Char) :
    ∃ more, (firstToken c rest).text = c :: more ∧ more <+: rest := by
  unfold firstToken
  split_ifs
  · exact ⟨_, rfl, takeWhile_prefix _⟩
  · cases hquoted : quoted c false rest with
    | some content => exact ⟨_, rfl, quoted_starts hquoted⟩
    | none => exact ⟨_, rfl, prefix_rfl⟩
  · exact ⟨_, rfl, through_text_starts _ _⟩
  · exact ⟨_, rfl, prefix_rfl⟩
  · exact ⟨[], rfl, nil_prefix⟩

/-- The lexer, which needs no state. -/
def lexer : Lexer Kind Unit where
  first _ := firstToken
  after _ _ := ()
  reads _ := first_token_reads

end AwsOps.PromQl

import Mathlib.Data.List.Basic
import AwsOps.Foundation.Tokens

/-!
# Suricata rules

What the text of a stateful rule group consists of: blank lines, comment lines, and rules, each with an
action, a header, and options in parentheses. The value of an option is quoted, with escapes, or runs
up to its semicolon. Where a rule may have blanks, a backslash may continue it on the next line.
-/

namespace AwsOps.Firewall

open Tokens (doubleQuote backslash)

/-! ## Blanks -/

/-- A blank within a line. -/
inductive Blank
  | space
  | tab
  | carriageReturn
  deriving DecidableEq

def Blank.char : Blank → Char
  | .space => ' '
  | .tab => '\t'
  | .carriageReturn => '\r'

/-- A character that is a blank. -/
def isBlank (c : Char) : Bool :=
  c == ' ' || c == '\t' || c == '\r'

/-- What may stand between the parts of a rule: a blank, or the end of a line that is continued. -/
inductive Spacing
  | blank (b : Blank)
  | continued
  deriving DecidableEq

def Spacing.text : Spacing → List Char
  | .blank b => [b.char]
  | .continued => [backslash, '\n']

/-- Any number of them. -/
abbrev Gap : Type :=
  List Spacing

namespace Gap

def text (gap : Gap) : List Char :=
  gap.flatMap Spacing.text

def oneLine (gap : Gap) : Bool :=
  gap.all (· != .continued)

end Gap

/-! ## Options -/

/-- A character of a keyword. -/
def isKeywordChar (c : Char) : Bool :=
  c.isAlphanum || c == '_' || c == '.' || c == '-'

/-- The keyword of an option. -/
structure Keyword where
  text : List Char
  nonempty : text ≠ []
  plain : text.all isKeywordChar = true

/-- A character that ends a line in JavaScript. -/
def isTerminator (c : Char) : Bool :=
  c == '\n' || c == '\r' || c.toNat == 0x2028 || c.toNat == 0x2029

/-- A text that may stand between quotation marks: in it these and backslashes are escaped. -/
def isQuotable : List Char → Bool
  | [] => true
  | [c] => c != doubleQuote && c != backslash && c != '\n'
  | c :: d :: rest =>
    if c == backslash then !isTerminator d && isQuotable rest
    else c != doubleQuote && c != '\n' && isQuotable (d :: rest)

/-- A text in which every semicolon is escaped. -/
def isEscaped : List Char → Bool
  | [] => true
  | [c] => c != ';' && c != backslash && c != '\n'
  | c :: d :: rest =>
    if c == backslash then d != '\n' && isEscaped rest
    else c != ';' && c != '\n' && isEscaped (d :: rest)

/-- A text that may stand unquoted before a semicolon. -/
def isUnquoted (text : List Char) : Bool :=
  isEscaped text && text.head?.any (fun c => !isBlank c && c != doubleQuote) &&
    text.getLast?.any fun c => !isBlank c

/-- The value of an option. A quoted one may be negated. -/
inductive Value
  | quoted (negated : Bool) (text : List Char) (quotable : isQuotable text = true)
  | unquoted (text : List Char) (unquotable : isUnquoted text = true)

/-- The value as it is written. -/
def Value.setting : Value → List Char
  | .quoted negated text _ => (if negated then ['!'] else []) ++ doubleQuote :: text ++ [doubleQuote]
  | .unquoted text _ => text

/-- An option: its keyword and perhaps, between blanks behind a colon, its value. -/
structure RuleOption where
  before : Gap
  keyword : Keyword
  value : Option (Gap × Gap × Value)
  after : Gap

namespace RuleOption

/-- The value as it is written, if there is one. -/
def setting (o : RuleOption) : Option (List Char) :=
  o.value.map fun (_, _, value) => value.setting

/-- What stands behind the keyword. -/
def tail : Option (Gap × Gap × Value) → List Char
  | none => []
  | some (left, right, value) => left.text ++ ':' :: right.text ++ value.setting

def text (o : RuleOption) : List Char :=
  o.before.text ++ o.keyword.text ++ tail o.value ++ o.after.text ++ [';']

def oneLine (o : RuleOption) : Bool :=
  o.before.oneLine && (o.value.all fun (left, right, _) => left.oneLine && right.oneLine) &&
    o.after.oneLine

end RuleOption

/-! ## Rules -/

/-- The action of a rule. -/
structure Action where
  text : List Char
  nonempty : text ≠ []
  letters : text.all Char.isAlpha = true

/-- A character of a header. -/
def isHeaderChar (c : Char) : Bool :=
  !isBlank c && c != '\n' && c != ';' && c != '(' && c != doubleQuote && c != backslash

structure HeaderWord where
  space : Spacing
  more : Gap
  text : List Char
  plain : text.all isHeaderChar = true

def HeaderWord.written (w : HeaderWord) : List Char :=
  w.space.text ++ w.more.text ++ w.text

structure Rule where
  lead : Gap
  action : Action
  header : List HeaderWord
  beforeParen : Gap
  options : List RuleOption
  beforeClose : Gap
  trail : Gap

namespace Rule

/-- What stands before the options, without the blanks that lead the rule. -/
def front (r : Rule) : List Char :=
  r.action.text ++ r.header.flatMap HeaderWord.written ++ r.beforeParen.text

/-- The rule without the blanks around it. -/
def core (r : Rule) : List Char :=
  r.front ++ '(' :: r.options.flatMap RuleOption.text ++ r.beforeClose.text ++ [')']

def text (r : Rule) : List Char :=
  r.lead.text ++ (r.core ++ r.trail.text)

def oneLine (r : Rule) : Bool :=
  r.lead.oneLine && (r.header.all fun w => w.space != .continued && w.more.oneLine) &&
    r.beforeParen.oneLine && r.options.all RuleOption.oneLine && r.beforeClose.oneLine &&
    r.trail.oneLine

def named (r : Rule) (keyword : String) : Option RuleOption :=
  r.options.find? fun o => o.keyword.text = keyword.toList

end Rule

/-- A line of a rules text, or a rule. -/
inductive Line
  | blank (blanks : List Blank)
  | comment (lead : List Blank) (text : List Char) (plain : '\n' ∉ text)
  | rule (r : Rule)

def Line.text : Line → List Char
  | .blank blanks => blanks.map Blank.char
  | .comment lead text _ => lead.map Blank.char ++ '#' :: text
  | .rule r => r.text

def Line.asRule : Line → Option Rule
  | .rule r => some r
  | _ => none

/-- The rules of a text. -/
def rulesOf (lines : List Line) : List Rule :=
  lines.filterMap Line.asRule

def textOf (lines : List Line) : List Char :=
  ['\n'].intercalate (lines.map Line.text)

end AwsOps.Firewall

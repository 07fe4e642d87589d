import AwsOps.Firewall.Suricata
import AwsOps.Foundation.Entries
import AwsOps.Foundation.Scans

/-!
# The sids of a stateful rule group

`parseStatefulSids`: for every line of the rules text its string literals are blanked, and the sid, the
message and the alert flag are searched in what is left. What a rule says by its options stands beside
it.
-/

namespace AwsOps.Firewall

open Scans
open Text (isTrimmed split stripBy)
open Tokens (doubleQuote backslash)

/-! ## The function of the source -/

structure StatefulSid where
  sid : List Char
  msg : Option (List Char)
  action : Option (List Char)
  noalert : Bool
  deriving DecidableEq

/-- An entry of `RuleOptions`. -/
structure RawOption where
  keyword : Option (List Char)
  settings : Option (List (List Char))

/-- An entry of `StatefulRules`. -/
structure RawRule where
  action : Option (List Char)
  ruleOptions : Option (List RawOption)

structure RulesSource where
  rulesString : Option (List Char)
  statefulRules : Option (List RawRule)

/-- The text of a literal, given what follows its first quotation mark: `((?:\\.|[^"\\])*)"`. -/
def literalBody : List Char → Option (List Char)
  | [] => none
  | [c] => if c == doubleQuote then some [] else none
  | c :: d :: rest =>
    if c == doubleQuote then some []
    else if c == backslash then
      if isTerminator d then none else (literalBody rest).map fun body => c :: d :: body
    else (literalBody (d :: rest)).map (c :: ·)

/-- A piece of a line: a character, or the text of a literal. -/
inductive Piece
  | char (c : Char)
  | literal (body : List Char)

/-- The pieces of a line, of which the first characters are still to be skipped. -/
def pieces : Nat → List Char → List Piece
  | _, [] => []
  | skip + 1, _ :: rest => pieces skip rest
  | 0, c :: rest =>
    match if c == doubleQuote then literalBody rest else none with
    | some body => .literal body :: pieces (body.length + 1) rest
    | none => .char c :: pieces 0 rest

/-- A piece with its literal blanked. -/
def Piece.scan : Piece → List Char
  | .char c => [c]
  | .literal _ => [doubleQuote, doubleQuote]

def Piece.body : Piece → Option (List Char)
  | .char _ => none
  | .literal body => some body

/-- The line with its literals blanked. -/
def scanOf (ps : List Piece) : List Char :=
  ps.flatMap Piece.scan

def literalsInOrder (ps : List Piece) : List (List Char) :=
  ps.filterMap Piece.body

/-- `\w`. -/
def isWordChar (c : Char) : Bool :=
  c.isAlphanum || c == '_'

/-- `\s*`. -/
def blanks : Step :=
  .run 0 isTrimmed

/-- `\bsid\s*:\s*(\d+)\s*;`. -/
def sidPattern : Pattern where
  head := 's'
  tail := ['i', 'd']
  steps := [blanks, .word [':'], blanks, .run 1 Char.isDigit, blanks]
  mark := ';'

/-- `\bmsg\s*:\s*"`. -/
def msgPattern : Pattern where
  head := 'm'
  tail := ['s', 'g']
  steps := [blanks, .word [':'], blanks]
  mark := doubleQuote

/-- `\bnoalert\s*;`. -/
def noalertPattern : Pattern where
  head := 'n'
  tail := ['o', 'a', 'l', 'e', 'r', 't']
  steps := [blanks]
  mark := ';'

/-- The group of `sidPattern`: the digits of what has matched. -/
def digitsOf (taken : List Char) : List Char :=
  taken.filter Char.isDigit

/-- The number of matches of `""`. -/
def countPairs : List Char → Nat
  | [] => 0
  | [_] => 0
  | c :: d :: rest =>
    if c == doubleQuote && d == doubleQuote then countPairs rest + 1 else countPairs (d :: rest)

/-- The first sid in a blanked text. -/
def sidIn (scan : List Char) : Option (List Char) :=
  (search isWordChar sidPattern none scan).map fun (_, taken) => digitsOf taken

/-- The literal behind the first message keyword. -/
def msgIn (scan : List Char) (literals : List (List Char)) : Option (List Char) :=
  (search isWordChar msgPattern none scan).bind fun (front, taken) =>
    literals[countPairs (front ++ taken)]?

def noalertIn (scan : List Char) : Bool :=
  (search isWordChar noalertPattern none scan).isSome

/-- The actions that are told apart. -/
def knownActions : List (List Char) :=
  ["pass".toList, "drop".toList, "reject".toList, "alert".toList]

/-- `/^(pass|drop|reject|alert)\b/i`, in lower case. -/
def actionOf (t : List Char) : Option (List Char) :=
  knownActions.find? fun word =>
    (t.take word.length).map Char.toLower == word &&
      !(t.drop word.length).head?.any isWordChar

/-- One turn of the loop over the lines. -/
def ofLine (line : List Char) : Option StatefulSid :=
  let t := stripBy isTrimmed line
  if t.isEmpty || t.head? == some '#' then none
  else
    let ps := pieces 0 t
    (sidIn (scanOf ps)).map fun sid =>
      { sid := sid
        msg := msgIn (scanOf ps) (literalsInOrder ps)
        action := actionOf t
        noalert := noalertIn (scanOf ps) }

/-- `replace(/^"|"$/g, '')`. -/
def unquote (text : List Char) : List Char :=
  let text := if text.head? == some doubleQuote then text.tail else text
  if text.getLast? == some doubleQuote then text.dropLast else text

def firstSetting (options : List RawOption) (keyword : String) : Option (List Char) :=
  (options.find? fun o => o.keyword = some keyword.toList).bind fun o =>
    o.settings.bind fun settings => settings[0]?

/-- What an entry of `StatefulRules` gives. -/
def ofStateful (r : RawRule) : Option StatefulSid :=
  let options := r.ruleOptions.getD []
  match firstSetting options "sid" with
  | none => none
  | some [] => none
  | some sid =>
    some
      { sid := sid
        msg := (firstSetting options "msg").map unquote
        action := r.action.map (·.map Char.toLower)
        noalert := options.any fun o => o.keyword = some "noalert".toList ||
          o.keyword = some "flowbits".toList &&
            (o.settings.getD []).contains "noalert".toList }

/-- The entries of the lines. A later line with the same sid takes the place of an earlier one. -/
def ofText (text : List Char) : List (List Char × StatefulSid) :=
  Entries.ofList (((split ['\n'] text).filterMap ofLine).map fun e => (e.sid, e))

/-- By which membership in the keys is decided. -/
local instance lawfulSid : LawfulBEq (List Char) := inferInstance

/-- One turn of the loop over `StatefulRules`. -/
def addStateful (out : List (List Char × StatefulSid)) (r : RawRule) :
    List (List Char × StatefulSid) :=
  match ofStateful r with
  | none => out
  | some e => if e.sid ∈ Entries.keys out then out else out ++ [(e.sid, e)]

def parseStatefulSids (rs : Option RulesSource) : List StatefulSid :=
  let rulesString := (rs.bind RulesSource.rulesString).getD []
  let statefulRules := (rs.bind RulesSource.statefulRules).getD []
  Entries.values (statefulRules.foldl addStateful (ofText rulesString))

/-! ## What a rule says -/

namespace Rule

variable (r : Rule)

def sid : Option (List Char) :=
  (r.named "sid").bind RuleOption.setting

/-- The value of its msg option, without quotation marks. -/
def msg : Option (List Char) :=
  ((r.named "msg").bind RuleOption.setting).map unquote

/-- The rule has a noalert option or `flowbits:noalert`. -/
def noalert : Bool :=
  r.options.any fun o => o.keyword.text = "noalert".toList ||
    o.keyword.text = "flowbits".toList && o.setting = some "noalert".toList

/-- The entry of the rule. -/
def entry : Option StatefulSid :=
  r.sid.map fun sid =>
    { sid := sid
      msg := r.msg
      action := some (r.action.text.map Char.toLower)
      noalert := r.noalert }

/-- The rule as an entry of `StatefulRules`. -/
def structured : RawRule where
  action := some r.action.text
  ruleOptions := some (r.options.map fun o => ⟨some o.keyword.text, some o.setting.toList⟩)

end Rule

end AwsOps.Firewall

import Mathlib.Data.List.Sort
import AwsOps.Foundation.Backtracking

/-!
# Anonymisation before a model call

`agent/rca/anonymize.py`: six patterns rewrite the text in turn, each identifier becomes a token
`ENT_n`, and `deanonymize` replaces the tokens of a text by what they stand for.
-/

namespace AwsOps.Incident.Anonymize

open Backtracking Substitute
open Text (foldCase)

section Patterns

variable (E : Classes)

/-- `\b` -/
def bound : Regex :=
  .look fun before rest => E.boundary before rest.head?

/-- A character of `[0-9A-Fa-f]`. -/
def isHex (c : Char) : Bool :=
  c.isDigit || ('A' ≤ c && c ≤ 'F') || ('a' ≤ c && c ≤ 'f')

/-- A character of `[a-z0-9]`. -/
def isLowerDigit (c : Char) : Bool :=
  c.isLower || c.isDigit

/-- `word` with `IGNORECASE`. -/
def caseless (word : String) : Regex :=
  .all (word.toList.map fun k => .one fun c => foldCase c == foldCase k)

def arn : Regex :=
  .all [.word "arn:aws:", .plus (.one fun c => !E.space c && c != '"' && c != '\'')]

def resourceId : Regex :=
  .all [bound E, .any (["i", "vol", "eni", "vpc", "subnet", "sg", "ami", "igw", "nat", "rtb",
    "acl"].map caseless), .char '-', .between 8 17 (.one fun c => (foldCase c).isAlphanum), bound E]

/-- `[0-9A-Fa-f]{1,4}` -/
def hextet : Regex :=
  .between 1 4 (.one isHex)

/-- `(?:[0-9A-Fa-f]{1,4}:){least,most}` -/
def leading (least most : Nat) : Regex :=
  .between least most (.all [hextet, .char ':'])

/-- `(?::[0-9A-Fa-f]{1,4}){least,most}` -/
def trailing (least most : Nat) : Regex :=
  .between least most (.all [.char ':', hextet])

def isHexColon (c : Char) : Bool :=
  isHex c || c == ':'

def ipv6 : Regex :=
  .all [.look fun before _ => !before.any isHexColon,
    .any [.all [leading 7 7, hextet], .all [leading 1 7, .char ':'],
      .all [leading 1 6, .char ':', hextet], .all [leading 1 5, trailing 1 2],
      .all [leading 1 4, trailing 1 3], .all [leading 1 3, trailing 1 4],
      .all [leading 1 2, trailing 1 5], .all [hextet, .char ':', trailing 1 6],
      .all [.char ':', .any [trailing 1 7, .char ':']]],
    .look fun _ rest => !rest.head?.any isHexColon]

def podName : Regex :=
  .all [bound E, .plus (.one fun c => isLowerDigit c || c == '-'), .char '-',
    .between 8 10 (.one fun c => ('a' ≤ c && c ≤ 'f') || c.isDigit), .char '-',
    .between 4 5 (.one isLowerDigit), bound E]

/-- `\d{1,3}` -/
def octet : Regex :=
  .between 1 3 (.one E.digit)

def ipv4 : Regex :=
  .all [bound E, octet E, .between 3 3 (.all [.char '.', octet E]), bound E]

def email : Regex :=
  .all [bound E, .plus (.one fun c => E.word c || c == '.' || c == '+' || c == '-'), .char '@',
    .plus (.one fun c => E.word c || c == '-'), .char '.',
    .plus (.one fun c => E.word c || c == '.' || c == '-'), bound E]

/-- `_PATTERNS` -/
def patterns : List Regex :=
  [arn E, resourceId E, ipv6, podName E, ipv4 E, email E]

end Patterns

/-- The originals in the order of their tokens, which is `seen` and, read the other way, `mapping`. -/
abbrev Seen := List (List Char)

/-- `f"ENT_{n}"` -/
def token (n : Nat) : List Char :=
  "ENT_".toList ++ Nat.toDigits 10 n

/-- `seen[orig]` -/
def tokenOf (seen : Seen) (orig : List Char) : List Char :=
  token (seen.idxOf orig + 1)

/-- By which membership in `seen` is decided. -/
local instance lawfulOrig : LawfulBEq (List Char) := inferInstance

/-- What `repl` makes of `seen`. -/
def register (seen : Seen) (orig : List Char) : Seen :=
  if orig ∈ seen then seen else seen ++ [orig]

/-- `sub` with `repl`, on the pieces of a scan. -/
def replace : Seen → List Piece → List Char × Seen
  | seen, [] => ([], seen)
  | seen, .keep c :: pieces =>
    let (masked, seen) := replace seen pieces
    (c :: masked, seen)
  | seen, .cut orig :: pieces =>
    let seen := register seen orig
    let (masked, seen') := replace seen pieces
    (tokenOf seen orig ++ masked, seen')

/-- The pieces that a pattern makes of a text. -/
def piecesOf (pat : Regex) (text : List Char) : List Piece :=
  scan pat.length none 0 text

/-- The loop of `anonymize`. -/
def passes : List Regex → List Char × Seen → List Char × Seen
  | [], state => state
  | pat :: more, (masked, seen) => passes more (replace seen (piecesOf pat masked))

def anonymize (E : Classes) (text : List Char) : List Char × Seen :=
  passes (patterns E) (text, [])

/-- `mapping` -/
def mapping (seen : Seen) : List (List Char × List Char) :=
  seen.zipIdx.map fun (orig, i) => (token (i + 1), orig)

/-- An alternative `t` of the pattern of `deanonymize`, with the `\b` behind it. -/
def fits (E : Classes) (text t : List Char) : Bool :=
  t.isPrefixOf text && E.boundary t.getLast? (text.drop t.length).head?

/-- The pattern of `deanonymize`: `\b(?:…)\b` with the tokens, in their order, as alternatives. -/
def tokenLength (E : Classes) (tokens : List (List Char)) (before : Option Char) (text : List Char) :
    Option Nat :=
  if E.boundary before text.head? then
    (tokens.find? (fits E text)).map List.length
  else none

/-- `sorted(mapping, key=len, reverse=True)` -/
def sortedTokens (mapping : List (List Char × List Char)) : List (List Char) :=
  (mapping.map Prod.fst).insertionSort fun a b => b.length ≤ a.length

/-- The pieces that `deanonymize` makes of a text: the tokens are cut out. -/
def tokenPieces (E : Classes) (mapping : List (List Char × List Char)) (text : List Char) :
    List Piece :=
  scan (tokenLength E (sortedTokens mapping)) none 0 text

/-- `mapping[m.group(0)]` for a token. -/
def restore (mapping : List (List Char × List Char)) : Piece → List Char
  | .keep c => [c]
  | .cut tok => (mapping.lookup tok).getD tok

def deanonymize (E : Classes) (text : List Char) (mapping : List (List Char × List Char)) :
    List Char :=
  if mapping = [] then text else (tokenPieces E mapping text).flatMap (restore mapping)

end AwsOps.Incident.Anonymize

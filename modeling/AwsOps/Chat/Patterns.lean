import AwsOps.Foundation.Text

/-!
# Patterns of receipts

The texts that both tiers keep in a receipt: accounts, regions, resource ids, clocks and the ids of
sources. The tiers write the same regular expressions. Only `\d` differs: in the web tier it is an
ASCII digit, in the agent any decimal digit, so the class of digits is a parameter.
-/

namespace AwsOps.Patterns

variable (digit : Char → Bool)

/-- `[a-zA-Z0-9-]`. -/
def isDashed (c : Char) : Bool :=
  c.isAlphanum || c == '-'

/-- `\d{12}`. -/
def isAccount (s : List Char) : Bool :=
  s.length == 12 && s.all digit

/-- `[a-z]+`. -/
def isLowerWord (s : List Char) : Bool :=
  !s.isEmpty && s.all Char.isLower

/-- `[a-z]{2}(?:-[a-z]+){1,2}-\d`. -/
def isRegion (s : List Char) : Bool :=
  let ends (area number : List Char) :=
    area.length == 2 && isLowerWord area && number.length == 1 && number.all digit
  match Text.split ['-'] s with
  | [area, first, number] => ends area number && isLowerWord first
  | [area, first, second, number] =>
    ends area number && isLowerWord first && isLowerWord second
  | _ => false

/-- A kind, a dash, and `[a-zA-Z0-9-]{1,64}`. -/
def isResourceOf (kinds : List String) (s : List Char) : Bool :=
  kinds.any fun kind =>
    let rest := s.drop (kind.length + 1)
    (kind ++ "-").toList.isPrefixOf s && 1 ≤ rest.length && rest.length ≤ 64 && rest.all isDashed

def resourceKinds : List String :=
  ["eni", "sg", "vpc", "subnet", "i", "rtb", "acl", "nat", "tgw"]

/-- `\d{4}-\d\d-\d\d[T ][0-9:.+-]+Z?`. -/
def isClockText : List Char → Bool
  | a :: b :: c :: d :: '-' :: e :: f :: '-' :: g :: h :: separator :: rest =>
    let body := if rest.getLast? = some 'Z' then rest.dropLast else rest
    [a, b, c, d, e, f, g, h].all digit && (separator == 'T' || separator == ' ') &&
      !body.isEmpty && body.all fun c => c.isDigit || [':', '.', '+', '-'].contains c
  | _ => false

/-- `[a-z][a-z0-9_-]*`. -/
def isSourceName : List Char → Bool
  | first :: rest =>
    first.isLower && rest.all fun c => c.isLower || c.isDigit || c == '_' || c == '-'
  | [] => false

/-- `inventory:` and a name, or a name with a number or `default`. -/
def isSourceId (s : List Char) : Bool :=
  match Text.split [':'] s with
  | [name] => isSourceName name
  | [name, tail] =>
    name == "inventory".toList && isSourceName tail ||
      isSourceName name && (tail == "default".toList || !tail.isEmpty && tail.all digit)
  | _ => false

end AwsOps.Patterns

import Mathlib.Algebra.GroupWithZero.Nat
import Mathlib.Data.List.Basic

/-!
# JSON values

The value that a JSON text denotes, with the operations that the workers apply to it: truth
value, iteration, and serialization with the default separators and escapes of `json.dumps`, and
the serialization of the web tier, `JSON.stringify`. A float is kept as the text of its shortest
representation.
-/

namespace AwsOps

/-- A JSON value. The fields of an object are in insertion order. -/
inductive Json where
  | null
  | bool (value : Bool)
  | int (value : Int)
  | float (repr : String)
  | str (value : String)
  | arr (items : List Json)
  | obj (fields : List (String × Json))

namespace Json

/-- The truth value of a JSON value: empty and zero values are false. -/
def truthy : Json → Bool
  | .null => false
  | .bool b => b
  | .int n => n != 0
  | .float repr => repr != "0.0" && repr != "-0.0"
  | .str s => s != ""
  | .arr items => !items.isEmpty
  | .obj fields => !fields.isEmpty

/-- What a `for` loop over the value visits: the items of an array, the keys of an object, the
characters of a string. `none` is the `TypeError` of the other values. -/
def iterate : Json → Option (List Json)
  | .arr items => some items
  | .obj fields => some (fields.map fun field => .str field.1)
  | .str s => some (s.toList.map fun c => .str c.toString)
  | _ => none

/-- One hexadecimal digit in lower case. -/
def hexDigit (n : Nat) : Char :=
  if n < 10 then Char.ofNat (48 + n) else Char.ofNat (87 + n)

/-- The escape of one UTF-16 code unit. -/
def escapeUnit (n : Nat) : List Char :=
  ['\\', 'u', hexDigit (n / 4096 % 16), hexDigit (n / 256 % 16), hexDigit (n / 16 % 16),
    hexDigit (n % 16)]

/-- The escape of one character: short escapes, printable ASCII as it is, and otherwise its one
or two UTF-16 code units. -/
def escapeChar (c : Char) : List Char :=
  if c == '"' then ['\\', '"']
  else if c == '\\' then ['\\', '\\']
  else if c == '\n' then ['\\', 'n']
  else if c == '\r' then ['\\', 'r']
  else if c == '\t' then ['\\', 't']
  else if c.toNat == 12 then ['\\', 'f']
  else if c.toNat == 8 then ['\\', 'b']
  else if 32 ≤ c.toNat && c.toNat ≤ 126 then [c]
  else if c.toNat < 0x10000 then escapeUnit c.toNat
  else
    let n := c.toNat - 0x10000
    escapeUnit (0xD800 + n / 1024) ++ escapeUnit (0xDC00 + n % 1024)

/-- A string literal. -/
def dumpsString (s : String) : List Char :=
  '"' :: s.toList.flatMap escapeChar ++ ['"']

mutual
/-- `json.dumps` with the given separators between items and after keys. -/
def dumpsWith (item key : List Char) : Json → List Char
  | .null => "null".toList
  | .bool b => if b then "true".toList else "false".toList
  | .int n => (toString n).toList
  | .float repr => repr.toList
  | .str s => dumpsString s
  | .arr items => '[' :: List.intercalate item (dumpsItems item key items) ++ [']']
  | .obj fields => '{' :: List.intercalate item (dumpsFields item key fields) ++ ['}']

/-- The texts of the items of an array. -/
def dumpsItems (item key : List Char) : List Json → List (List Char)
  | [] => []
  | first :: rest => dumpsWith item key first :: dumpsItems item key rest

/-- The texts of the fields of an object. -/
def dumpsFields (item key : List Char) : List (String × Json) → List (List Char)
  | [] => []
  | (name, value) :: rest =>
    (dumpsString name ++ key ++ dumpsWith item key value) :: dumpsFields item key rest
end

/-- `json.dumps` with the default separators. -/
def dumps : Json → List Char :=
  dumpsWith [',', ' '] [':', ' ']

example : dumps (.arr [.int (-1), .str "é\n", .null]) = "[-1, \"\\u00e9\\n\", null]".toList := by
  decide

/-! ## The serialization of JavaScript -/

/-- The escape of one character in `JSON.stringify`: short escapes, the other control characters
as code units, and otherwise the character as it is. -/
def stringifyChar (c : Char) : List Char :=
  if c == '"' then ['\\', '"']
  else if c == '\\' then ['\\', '\\']
  else if c == '\n' then ['\\', 'n']
  else if c == '\r' then ['\\', 'r']
  else if c == '\t' then ['\\', 't']
  else if c.toNat == 12 then ['\\', 'f']
  else if c.toNat == 8 then ['\\', 'b']
  else if c.toNat < 32 then escapeUnit c.toNat
  else [c]

/-- A string literal with the given escapes. -/
def quoted (escape : Char → List Char) (s : String) : List Char :=
  '"' :: s.toList.flatMap escape ++ ['"']

mutual
def stringify : Json → List Char
  | .null => "null".toList
  | .bool b => if b then "true".toList else "false".toList
  | .int n => (toString n).toList
  | .float repr => repr.toList
  | .str s => quoted stringifyChar s
  | .arr items => '[' :: List.intercalate [','] (stringifyItems items) ++ [']']
  | .obj fields => '{' :: List.intercalate [','] (stringifyFields fields) ++ ['}']

/-- The texts of the items of an array. -/
def stringifyItems : List Json → List (List Char)
  | [] => []
  | first :: rest => stringify first :: stringifyItems rest

/-- The texts of the fields of an object. -/
def stringifyFields : List (String × Json) → List (List Char)
  | [] => []
  | (name, value) :: rest =>
    (quoted stringifyChar name ++ ':' :: stringify value) :: stringifyFields rest
end

end Json

end AwsOps

import Mathlib.Data.List.Basic
import Mathlib.Data.Rat.Defs

/-!
# Values of Python

The values that a JSON text or a native tool result is made of, with dictionaries as lists of
entries in insertion order: lookups, updates, truth values and comparisons with constants. An object
of another class has a truth value only.
-/

namespace AwsOps

inductive PyFloat
  | finite (value : Rat)
  | infinite (negative : Bool)
  | nan
  deriving DecidableEq

/-- A value. -/
inductive Py
  | none
  | bool (value : Bool)
  | int (value : Int)
  | float (value : PyFloat)
  | str (value : String)
  | list (items : List Py)
  | dict (fields : List (String × Py))
  | other (truth : Bool)

namespace Py

/-- The entries of a dictionary, in insertion order. -/
abbrev Fields : Type :=
  List (String × Py)

/-- The entry of a key, if there is one. -/
def find (fields : Fields) (key : String) : Option Py :=
  (fields.find? fun field => field.1 == key).map Prod.snd

/-- `key in fields`. -/
def has (fields : Fields) (key : String) : Bool :=
  (find fields key).isSome

/-- `fields.get(key)`. -/
def get (fields : Fields) (key : String) : Py :=
  (find fields key).getD .none

/-- `fields[key] = value`. -/
def set : Fields → String → Py → Fields
  | [], key, value => [(key, value)]
  | (name, old) :: rest, key, value =>
    if name == key then (name, value) :: rest else (name, old) :: set rest key value

/-- `fields.update(changes)`. -/
def update (fields changes : Fields) : Fields :=
  changes.foldl (fun fields change => set fields change.1 change.2) fields

/-- `bool(value)`. -/
def truthy : Py → Bool
  | .none => false
  | .bool b => b
  | .int n => n != 0
  | .float (.finite x) => x ≠ 0
  | .float _ => true
  | .str s => s != ""
  | .list items => !items.isEmpty
  | .dict fields => !fields.isEmpty
  | .other truth => truth

/-- The entries of a dictionary. -/
def asDict : Py → Option Fields
  | .dict fields => some fields
  | _ => Option.none

/-- The items of a list. -/
def asList : Py → Option (List Py)
  | .list items => some items
  | _ => Option.none

/-- The text of a string. -/
def asStr : Py → Option String
  | .str s => some s
  | _ => Option.none

/-- `value is None`. -/
def isNone : Py → Bool
  | .none => true
  | _ => false

/-- `type(value) is bool`. -/
def isBool : Py → Bool
  | .bool _ => true
  | _ => false

/-- `value is True`. -/
def isTrue : Py → Bool
  | .bool b => b
  | _ => false

/-- `value is False`. -/
def isFalse : Py → Bool
  | .bool b => !b
  | _ => false

/-- `isinstance(value, str)`. -/
def isStr (value : Py) : Bool :=
  value.asStr.isSome

/-- `isinstance(value, list)`. -/
def isList (value : Py) : Bool :=
  value.asList.isSome

/-- `isinstance(value, dict)`. -/
def isDict (value : Py) : Bool :=
  value.asDict.isSome

/-- `value == text`. -/
def isText (text : String) (value : Py) : Bool :=
  value.asStr == some text

/-- `value in texts`, for a tuple of texts, or `isinstance(value, str) and value in texts`. -/
def isOneOf (texts : List String) (value : Py) : Bool :=
  value.asStr.any texts.contains

/-- `value == 0`. -/
def isZero : Py → Bool
  | .bool b => !b
  | .int n => n == 0
  | .float x => x = .finite 0
  | _ => false

/-- A value that a set can be asked for. -/
def hashable : Py → Bool
  | .list _ | .dict _ => false
  | _ => true

/-- `isinstance(value, dict) and ...`, for a test of the entries. -/
def dictAnd (test : Fields → Bool) (value : Py) : Bool :=
  value.asDict.any test

/-- `value > 0`, for a number. -/
def isPositive : Py → Bool
  | .bool b => b
  | .int n => 0 < n
  | .float (.finite x) => 0 < x
  | .float (.infinite negative) => !negative
  | _ => false

end Py

end AwsOps

import AwsOps.Foundation.Js
import AwsOps.Foundation.Text

/-!
# Rows of the inventory

How `flow-topology.ts` reads the values of a flattened row: as texts, as conditions, and as arrays
of rows that may have come as the text of one.
-/

namespace AwsOps.Topology

open Js (Fields get)

/-- The conversions of JavaScript that the builder of the flow graph uses: `String` of a value that
is no text, the case of texts, and `JSON.parse`. -/
structure FlowEngine where
  unicode : Text.Unicode
  string : Js → String
  parseJson : String → Option Js

/-- A flattened row of the inventory. -/
abbrev Row : Type :=
  Fields

def str (engine : FlowEngine) : Option Js → String
  | none | some .null => ""
  | some (.str s) => s
  | some value => engine.string value

/-- A value that counts as true in a condition. -/
def truthy : Option Js → Bool
  | none | some .null => false
  | some (.bool b) => b
  | some (.num (.finite n)) => n ≠ 0
  | some (.num (.infinite _)) => true
  | some (.str s) => s ≠ ""
  | some (.arr _) | some (.obj _) => true

/-- `arr`: an array, or the text of one. -/
def arr (engine : FlowEngine) : Option Js → List Js
  | some (.arr items) => items
  | some (.str s) =>
    if ['['].isPrefixOf (Text.stripBy Text.isTrimmed s.toList) then
      match engine.parseJson s with
      | some (.arr items) => items
      | _ => []
    else []
  | _ => []

/-- The properties of an entry of an array. Reading one raises on null. -/
def entryRow : Js → Option Row
  | .null => none
  | .obj fields => some fields
  | _ => some []

/-- The entries of an array as rows. -/
def rows (engine : FlowEngine) (v : Option Js) : Option (List Row) :=
  (arr engine v).mapM entryRow

/-- `text || other`. -/
def orText (text other : String) : String :=
  if text = "" then other else text

/-- `text.split(sep)`, for a separator of one character. -/
def splitOn (sep : Char) (text : String) : List String :=
  (Text.split [sep] text.toList).map String.ofList

/-- `text.split(sep).pop()`. -/
def lastPart (sep : Char) (text : String) : String :=
  ((splitOn sep text).getLast?).getD ""

def scopedTargetIp (region vpcId ip : String) : String :=
  region ++ "|" ++ vpcId ++ "|" ++ ip

end AwsOps.Topology

import AwsOps.Foundation.Calendar
import AwsOps.Foundation.Words

/-!
# Flow sources and the query of a day

What validating a flow source records about its table, and the query that a scan of one day runs
against that table. The query is a list of pieces: names in double quotes, values in single quotes
and the code around them.
-/

namespace AwsOps.SgRules

open AwsOps.Text AwsOps.Calendar

/-- How a table bounds the scan of a day. -/
inductive PartitionStrategy where
  | projection
  | partitionKeys
  deriving DecidableEq

/-- Where a scope field of a table was found. -/
inductive ScopeKind where
  | partition
  | column
  deriving DecidableEq

/-- Where the two scope fields were found, if they were. -/
structure ScopeResolution where
  accountId : Option ScopeKind
  region : Option ScopeKind
  deriving DecidableEq

/-- The scope fields with where they were found. -/
def ScopeResolution.entries (r : ScopeResolution) : List (String × Option ScopeKind) :=
  [("account_id", r.accountId), ("region", r.region)]

/-- The persisted result of validating a source. A field is `some` when its key is there; a
missing list counts as an empty one. -/
structure Validation where
  status : Option String
  schemaFields : List String
  partitionStrategy : Option PartitionStrategy
  optionalFields : List String
  partitionKeyTypes : Option (List String)
  columnMap : List (String × String)
  partitionKeys : List String
  scopeResolution : Option ScopeResolution
  scannedUnscoped : Option Bool
  deriving DecidableEq

/-- The validation of a table with one text date key. -/
def datedValidation : Validation where
  status := some "valid"
  schemaFields := []
  partitionStrategy := some .partitionKeys
  optionalFields := []
  partitionKeyTypes := some ["string"]
  columnMap := []
  partitionKeys := ["dt"]
  scopeResolution := some { accountId := none, region := none }
  scannedUnscoped := some true

/-- The row of a flow source, as far as its day query reads it. -/
structure SourceRow where
  accountId : String
  region : String
  workgroup : String
  databaseName : String
  tableName : String
  validation : Validation
  deriving DecidableEq

/-- Why a day query is not built: `UnsafeIdentifier` with its text, or a date that leaves the
calendar. -/
inductive SelectError where
  | unsafeIdentifier (message : String)
  | overflow
  deriving DecidableEq

/-- `_IDENT_RE`. -/
def identPattern (name : String) : Bool :=
  matchesIdentifier (fun c => c.isAlpha || c == '_')
    (fun c => c.isAlphanum || c == '_' || c == '-') 127 name.toList

def safeIdent (U : Unicode) (name fallback : Option String) : Except SelectError String :=
  match name.filter identPattern, fallback with
  | some name, _ => .ok name
  | none, some fallback => .ok fallback
  | none, none => .error (.unsafeIdentifier ("unsafe identifier: " ++ reprOption U name))

/-- `_ACCOUNT_ID_VALUE_RE`. -/
def accountIdPattern (U : Unicode) (value : String) : Bool :=
  let digits := beforeEnd value.toList
  digits.length == 12 && digits.all fun c => (U.digit c).isSome

/-- `_REGION_VALUE_RE`: a prefix of two to four letters, one or more parts of letters and a digit,
with hyphens between them. -/
def regionPattern (U : Unicode) (value : String) : Bool :=
  let letters (part : List Char) : Bool := part.all Char.isLower
  match split ['-'] (beforeEnd value.toList) with
  | [] => false
  | head :: parts =>
    letters head && decide (2 ≤ head.length) && decide (head.length ≤ 4) &&
      decide (2 ≤ parts.length) &&
      parts.dropLast.all (fun part => !part.isEmpty && letters part) &&
      match parts.getLast? with
      | some [c] => (U.digit c).isSome
      | _ => false

def safeScopeValue (U : Unicode) (value : String) (pattern : String → Bool) :
    Except SelectError String :=
  if pattern value then .ok value
  else .error (.unsafeIdentifier ("unsafe scope value: " ++ repr U value))

/-- Drop the type parameters in parentheses at the end of a type name. -/
def dropTypeParameters : List Char → List Char
  | [] => []
  | c :: rest =>
    if c == '(' && rest.getLast? == some ')' && !rest.contains '\n' then []
    else c :: dropTypeParameters rest

def normalizeGlueType (U : Unicode) (type : String) : String :=
  String.ofList (dropTypeParameters (U.lower (strip type.toList)))

def dateLikePartitionTypes : List String :=
  ["date", "string", "varchar", "char", "timestamp"]

def stringLikePartitionTypes : List String :=
  ["string", "varchar", "char"]

def isDateLikePartitionType (U : Unicode) (type : String) : Bool :=
  dateLikePartitionTypes.contains (normalizeGlueType U type)

def isStringLikePartitionType (U : Unicode) (type : String) : Bool :=
  stringLikePartitionTypes.contains (normalizeGlueType U type)

def partitionKeysExcludingScope (U : Unicode) (v : Validation) : List String :=
  let entries := (v.scopeResolution.map ScopeResolution.entries).getD []
  let excluded := entries.filterMap fun (canonical, kind) =>
    if kind = some .partition then
      ((v.columnMap.lookup canonical).filter (· ≠ "")).map (lower U)
    else none
  v.partitionKeys.filter fun key => !excluded.contains (lower U key)

def singlePartitionKeyAndType (U : Unicode) (v : Validation) : Option (String × String) :=
  match partitionKeysExcludingScope U v, v.partitionKeyTypes with
  | [key], some types =>
    if types.isEmpty ∨ types.length ≠ v.partitionKeys.length then none
    else
      (v.partitionKeys.idxOf? key).bind fun idx =>
        let type := normalizeGlueType U (types.getD idx "")
        if dateLikePartitionTypes.contains type then some (key, type) else none
  | _, _ => none

def singleDatePartitionKey (U : Unicode) (v : Validation) : Option String :=
  (singlePartitionKeyAndType U v).map (·.1)

/-- The key that bounds the scan of a day, if it is not the empty text. -/
def dateKey (U : Unicode) (v : Validation) : Option String :=
  (singleDatePartitionKey U v).filter (· ≠ "")

def singleDatePartitionKeyType (U : Unicode) (v : Validation) : Option String :=
  (singlePartitionKeyAndType U v).map (·.2)

/-- The last of the keys with the lower-case name: `{k.lower(): k for k in keys}`. -/
def keyByLower (U : Unicode) (keys : List String) (name : String) : Option String :=
  keys.reverse.find? fun key => lower U key == name

/-- The names of the keys of a Hive-style scheme. -/
def hiveKeys : List String := ["year", "month", "day"]

/-- The keys hold a Hive-style scheme, up to case. -/
def holdsHiveKeys (U : Unicode) (keys : List String) : Bool :=
  hiveKeys.all (keys.map (lower U)).contains

/-- The keys are exactly a Hive-style scheme, up to case. -/
def isHiveStyle (U : Unicode) (keys : List String) : Bool :=
  holdsHiveKeys U keys && (keys.map (lower U)).all hiveKeys.contains

def hasResolvedPartitionStrategy (U : Unicode) (v : Validation) : Bool :=
  if holdsHiveKeys U v.partitionKeys then true else (singleDatePartitionKey U v).isSome

/-- A piece of a query: code, a name in double quotes or a value in single quotes. -/
inductive SqlPiece where
  | code (text : String)
  | ident (name : String)
  | literal (value : String)
  deriving DecidableEq

/-- A character between two quote characters. -/
def quoted (quote : Char) (text : String) : List Char :=
  quote :: (text.toList ++ [quote])

/-- The characters of a piece. -/
def SqlPiece.chars : SqlPiece → List Char
  | .code text => text.toList
  | .ident name => quoted (Char.ofNat 34) name
  | .literal value => quoted (Char.ofNat 39) value

/-- The text of a query. -/
def render (pieces : List SqlPiece) : List Char :=
  (pieces.map SqlPiece.chars).flatten

def dateLiteral (U : Unicode) (isoDate : String) (keyType : Option String) : List SqlPiece :=
  let type := lower U (keyType.getD "")
  if type = "date" then [.code "DATE ", .literal isoDate]
  else if type = "timestamp" then [.code "TIMESTAMP ", .literal (isoDate ++ " 00:00:00")]
  else [.literal isoDate]

/-- A number of at least so many digits: `{n:0widthd}`. -/
def padded (width : Nat) (n : Int) : String :=
  String.ofList (numeral 10 width n.toNat)

/-- The comparison of the three Hive-style keys with one day. -/
def hiveDayEquals (year month day : String) (date : Date) : List SqlPiece :=
  [.ident year, .code " = ", .literal (padded 4 date.year), .code " AND ",
    .ident month, .code " = ", .literal (padded 2 date.month), .code " AND ",
    .ident day, .code " = ", .literal (padded 2 date.day)]

/-- The Hive-style keys are those of one of two days. -/
def hivePredicate (year month day : String) (first second : Date) : List SqlPiece :=
  .code " AND ((" :: (hiveDayEquals year month day first ++
    .code ") OR (" :: (hiveDayEquals year month day second ++ [.code "))"]))

/-- The date key lies in a range. -/
def rangePredicate (key : String) (low high : List SqlPiece) : List SqlPiece :=
  .code " AND " :: .ident key :: .code " >= " :: (low ++
    .code " AND " :: .ident key :: .code " < " :: high)

/-- The date key is one of two dates. -/
def inPredicate (key : String) (first second : List SqlPiece) : List SqlPiece :=
  .code " AND " :: .ident key :: .code " IN (" :: (first ++
    .code ", " :: (second ++ [.code ")"]))

/-- The day after, if the calendar has it. -/
def nextDay (day : Int) : Except SelectError Int :=
  match checked (day + 1) with
  | some next => .ok next
  | none => .error .overflow

/-- `_build_partition_predicate`: the partitions of the day and of the day after, into which its
records may be delivered. -/
def buildPartitionPredicate (U : Unicode) (v : Validation) (day : Int) :
    Except SelectError (List SqlPiece) := do
  let next ← nextDay day
  let key := keyByLower U v.partitionKeys
  match key "year", key "month", key "day" with
  | some y, some mo, some d =>
    let yCol ← safeIdent U (some y) (some "year")
    let moCol ← safeIdent U (some mo) (some "month")
    let dCol ← safeIdent U (some d) (some "day")
    pure (hivePredicate yCol moCol dCol (dateOf day) (dateOf next))
  | _, _, _ =>
    match dateKey U v with
    | none => pure []
    | some raw =>
      let dk ← safeIdent U (some raw) none
      let keyType := singleDatePartitionKeyType U v
      if keyType = some "timestamp" then
        let afterNext ← nextDay next
        pure (rangePredicate dk (dateLiteral U (isoFormat day) keyType)
          (dateLiteral U (isoFormat afterNext) keyType))
      else
        pure (inPredicate dk (dateLiteral U (isoFormat day) keyType)
          (dateLiteral U (isoFormat next) keyType))

/-- The clause of one scope field: its column equals the value of the source. -/
def scopeClause (U : Unicode) (v : Validation) (canonical value : String)
    (pattern : String → Bool) : Except SelectError (List SqlPiece) :=
  match v.columnMap.lookup canonical with
  | none => pure []
  | some column => do
      let col ← safeIdent U (some column) (some canonical)
      let val ← safeScopeValue U value pattern
      pure [.code " AND ", .ident col, .code " = ", .literal val]

def buildScopePredicate (U : Unicode) (source : SourceRow) : Except SelectError (List SqlPiece) := do
  let account ← scopeClause U source.validation "account_id" source.accountId (accountIdPattern U)
  let region ← scopeClause U source.validation "region" source.region (regionPattern U)
  pure (account ++ region)

/-- `ROW_LIMIT`: the row limit of a day's query, at which a result counts as truncated. -/
def rowLimit : Nat := 200000

/-- The seconds from the epoch to the start of the day. -/
def daySeconds (day : Int) : Int :=
  day * 86400

/-- The names that the query of a day takes from its source. -/
structure QueryNames where
  interfaceCol : String
  logStatusCol : String
  startCol : String
  database : String
  table : String
  bytesSelect : String
  deriving DecidableEq

/-- The query up to the partition predicate. -/
def daySelectHead (n : QueryNames) (day dayAfter : Int) : List SqlPiece :=
  let columns := " as interface_id, srcaddr, dstaddr, dstport, protocol, action"
  let since := " >= " ++ toString (daySeconds day) ++ " AND "
  let before := " < " ++ toString (daySeconds dayAfter) ++ " AND action = 'ACCEPT' AND "
  [.code "SELECT ", .ident n.interfaceCol,
    .code (columns ++ n.bytesSelect ++ ", count(*) as cnt, max("), .ident n.startCol,
    .code ") as last_start FROM ", .ident n.database, .code ".", .ident n.table, .code " WHERE ",
    .ident n.startCol, .code since, .ident n.startCol, .code before, .ident n.logStatusCol,
    .code " = 'OK'"]

/-- The end of the query after the predicates. -/
def daySelectTail : SqlPiece :=
  .code (", srcaddr, dstaddr, dstport, protocol, action LIMIT " ++ toString rowLimit)

/-- `build_day_select`: the query of one day. -/
def buildDaySelect (U : Unicode) (source : SourceRow) (day : Int) :
    Except SelectError (List SqlPiece) := do
  let v := source.validation
  let interfaceCol ← safeIdent U (v.columnMap.lookup "interface_id") (some "interface_id")
  let logStatusCol ← safeIdent U (v.columnMap.lookup "log_status") (some "log_status")
  let startCol ← safeIdent U (v.columnMap.lookup "start") (some "start")
  let dayAfter ← nextDay day
  let database ← safeIdent U (some source.databaseName) none
  let table ← safeIdent U (some source.tableName) none
  let hasOptionalInfo := !v.columnMap.isEmpty || !v.optionalFields.isEmpty
  let hasBytes := if hasOptionalInfo then v.optionalFields.contains "bytes" else true
  let bytesSelect := if hasBytes then ", sum(\"bytes\") as bytes" else ""
  let partitionPredicate ← buildPartitionPredicate U v day
  let scopePredicate ← buildScopePredicate U source
  let names : QueryNames := { interfaceCol, logStatusCol, startCol, database, table, bytesSelect }
  let groupBy : List SqlPiece := [.code " GROUP BY ", .ident interfaceCol]
  pure (daySelectHead names day dayAfter ++ partitionPredicate ++ scopePredicate ++ groupBy ++
    [daySelectTail])

end AwsOps.SgRules

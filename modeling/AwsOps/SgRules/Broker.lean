import Mathlib.Data.List.Sort
import AwsOps.SgRules.Projection

/-!
# The Athena broker

The two actions of the broker that read a flow source. `validate` checks the Glue table of a source
and resolves its columns and partition keys. `scanGates` is what the broker checks before it trusts
the query of a day: the persisted validation, the query that it builds from it and the declared
projection ranges. The replies of AWS and of the accounts table are inputs, since both only read
them; a call that fails there is not about the configuration.
-/

namespace AwsOps.SgRules

open AwsOps.Text AwsOps.Calendar

/-- A column of a Glue table with its catalog type. -/
structure GlueColumn where
  name : String
  type : String
  deriving DecidableEq

/-- What `GetTable` returns about a table. -/
structure GlueTable where
  columns : List GlueColumn
  partitionKeys : List GlueColumn
  parameters : List (String × String)
  deriving DecidableEq

/-- What `GetWorkGroup` returns about a workgroup. -/
structure WorkgroupConfig where
  outputLocation : Option String
  bytesScannedCutoffPerQuery : Option Nat
  deriving DecidableEq

/-- The arguments of `validate`, of which each is `some` when it is a text. -/
structure ValidateRequest where
  accountId : Option String
  region : Option String
  workgroup : Option String
  database : Option String
  table : Option String
  deriving DecidableEq

/-- The request with all its arguments. -/
structure Identifiers where
  accountId : String
  region : String
  workgroup : String
  database : String
  table : String
  deriving DecidableEq

/-- `_GLUE_IDENT_RE`. -/
def glueIdentPattern (name : String) : Bool :=
  matchesIdentifier (fun c => c.isAlpha || c == '_') (fun c => c.isAlphanum || c == '_') 127
    name.toList

/-- `_WORKGROUP_RE`. -/
def workgroupPattern (name : String) : Bool :=
  let allowed (c : Char) : Bool := c.isAlphanum || c == '.' || c == '_' || c == '-'
  matchesIdentifier allowed allowed 127 name.toList

def raiseIf {ε : Type} (condition : Prop) [Decidable condition] (error : ε) : Except ε Unit :=
  if condition then .error error else .ok ()

/-- Run the check if the condition holds. -/
def checkIf {ε : Type} (condition : Prop) [Decidable condition] (check : Except ε Unit) :
    Except ε Unit :=
  if condition then check else .ok ()

/-- A text that matches, or the error. -/
def requireText (value : Option String) (pattern : String → Bool) (message : String) :
    Except String String :=
  match value.filter pattern with
  | some value => .ok value
  | none => .error message

def validateIdentifiers (U : Unicode) (request : ValidateRequest) : Except String Identifiers := do
  let accountId ← requireText request.accountId (accountIdPattern U)
    "account_id must be a 12-digit AWS account id"
  let region ← requireText request.region (regionPattern U) "region must be a valid AWS region name"
  let workgroup ← requireText request.workgroup workgroupPattern
    "workgroup must match the Athena workgroup-name charset"
  let database ← requireText request.database glueIdentPattern
    "database must be a valid Glue identifier"
  let table ← requireText request.table glueIdentPattern "table must be a valid Glue identifier"
  pure { accountId, region, workgroup, database, table }

/-- `_resolve_external_id`: the external id of an enabled account, itself perhaps absent. -/
def resolveExternalId (U : Unicode) (accounts : String → Option (Option String))
    (accountId : String) : Except String (Option String) :=
  match accounts accountId with
  | some externalId => .ok externalId
  | none => .error ("account_id " ++ repr U accountId ++ " is not a registered, enabled account " ++
      "in the accounts table — refusing to assume a role for an unregistered account")

/-- The flow log fields that a table must have, with the names it may give them. -/
def requiredFields : List (String × List String) :=
  [("interface_id", ["interface-id", "interface_id"]), ("srcaddr", ["srcaddr"]),
    ("dstaddr", ["dstaddr"]), ("srcport", ["srcport"]), ("dstport", ["dstport"]),
    ("protocol", ["protocol"]), ("action", ["action"]), ("log_status", ["log-status", "log_status"]),
    ("start", ["start"]), ("end", ["end"])]

/-- The names that a table may give the two scope fields. -/
def scopeAliases : List (String × List String) :=
  [("account_id", ["account_id", "account-id", "aws-account-id", "aws_account_id"]),
    ("region", ["region", "aws-region", "aws_region"])]

/-- The optional flow log fields. -/
def optionalFieldNames : List String :=
  ["flow-direction", "flow_direction", "tcp-flags", "tcp_flags", "bytes", "packets"]

/-- The fields that some column carries, under the name of the column. -/
def resolveFields (columns : List String) (fields : List (String × List String)) :
    List (String × String) :=
  fields.filterMap fun (canonical, aliases) =>
    (aliases.find? columns.contains).map fun column => (canonical, column)

/-- A scope field: the partition key that carries it, else the column. -/
def resolveScopeField (U : Unicode) (columns keys aliases : List String) :
    Option (ScopeKind × String) :=
  match aliases.findSome? (keyByLower U keys) with
  | some key => some (.partition, key)
  | none => (aliases.find? columns.contains).map fun column => (.column, column)

def keyType (keys : List GlueColumn) (name : String) : String :=
  ((keys.find? fun key => key.name == name).map (·.type)).getD ""

/-- What `validate` has found out about a table when it checks its layout. -/
structure Layout where
  table : GlueTable
  identifiers : Identifiers
  strategy : PartitionStrategy
  accountScope : Option (ScopeKind × String)
  regionScope : Option (ScopeKind × String)
  deriving DecidableEq

def GlueTable.keyNames (table : GlueTable) : List String :=
  table.partitionKeys.map (·.name)

/-- The lower-case names of the columns. -/
def GlueTable.columnNames (U : Unicode) (table : GlueTable) : List String :=
  table.columns.map fun column => lower U column.name

/-- The type of the column with the lower-case name. -/
def GlueTable.columnType (U : Unicode) (table : GlueTable) (name : String) : String :=
  ((table.columns.reverse.find? fun column => lower U column.name == name).map (·.type)).getD ""

/-- The scope fields of a layout with the values of the source. -/
def Layout.scopes (l : Layout) : List (String × String × Option (ScopeKind × String)) :=
  [("account_id", l.identifiers.accountId, l.accountScope),
    ("region", l.identifiers.region, l.regionScope)]

def projectionParam (table : GlueTable) (column name : String) : Option String :=
  table.parameters.lookup ("projection." ++ column ++ "." ++ name)

/-- The stripped lower-case text of a parameter, empty when it is absent. -/
def normalized (U : Unicode) (param : Option String) : String :=
  String.ofList (U.lower (strip (param.getD "").toList))

/-- A scope field that is a projected partition key must be able to take the value of the
source. -/
def checkProjectedScope (U : Unicode) (l : Layout) (canonical value : String)
    (scope : Option (ScopeKind × String)) : Except String Unit :=
  match scope with
  | some (.partition, column) =>
    let type := normalized U (projectionParam l.table column "type")
    let values := ((split [','] ((projectionParam l.table column "values").getD "").toList).map
      fun v => String.ofList (strip v))
    if type = "injected" then .ok ()
    else if type = "enum" then
      if values.contains value then .ok ()
      else .error ("scope partition key " ++ repr U column ++ " (" ++ canonical ++
        ") is a PROJECTION column typed 'enum' but its declared projection." ++ column ++
        ".values does not include this source's own value (" ++ repr U value ++
        ") — the query predicate would never match, silently committing a confident false " ++
        "zero-traffic day [reason: projection_scope_enum_value_missing]")
    else .error ("scope partition key " ++ repr U column ++ " (" ++ canonical ++
      ") is a PROJECTION column with projection." ++ column ++ ".type=" ++ repr U type ++
      " — the query predicate always compares this source's own literal string value, which " ++
      "only an 'injected' projection (or an 'enum' whose values list contains that literal) " ++
      "can ever match; 'integer'/'date'/absent generates typed values that can never equal the " ++
      "literal, silently matching zero rows on every real scan " ++
      "[reason: projection_scope_type_not_representable]")
  | _ => .ok ()

/-- A scope field that is a column must have a string-like type. -/
def checkScopeColumn (U : Unicode) (l : Layout) (canonical : String)
    (scope : Option (ScopeKind × String)) : Except String Unit :=
  match scope with
  | some (.column, column) =>
    let type := l.table.columnType U (lower U column)
    if isStringLikePartitionType U type then .ok ()
    else .error ("scope column " ++ repr U column ++ " (" ++ canonical ++ ") has Glue type " ++
      repr U type ++ ", which is not string-like — the query predicate always compares this " ++
      "source's own literal string value, and a non-string-like catalog type (e.g. a " ++
      "crawler-misinferred bigint/int for a numeric-looking value) makes that comparison a " ++
      "type mismatch Trino rejects on every real query [reason: scope_key_not_string_typed]")
  | _ => .ok ()

/-- A scope field that is a stored partition key must have a string-like type. -/
def checkScopeKey (U : Unicode) (l : Layout) (canonical : String)
    (scope : Option (ScopeKind × String)) : Except String Unit :=
  match scope with
  | some (.partition, column) =>
    let type := keyType l.table.partitionKeys column
    if isStringLikePartitionType U type then .ok ()
    else .error ("scope partition key " ++ repr U column ++ " (" ++ canonical ++
      ") has Glue type " ++ repr U type ++ ", which is not string-like — the query predicate " ++
      "always compares this source's own literal string value, and a non-string-like catalog " ++
      "type (e.g. a crawler-misinferred bigint/int for a numeric-looking value) makes that " ++
      "comparison a type mismatch Trino rejects on every real query " ++
      "[reason: scope_key_not_string_typed]")
  | _ => .ok ()

/-- A Hive-style key must have a string-like type. -/
def checkHiveKey (U : Unicode) (l : Layout) (hiveKey actual : String) : Except String Unit :=
  let type := keyType l.table.partitionKeys actual
  if isStringLikePartitionType U type then .ok ()
  else .error ("Hive-style partition key " ++ repr U actual ++ " (" ++ hiveKey ++
    ") has Glue catalog type " ++ repr U type ++ " — the generated day predicate always compares " ++
    "a quoted STRING literal for year/month/day columns, which Trino rejects against a " ++
    "non-string-typed (e.g. int/bigint) column on every real query " ++
    "[reason: hive_key_not_string_typed]")

/-- A projected Hive-style key must be a padded integer with a range. -/
def checkProjectedHiveKey (U : Unicode) (l : Layout) (hiveKey actual : String) :
    Except String Unit :=
  let key := "Hive-style partition key " ++ repr U actual ++ " (" ++ hiveKey ++
    ") is a PROJECTION column "
  let type := projectionParam l.table actual "type"
  let digits := projectionParam l.table actual "digits"
  if normalized U type ≠ "integer" then
    .error (key ++ "with projection." ++ actual ++ ".type=" ++ reprOption U type ++
      " — Athena requires this parameter to be present and 'integer' for a zero-padded numeric " ++
      "year/month/day projection column; a missing or wrong-typed value is an " ++
      "invalid/unqueryable projection configuration and every real scan would fail " ++
      "[reason: projection_hive_type_not_integer]")
  else if (projectionRange l.table.parameters actual).isNone then
    .error (key ++ "missing projection." ++ actual ++ ".range — Athena requires a range for " ++
      "every projected partition column; without it the configuration is invalid/unqueryable " ++
      "[reason: projection_hive_range_missing]")
  else if hiveKey ≠ "year" ∧ strip (digits.getD "None").toList ≠ ['2'] then
    .error (key ++ "with projection." ++ actual ++ ".digits=" ++ reprOption U digits ++
      " — the generated predicate compares a zero-padded 2-digit value; without projection." ++
      actual ++ ".digits=2, Athena's unpadded integer projection values would match zero rows " ++
      "on every real scan, silently committing a confident false zero-traffic day " ++
      "[reason: projection_hive_digits_not_zero_padded]")
  else .ok ()

/-- The one remaining key must have a date-like type. -/
def checkDateKey (U : Unicode) (l : Layout) (key : String) : Except String Unit :=
  let type := keyType l.table.partitionKeys key
  if isDateLikePartitionType U type then .ok ()
  else .error ("single partition key " ++ repr U key ++ " has Glue type " ++ repr U type ++
    ", which is not date-shaped (expected date/timestamp/string/varchar/char) — this source can " ++
    "never be bounded to a day and must not be scanned; use a Hive-style year/month/day " ++
    "partitioned table or re-partition on a date-typed key " ++
    "[reason: partition_key_type_not_date_shaped]")

/-- A projected date key must be an ISO date with a range that has not passed. -/
def checkProjectedDateKey (U : Unicode) (l : Layout) (key : String) (now : Clock) :
    Except String Unit :=
  let type := projectionParam l.table key "type"
  let format := projectionParam l.table key "format"
  let range := projectionRange l.table.parameters key
  let column := "partition key " ++ repr U key ++ " is a PROJECTION column "
  if normalized U type ≠ "date" then
    .error (column ++ "with projection." ++ key ++ ".type=" ++ reprOption U type ++
      " — Athena requires this parameter to be present and exactly 'date' for every projected " ++
      "partition column; a missing or non-'date' value is either an invalid/unqueryable " ++
      "projection configuration or one whose values ('enum'/'integer'/'injected') are not " ++
      "guaranteed ISO date strings, and either way every real scan would fail or silently match " ++
      "zero rows [reason: projection_type_not_date]")
  else if strip (format.getD "").toList ≠ "yyyy-MM-dd".toList then
    .error (column ++ "with projection." ++ key ++ ".format=" ++ reprOption U format ++
      " — Athena requires this parameter to be present and exactly 'yyyy-MM-dd' for a date-typed " ++
      "projection column (it has no ISO default); a missing or non-ISO value is either an " ++
      "invalid/unqueryable projection configuration or would silently match zero rows every day " ++
      "[reason: projection_date_format_missing_or_not_iso]")
  else if range.isNone then
    .error (column ++ "missing projection." ++ key ++ ".range — Athena requires a range for " ++
      "every date-typed projected partition column; without it the configuration is " ++
      "invalid/unqueryable [reason: projection_range_missing]")
  else if projectionRangeUpperBoundExpired U range now = some true then
    .error ("partition key " ++ repr U key ++ " is a PROJECTION column whose projection." ++ key ++
      ".range=" ++ reprOption U range ++ " upper bound has already passed — Athena will generate " ++
      "no candidate partitions for the current or any future date, so every real scan from today " ++
      "onward would silently match zero rows [reason: projection_range_expired]")
  else .ok ()

/-- The validation that a layout resolves, before it is checked. -/
def Layout.validation (U : Unicode) (l : Layout) : Validation :=
  let columns := l.table.columnNames U
  let scope (canonical : String) (found : Option (ScopeKind × String)) : List (String × String) :=
    (found.map fun (_, column) => (canonical, column)).toList
  let columnMap := resolveFields columns requiredFields ++ scope "account_id" l.accountScope ++
    scope "region" l.regionScope
  { status := none
    schemaFields := (columnMap.map (·.2)).insertionSort (· ≤ ·)
    partitionStrategy := some l.strategy
    optionalFields := optionalFieldNames.filter columns.contains
    partitionKeyTypes := some (l.table.partitionKeys.map (·.type))
    columnMap := columnMap
    partitionKeys := l.table.keyNames
    scopeResolution := some
      { accountId := l.accountScope.map (·.1), region := l.regionScope.map (·.1) }
    scannedUnscoped := some (l.accountScope.isNone && l.regionScope.isNone) }

/-- The checks of a Hive-style layout: each key in turn, by the first key of its name. -/
def checkHive (U : Unicode) (remaining : List String)
    (check : String → String → Except String Unit) : Except String Unit :=
  hiveKeys.forM fun hiveKey =>
    check hiveKey ((remaining.find? fun key => lower U key == hiveKey).getD "")

/-- The checks of the partition keys that remain besides the scope keys: a Hive-style scheme or
one date key. -/
def checkDateLayout (U : Unicode) (l : Layout) (now : Clock) : Except String Unit := do
  let remaining := partitionKeysExcludingScope U (l.validation U)
  if isHiveStyle U remaining then
    checkHive U remaining (checkHiveKey U l)
    checkIf (l.strategy = .projection) (checkHive U remaining (checkProjectedHiveKey U l))
  else
    match remaining with
    | [key] =>
      checkDateKey U l key
      checkIf (l.strategy = .projection) (checkProjectedDateKey U l key now)
    | _ => .error ("partition-key layout does not resolve a single bounded date candidate after " ++
        "excluding resolved account_id/region scope keys — expected either a Hive-style " ++
        "year/month/day scheme or exactly one remaining date-typed key " ++
        "[reason: partition_key_no_date_candidate]")

/-- The checks of a layout, in their order. -/
def checkLayout (U : Unicode) (l : Layout) (now : Clock) : Except String Unit := do
  checkIf (l.strategy = .projection) (l.scopes.forM fun (canonical, value, scope) =>
    checkProjectedScope U l canonical value scope)
  l.scopes.forM fun (canonical, _, scope) => checkScopeColumn U l canonical scope
  checkIf (l.strategy = .partitionKeys) (l.scopes.forM fun (canonical, _, scope) =>
    checkScopeKey U l canonical scope)
  checkDateLayout U l now

/-- The aliases of a scope field. -/
def aliasesOf (canonical : String) : List String :=
  (scopeAliases.lookup canonical).getD []

def validate (U : Unicode) (accounts : String → Option (Option String))
    (workgroup : WorkgroupConfig) (table : GlueTable) (request : ValidateRequest) (now : Clock) :
    Except String (Identifiers × Validation) := do
  let identifiers ← validateIdentifiers U request
  let _externalId ← resolveExternalId U accounts identifiers.accountId
  raiseIf (workgroup.outputLocation.filter (· ≠ "")).isNone
    "workgroup has no configured query-results S3 location"
  raiseIf (workgroup.bytesScannedCutoffPerQuery.getD 0 = 0)
    "workgroup does not enforce a BytesScannedCutoffPerQuery — configure one before use"
  let columns := table.columnNames U
  let missing := requiredFields.filter fun (_, aliases) => !aliases.any columns.contains
  raiseIf (!missing.isEmpty)
    ("table missing required Flow Log fields: " ++ String.intercalate ", " (missing.map (·.1)))
  let scope (canonical : String) := resolveScopeField U columns table.keyNames (aliasesOf canonical)
  let projectionEnabled := table.parameters.lookup "projection.enabled" == some "true"
  raiseIf (table.partitionKeys.isEmpty && !projectionEnabled)
    "table has no partition keys or partition projection — cannot bound a scan"
  let layout : Layout :=
    { table := table
      identifiers := identifiers
      strategy := if projectionEnabled then .projection else .partitionKeys
      accountScope := scope "account_id"
      regionScope := scope "region" }
  checkLayout U layout now
  pure (identifiers, layout.validation U)

/-- The source row that is stored for an accepted request: the validation becomes `valid`. -/
def storedSource (identifiers : Identifiers) (v : Validation) : SourceRow where
  accountId := identifiers.accountId
  region := identifiers.region
  workgroup := identifiers.workgroup
  databaseName := identifiers.database
  tableName := identifiers.table
  validation := { v with status := some "valid" }

/-- `_FORBIDDEN_RE`. -/
def forbiddenKeywords : List (List Char) :=
  ["INSERT", "UPDATE", "DELETE", "DROP", "ALTER", "CREATE", "GRANT", "REVOKE", "MERGE", "TRUNCATE",
    "CALL", "VACUUM", "UNLOAD", "UNION"].map String.toList

/-- Why the broker refuses a day on configuration grounds: a `BrokerError` or a refusal with its
reason, a query window outside the declared ranges, one that could not be verified, or a date that
leaves the calendar. -/
inductive Refusal where
  | refused (reason : String)
  | projectionRangeUncovered
  | partitionCheckUnverified
  | calendar (error : DateError)
  deriving DecidableEq

def rejectNonSelect (U : Unicode) (sql : List Char) : Except Refusal Unit :=
  if !keywordHere U "SELECT".toList none (sql.dropWhile isSpace) then
    .error (.refused "query must be a bare SELECT")
  else if searchKeyword U forbiddenKeywords sql then
    .error (.refused "query contains a forbidden (mutating) keyword")
  else .ok ()

/-- The refusal that a query which is not built becomes. -/
def SelectError.refusal : SelectError → Refusal
  | .unsafeIdentifier message =>
    .refused ("unsafe identifier in resolved source config: " ++ message)
  | .overflow => .calendar .overflowError

/-- The row as a request to the identifier check. -/
def SourceRow.request (source : SourceRow) : ValidateRequest where
  accountId := some source.accountId
  region := some source.region
  workgroup := some source.workgroup
  database := some source.databaseName
  table := some source.tableName

/-- The projection range check of `_query_by_source`, against the parameters of the table. -/
def checkProjectionRange (U : Unicode) (params : List (String × String)) (v : Validation)
    (day : Int) (now : Clock) : Except Refusal Unit :=
  if v.partitionStrategy = some .projection then
    match projectionDayOutOfRange U params v day now with
    | .error error => .error (.calendar error)
    | .ok .outside => .error .projectionRangeUncovered
    | .ok .unresolved => .error .partitionCheckUnverified
    | .ok .inside => .ok ()
  else .ok ()

/-- The configuration gates of `_query_by_source`, and the query that passes them. -/
def scanGates (U : Unicode) (params : List (String × String)) (source : SourceRow) (day : Int)
    (now : Clock) : Except Refusal (List SqlPiece) := do
  let v := source.validation
  let _identifiers ← (validateIdentifiers U source.request).mapError .refused
  raiseIf (v.status ≠ some "valid") (.refused ("source validation.status=" ++
    reprOption U v.status ++ " is not 'valid' — refusing to scan"))
  raiseIf (!hasResolvedPartitionStrategy U v) (.refused
    "validation did not resolve a partition strategy — refusing an unbounded scan")
  raiseIf (v.partitionKeyTypes.isNone || v.scopeResolution.isNone) (.refused
    ("stale validation predates partitionKeyTypes/scopeResolution and cannot be trusted to be " ++
      "scoped/date-shaped correctly — refusing to scan; re-run validate to refresh it"))
  let sql ← (buildDaySelect U source day).mapError SelectError.refusal
  rejectNonSelect U (render sql)
  checkProjectionRange U params v day now
  pure sql

end AwsOps.SgRules

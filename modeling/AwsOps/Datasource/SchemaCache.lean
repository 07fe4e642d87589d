import Mathlib.Data.List.Sublists
import AwsOps.Foundation.Documents
import AwsOps.Foundation.FirstFit

/-!
# The writers of the schema cache

`upsertSchema` of the web tier and `upsert_datasource_schema` of the worker: both store an
introspected schema, or a trimmed copy of one that is too large, or reject it. A schema is a JSON
value whose numbers both languages hold; how each of them prints and compares numbers is given by
`Numbers`.
-/

namespace AwsOps.Datasource

open Doc (Fields get put bytes write)

/-- `MAX_SCHEMA_BYTES` and `_MAX_SCHEMA_BYTES`. -/
def maxSchemaBytes : Nat := 256000

/-- The numbers of a schema: their texts under `JSON.stringify` and `json.dumps`, whether two of
them are the same number, and whether one equals `True` or `False` in Python. -/
structure Numbers (ν : Type) where
  web : ν → List Char
  worker : ν → List Char
  same : ν → ν → Bool
  bit : Bool → ν → Bool

variable {ν : Type} (N : Numbers ν)

/-! ## Size -/

/-- `Buffer.byteLength(JSON.stringify(schema), 'utf8') <= MAX_SCHEMA_BYTES`. -/
def webFits (schema : Doc ν) : Bool :=
  bytes (write (Doc.stringifyFormat N.web) schema) ≤ maxSchemaBytes

/-- `len(json.dumps(schema).encode("utf-8")) <= _MAX_SCHEMA_BYTES`. -/
def workerFits (schema : Doc ν) : Bool :=
  bytes (write (Doc.dumpsFormat N.worker) schema) ≤ maxSchemaBytes

/-! ## Probed names -/

/-- The comparison of `includes` and of a `Set`. Two objects are never the same one. -/
def sameValueZero : Doc ν → Doc ν → Bool
  | .null, .null => true
  | .bool b, .bool b' => b == b'
  | .num n, .num n' => N.same n n'
  | .str s, .str s' => s == s'
  | _, _ => false

/-- `==` on values that can be hashed. -/
def pyEq : Doc ν → Doc ν → Bool
  | .bool b, .num n => N.bit b n
  | .num n, .bool b => N.bit b n
  | x, y => sameValueZero N x y

/-- The value can be an element of a Python set. -/
def hashable : Doc ν → Bool
  | .arr _ | .obj _ => false
  | _ => true

def listAt (schema : Fields ν) (key : String) : Option (List (Doc ν)) :=
  match get schema key with
  | some (.arr items) => some items
  | _ => none

/-- `keep.has(m)`, where `keep` are the names in both lists. -/
def inBoth (eq : Doc ν → Doc ν → Bool) (all probed : List (Doc ν)) (m : Doc ν) : Bool :=
  probed.any fun p => all.any (eq · p) && eq p m

/-- `keep` of `trimSchemaForCache`. -/
def webKeeps (schema : Fields ν) (all : List (Doc ν)) : Doc ν → Bool :=
  inBoth (sameValueZero N) all ((listAt schema "probed").getD [])

/-- `keep` of `_trim_schema_for_cache`. `none` is the `TypeError` of an element that cannot be
hashed. -/
def workerKeeps (schema : Fields ν) (all : List (Doc ν)) : Option (Doc ν → Bool) :=
  let probed := (listAt schema "probed").getD []
  if all.all hashable && probed.all hashable then some (inBoth (pyEq N) all probed) else none

/-! ## Trimming -/

def cutTable : Doc ν → Doc ν
  | .obj t =>
    match listAt t "columns" with
    | some columns => .obj (put t "columns" (.arr (columns.take 80)))
    | none => .obj t
  | t => t

def cutTables (schema : Fields ν) (tables : List (Doc ν)) : Fields ν :=
  put (put schema "tables" (.arr ((tables.take 50).map cutTable))) "truncated" (.bool true)

/-- The copy of a schema with metrics, before the list of metrics is thinned. -/
def marked (schema : Fields ν) : Fields ν :=
  let out := put (put schema "truncated" (.bool true)) "trimmed" (.bool true)
  match listAt schema "labels" with
  | some labels => put out "labels" (.arr (labels.take 100))
  | none => out

/-- The metrics whose index is a multiple of the stride, and those that are kept. -/
def every (stride : Nat) (keep : Doc ν → Bool) (all : List (Doc ν)) : List (Doc ν) :=
  (all.zipIdx.filter fun m => m.2 % stride == 0 || keep m.1).map Prod.fst

/-- The loop over the stride, after `n` doublings. It ends because the stride reaches the number of
metrics. -/
def thin (fits : Doc ν → Bool) (keep : Doc ν → Bool) (all : List (Doc ν)) (n : Nat)
    (out : Fields ν) : Fields ν :=
  if !fits (.obj out) && 2 ^ n < all.length then
    thin fits keep all (n + 1) (put out "metrics" (.arr (every (2 ^ (n + 1)) keep all)))
  else out
termination_by all.length - 2 ^ n
decreasing_by
  rename_i hloop
  simp only [Bool.and_eq_true, decide_eq_true_eq] at hloop
  have hgrow : 2 ^ n < 2 ^ (n + 1) := Nat.pow_lt_pow_right (by omega) (by omega)
  omega

def trimSchemaForCache (schema : Doc ν) : Doc ν :=
  match schema with
  | .obj s =>
    match listAt s "tables", listAt s "metrics" with
    | some tables, _ => .obj (cutTables s tables)
    | none, some all =>
      if webFits N schema then schema
      else .obj (thin (webFits N) (webKeeps N s all) all 0 (marked s))
    | none, none => schema
  | _ => schema

/-- `_trim_schema_for_cache`. -/
def trimSchemaForCacheWorker (schema : Doc ν) : Option (Doc ν) :=
  match schema with
  | .obj s =>
    match listAt s "tables", listAt s "metrics" with
    | some tables, _ => some (.obj (cutTables s tables))
    | none, some all =>
      (workerKeeps N s all).map fun keep =>
        .obj (thin (workerFits N) keep all 0 (marked s))
    | none, none => some schema
  | _ => some schema

/-! ## Writing -/

/-- `schema ?? {}`. -/
def orEmpty : Doc ν → Doc ν
  | .null => .obj []
  | schema => schema

/-- `upsertSchema`: what is stored, unless it throws. -/
def upsertSchema (schema : Doc ν) : Option (Doc ν) :=
  if webFits N (orEmpty schema) then some (orEmpty schema)
  else
    let trimmed := orEmpty (trimSchemaForCache N schema)
    if webFits N trimmed then some trimmed else none

/-- `upsert_datasource_schema`: what is stored, unless it raises. -/
def upsertDatasourceSchema (schema : Doc ν) : Option (Doc ν) :=
  if workerFits N schema then some schema
  else
    match trimSchemaForCacheWorker N schema with
    | none => none
    | some trimmed => if workerFits N trimmed then some trimmed else none

end AwsOps.Datasource

import AwsOps.Foundation.Phrases
import AwsOps.Foundation.Tokens

/-!
# The read-only guard

`strip_sql` and `assert_read_only`. The scanner keeps the text that it has passed, in reverse, since
it looks back at what stands before a quote. A turn of its loop appends a piece to the result and
consumes at least one character. An error is the text of the `ValueError`.
-/

namespace AwsOps.SqlGuard

open Text Tokens

/-- The dialect knobs. -/
structure Dialect where
  hashComment : Bool
  backslashEscapes : Bool
  dashCommentNeedsBoundary : Bool
  dollarQuote : Bool
  nestedBlockComment : Bool

variable (U : Unicode)

/-! ## Looking around -/

def isIdentChar (c : Char) : Bool :=
  U.alnum c || c == '_' || c == '$'

/-- `_prefix_is`, for a prefix in upper case; the text before the quote is reversed. The only
characters whose upper case is in the prefixes `E` and `U&` are ASCII. -/
def prefixIs (before : List Char) (name : String) : Bool :=
  (before.take name.length).reverse.map Char.toUpper == name.toList &&
    !(before.drop name.length).head?.any (isIdentChar U)

/-- `\$[A-Za-z0-9_]*\$` at a dollar sign, given what follows it: the tag. -/
def dollarTag (rest : List Char) : Option (List Char) :=
  let tag := rest.takeWhile fun c => c.isAlphanum || c == '_'
  if (rest.drop tag.length).head? = some '$' then some tag else none

/-- A dollar-quoted string opens at a dollar sign: its tag. -/
def opensDollar (before rest : List Char) : Option (List Char) :=
  if before.head?.any (isIdentChar U) then none else dollarTag rest

/-- The text before the first occurrence of a mark, as `find` locates it. -/
def upTo (mark : List Char) : List Char → Option (List Char)
  | [] => none
  | c :: rest =>
    if mark.isPrefixOf (c :: rest) then some [] else (upTo mark rest).map (c :: ·)

/-! ## What one turn consumes -/

/-- The rest of a nested block comment. -/
def nestedComment : Nat → List Char → List Char
  | 0, _ => []
  | _ + 1, [] => []
  | depth + 1, '/' :: '*' :: rest => '/' :: '*' :: nestedComment (depth + 2) rest
  | depth + 1, '*' :: '/' :: rest => '*' :: '/' :: nestedComment depth rest
  | depth + 1, c :: rest => c :: nestedComment (depth + 1) rest

def blockComment (d : Dialect) (rest : List Char) : List Char :=
  if d.nestedBlockComment then nestedComment 1 rest
  else match upTo ['*', '/'] rest with
    | some body => body ++ ['*', '/']
    | none => rest

/-- The rest of a string literal. -/
def literal (escapes : Bool) : List Char → List Char
  | [] => []
  | [c] => [c]
  | c :: d :: rest =>
    if escapes && c == backslash then c :: d :: literal escapes rest
    else if c == apostrophe then
      if d == apostrophe then c :: d :: literal escapes rest else [c]
    else c :: literal escapes (d :: rest)

/-- The rest of a quoted identifier: what is appended and what is consumed. -/
def identifier (quote : Char) : List Char → List Char × List Char
  | [] => ([], [])
  | [c] => (if c == quote then [] else [c], [c])
  | c :: d :: rest =>
    if c == backslash then
      let (out, consumed) := identifier quote rest
      (c :: d :: out, c :: d :: consumed)
    else if c == quote then
      if d == quote then
        let (out, consumed) := identifier quote rest
        (c :: out, c :: d :: consumed)
      else ([], [c])
    else
      let (out, consumed) := identifier quote (d :: rest)
      (c :: out, c :: consumed)

/-- `--` opens a comment, given what follows it. -/
def dashOpens (d : Dialect) (rest : List Char) : Bool :=
  !d.dashCommentNeedsBoundary || rest.head?.all fun c => isSpace c || c.toNat < 0x20

/-- One turn of the loop: what is appended and what is consumed. -/
def piece (d : Dialect) (before : List Char) (c : Char) (rest : List Char) :
    Except String (List Char × List Char) :=
  if c == '/' && rest.head? == some '*' then
    if rest.tail.head? == some '!' then
      throw "read-only: MySQL executable comment (/*! ... */) is not allowed"
    else return ([' '], c :: '*' :: blockComment d rest.tail)
  else if (c == '-' && rest.head? == some '-' && dashOpens d rest.tail) ||
      (d.hashComment && c == '#') then
    return ([' '], c :: rest.takeWhile fun c => c != '\n')
  else if c == apostrophe then
    if prefixIs U before "U&" then
      throw "read-only: U&'...' unicode-escape string literals are not allowed"
    else return ([' '], c :: literal (d.backslashEscapes || prefixIs U before "E") rest)
  else match if d.dollarQuote && c == '$' then opensDollar U before rest else none with
    | some tag =>
      let mark := '$' :: tag ++ ['$']
      match upTo mark (rest.drop (tag.length + 1)) with
      | none => throw "read-only: unterminated dollar-quoted string"
      | some body => return ([' '], mark ++ body ++ mark)
    | none =>
      if c == backtick || c == doubleQuote then
        if c == doubleQuote && prefixIs U before "U&" then
          throw "read-only: U&\"...\" unicode-escape identifiers are not allowed"
        else
          let (out, consumed) := identifier c rest
          return (out, c :: consumed)
      else return ([c], [c])

/-- The loop over a text, of which the first characters are still to be skipped. -/
def scan (d : Dialect) : Nat → List Char → List Char → Except String (List Char)
  | _, _, [] => return []
  | skip + 1, before, c :: rest => scan d skip (c :: before) rest
  | 0, before, c :: rest => do
      let (out, consumed) ← piece U d before c rest
      let more ← scan d (consumed.length - 1) (c :: before) rest
      return out ++ more

def stripSql (d : Dialect) (sql : List Char) : Except String (List Char) := do
  let result ← scan U d 0 [] sql
  if contains ['/', '*'] result || contains ['*', '/'] result then
    throw "read-only: unresolved block comment marker after parsing"
  return result

/-! ## The guard -/

def readVerbs : List String :=
  ["SELECT", "WITH", "SHOW", "DESCRIBE", "DESC", "EXISTS", "EXPLAIN"]

/-- What may follow the letters of an alternative of `DANGER`: nothing, `\w*` or `\w+`. -/
inductive Ending
  | exact
  | any
  | more
  deriving DecidableEq

/-- The alternatives of `DANGER`, in upper case, but for `REPLACE\s+(?:INTO|TABLE)`. -/
def dangerWords : List (String × Ending) :=
  ["INSERT", "ALTER", "DROP", "CREATE", "DELETE", "TRUNCATE", "OPTIMIZE", "ATTACH", "DETACH",
    "SET", "SYSTEM", "GRANT", "REVOKE", "KILL", "MOVE", "RENAME", "CALL", "COPY", "MERGE"].map
      (·, .exact) ++
    ["LOCK", "EXECUTE", "DO", "VACUUM", "REINDEX", "LISTEN", "NOTIFY", "REFRESH", "UPDATE", "INTO",
      "PG_READ_FILE", "PG_READ_BINARY_FILE", "PG_STAT_FILE"].map (·, .exact) ++
    [("PG_LS_", .more), ("LO_IMPORT", .exact), ("LO_EXPORT", .exact), ("LO_CREATE", .exact),
      ("LO_UNLINK", .exact), ("LO_PUT", .exact), ("DBLINK", .any),
      ("PG_TERMINATE_BACKEND", .exact), ("PG_CANCEL_BACKEND", .exact), ("PG_ADVISORY_", .more),
      ("SET_CONFIG", .exact), ("LOAD_FILE", .exact), ("SETVAL", .exact), ("NEXTVAL", .exact),
      ("PG_STAT_RESET", .any), ("PG_DROP_REPLICATION_SLOT", .exact),
      ("PG_CREATE_LOGICAL_REPLICATION_SLOT", .exact),
      ("PG_CREATE_PHYSICAL_REPLICATION_SLOT", .exact), ("PG_SWITCH_WAL", .exact),
      ("PG_RELOAD_CONF", .exact), ("PG_SLEEP", .exact)]

/-- The words that `REPLACE\s+(?:INTO|TABLE)` ends in. -/
def replaceTargets : List String :=
  ["INTO", "TABLE"]

def Ending.items : Ending → List Item
  | .exact => []
  | .any => [.many (isWord U)]
  | .more => [.one (isWord U), .many (isWord U)]

/-- The alternative of a word. -/
def wordPhrase (entry : String × Ending) : List Item :=
  .boundary :: letters entry.1 ++ entry.2.items U ++ [.boundary]

/-- The alternative of `REPLACE` with a target. -/
def replacePhrase (target : String) : List Item :=
  .boundary :: letters "REPLACE" ++ [.one isSpace, .many isSpace] ++ letters target ++ [.boundary]

def danger : List (List Item) :=
  dangerWords.map (wordPhrase U) ++ replaceTargets.map replacePhrase

/-- The statements of a stripped text: the pieces between semicolons that are not blank. -/
def statements (stripped : List Char) : List (List Char) :=
  (split [';'] stripped).filter fun p => !(strip p).isEmpty

/-- The first of the words that `split()` gives, or the empty text. -/
def firstWord (stripped : List Char) : List Char :=
  ((strip stripped).dropWhile isSpace).takeWhile fun c => !isSpace c

/-- `assert_read_only` with its default verbs and keywords, where a caller may forbid more, with a
message. -/
def assertReadOnly (d : Dialect) (extra : Option (List (List Item) × Option String))
    (sql : List Char) : Except String Unit := do
  let stripped ← stripSql U d sql
  if (statements stripped).length > 1 then
    throw "read-only: multiple statements are not allowed"
  if !(readVerbs.map String.toList).contains (U.upper (firstWord stripped)) then
    throw ("read-only: only " ++ String.intercalate "/" readVerbs ++ " queries are allowed")
  if searchPhrase U (danger U) stripped then
    throw "read-only: statement contains a disallowed (write/admin) keyword"
  if let some (forbidden, message) := extra then
    if searchPhrase U forbidden stripped then
      throw (message.getD "read-only: statement contains a disallowed construct")

def postgres : Dialect where
  hashComment := false
  backslashEscapes := false
  dashCommentNeedsBoundary := false
  dollarQuote := true
  nestedBlockComment := true

end AwsOps.SqlGuard

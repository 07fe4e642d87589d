import AwsOps.Foundation.Backtracking

/-!
# Generating a PromQL query

`web/lib/datasource-querygen.ts`: `generateQuery` asks a model for a query, checks the names of the
draft against the cached metric names, and asks once more if some are unknown. The main result is
that the check is advisory (`generate_query_advisory`).
-/

namespace AwsOps.Datasource.QueryGen

open Backtracking Substitute
open Text (isTrimmed)

/-! ## Patterns -/

/-- `text.replace(r, replacement)` with a global expression. -/
def replaceAll (r : Regex) (replacement text : List Char) : List Char :=
  render replacement (scan r.length none 0 text)

/-- The matches of a global expression. -/
def matchAll (r : Regex) (text : List Char) : List (List Char) :=
  (scan r.length none 0 text).filterMap fun
    | .cut found => some found
    | .keep _ => none

/-- `r.test(text)` -/
def test (r : Regex) (text : List Char) : Bool :=
  !(matchAll r text).isEmpty

/-- `\w` -/
def isWordChar (c : Char) : Bool :=
  c.isAlphanum || c == '_'

/-- `\b` -/
def bound : Regex :=
  .look fun before rest => before.any isWordChar != rest.head?.any isWordChar

/-- `[members]*` -/
def many (member : Char → Bool) : Regex :=
  .loop 0 none (.one member)

/-- `word` with the flag `i`. -/
def caseless (word : String) : Regex :=
  .all (word.toList.map fun k => .one fun c => c.toLower == k.toLower)

/-- What `.` stands for. -/
def isInLine (c : Char) : Bool :=
  ! [0x0A, 0x0D, 0x2028, 0x2029].contains c.toNat

/-- A string in these quotes. -/
def quotedBy (q : Char) : Regex :=
  .all [.char q, .loop 0 none (.any [.one fun c => c != q && c != '\\',
    .all [.char '\\', .one isInLine]]), .char q]

def strings : Regex :=
  .any [quotedBy '\'', quotedBy '"', .all [.char '`', many (· != '`'), .char '`']]

def isNameStart (c : Char) : Bool :=
  c.isAlpha || c == '_'

/-- An item of a list of labels, with the blanks behind it. -/
def label : Regex :=
  .all [.one isNameStart, many isWordChar, many isTrimmed]

def labelList : Regex :=
  .all [bound, .any (["by", "without", "on", "ignoring", "group_left", "group_right"].map .word),
    many isTrimmed, .char '(', many isTrimmed,
    .loop 0 (some 1) (.all [label, .loop 0 none (.all [.char ',', many isTrimmed, label])]),
    .char ')']

def digits : Regex :=
  .plus (.one Char.isDigit)

def duration : Regex :=
  .all [bound,
    .plus (.all [digits, .any (["ms", "s", "m", "h", "d", "w", "y"].map caseless)]), bound]

def isHex (c : Char) : Bool :=
  c.isDigit || ('a' ≤ c.toLower && c.toLower ≤ 'f')

def number : Regex :=
  .any [.all [bound, caseless "0x", .plus (.one isHex), bound],
    .all [bound, digits, .loop 0 (some 1) (.all [.char '.', digits]),
      .loop 0 (some 1)
        (.all [caseless "e", .loop 0 (some 1) (.any [.char '+', .char '-']), digits]), bound]]

/-- What is blanked before the names are read, in this order. -/
def strips : List Regex :=
  [strings, .all [.char '#', many (· != '\n')],
    .all [.char '[', many fun c =>
      c.isDigit || "smhdwy:".toList.contains c.toLower || isTrimmed c, .char ']'],
    .all [.char '\x7b', many (· != '\x7d'), .char '\x7d'], labelList, duration, number]

/-! ## The names of a query -/

/-- `PROMQL_BUILTINS` -/
def promqlBuiltins : List String :=
  ["sum", "min", "max", "avg", "group", "stddev", "stdvar", "count", "count_values", "bottomk",
    "topk", "quantile", "limitk", "limit_ratio", "by", "without", "on", "ignoring", "group_left",
    "group_right", "offset", "bool", "and", "or", "unless", "atan2", "abs", "absent",
    "absent_over_time", "acos", "acosh", "asin", "asinh", "atan", "atanh", "ceil", "changes",
    "clamp", "clamp_max", "clamp_min", "cos", "cosh", "day_of_month", "day_of_week", "day_of_year",
    "days_in_month", "deg", "delta", "deriv", "exp", "floor", "histogram_avg", "histogram_count",
    "histogram_fraction", "histogram_quantile", "histogram_stddev", "histogram_stdvar",
    "histogram_sum", "holt_winters", "double_exponential_smoothing", "hour", "idelta", "increase",
    "info", "irate", "label_join", "label_replace", "ln", "log10", "log2", "minute", "month", "pi",
    "predict_linear", "rad", "rate", "resets", "round", "scalar", "sgn", "sin", "sinh", "sort",
    "sort_by_label", "sort_by_label_desc", "sort_desc", "sqrt", "tan", "tanh", "time", "timestamp",
    "vector", "year", "avg_over_time", "count_over_time", "last_over_time", "first_over_time",
    "mad_over_time", "max_over_time", "min_over_time", "present_over_time", "quantile_over_time",
    "stddev_over_time", "stdvar_over_time", "sum_over_time", "ts_of_min_over_time",
    "ts_of_max_over_time", "ts_of_last_over_time", "start", "end"]

abbrev Name := List Char

/-- `[a-zA-Z_:][a-zA-Z0-9_:]*` -/
def name : Regex :=
  .all [.one fun c => isNameStart c || c == ':', many fun c => isWordChar c || c == ':']

/-- A name that is no metric. -/
def isBuiltin (token : Name) : Bool :=
  promqlBuiltins.contains (String.ofList token) || token.all (· == ':') ||
    ["inf".toList, "nan".toList].contains (token.map Char.toLower)

def unknownPromqlNames (query : List Char) (metricNames : List Name) : List Name :=
  let stripped := strips.foldl (fun text r => replaceAll r [' '] text) query
  let tokens := (matchAll name stripped).eraseDups.filter fun t => !isBuiltin t
  tokens.filter fun t => !metricNames.contains t

def ruleCore (name : Name) : Name :=
  (name.dropWhile (· == ':')).takeWhile (· != ':')

def confidentNearMisses (unknown metricNames : List Name) : List Name :=
  ((unknown.map ruleCore).filter fun c => !c.isEmpty && metricNames.contains c).eraseDups

/-- Add names to a set until it has five. -/
def addUpToFive (out : List Name) : List Name → List Name
  | [] => out
  | m :: more =>
    let out := if out.contains m then out else out ++ [m]
    if 5 ≤ out.length then out else addUpToFive out more

def nearMissCandidates (unknown metricNames : List Name) : List Name :=
  addUpToFive (confidentNearMisses unknown metricNames) (unknown.flatMap fun u =>
    let uc := ruleCore u
    if uc.isEmpty then []
    else metricNames.filter fun m => m == uc || Text.contains uc m || Text.contains m uc)

/-! ## The query in an answer -/

/-- The text before and after the first occurrence of a mark. -/
def cutAt (mark text : List Char) : Option (List Char × List Char) :=
  Text.search (fun rest => if mark.isPrefixOf rest then some (rest.drop mark.length) else none) text

def trim : List Char → List Char :=
  Text.stripBy isTrimmed

def fence : List Char :=
  "```".toList

/-- What is behind the language of an opening fence. -/
def behindFence (rest : List Char) : List Char :=
  match rest.dropWhile fun c => isWordChar c || c == '-' with
  | '\n' :: body => body
  | body => body

/-- The first code units of a text. A character of which only one half fits is left out. -/
def slice : Nat → List Char → List Char
  | _, [] => []
  | room, c :: rest =>
    let size := if c.toNat < 0x10000 then 1 else 2
    if size ≤ room then c :: slice (room - size) rest else []

/-- `MAX_QUERY` -/
def maxQuery : Nat := 8000

def extractQuery (text : List Char) : List Char :=
  let fenced := do
    let (_, rest) ← cutAt fence text
    let (body, _) ← cutAt fence (behindFence rest)
    return body
  slice maxQuery (match fenced with
    | some body => trim body
    | none =>
      let q := trim text
      trim (if fence.isPrefixOf q then behindFence (q.drop fence.length) else q))

/-- The loop of `stripLeadingSqlComments`. -/
def stripComments : Nat → List Char → List Char
  | 0, s => s
  | guard + 1, s =>
    let behind (mark : String) :=
      stripComments guard (((cutAt mark.toList s).map fun cut => trim cut.2).getD [])
    if "--".toList.isPrefixOf s || "#".toList.isPrefixOf s then behind "\n"
    else if "/*".toList.isPrefixOf s then behind "*/"
    else s

def stripLeadingSqlComments (sql : List Char) : List Char :=
  stripComments 50 (trim sql)

/-- `READ_VERBS` -/
def readVerbs : Regex :=
  .all [.any (["SELECT", "WITH", "SHOW", "DESCRIBE", "DESC", "EXISTS"].map caseless), bound]

def looksReadOnlySql (query : List Char) : Bool :=
  (readVerbs.length none (stripLeadingSqlComments query)).isSome

/-- `BOX_OR_BOLD_RE` -/
def boxOrBold : Regex :=
  .any [.one fun c => 0x2500 ≤ c.toNat && c.toNat ≤ 0x257F, .word "**"]

def looksLikeProse (query : List Char) (isSql : Bool) : Bool :=
  test boxOrBold query || (!isSql &&
    (test (.all [.char '\n', many isTrimmed, .char '\n']) query || 5 < query.count '\n' + 1))

/-! ## `generateQuery` -/

/-- The input, for the language PromQL. No metric names are cached if the list is empty. -/
structure GenerateQueryInput where
  nl : List Char
  isSql : Bool
  metricNames : List Name
  vocabularyComplete : Option Bool

inductive Problem
  | send
  | emptyQuery
  | prose
  | notReadOnly
  | unbalancedBraces

/-- What a call of the model comes to: a text or nothing, or an exception. -/
inductive Reply
  | text (text : Option (List Char))
  | raised

structure GeneratedQuery where
  query : List Char
  warning : Option (List Char)
  deriving DecidableEq

section Generate

variable (input : GenerateQueryInput)

def validate (query : List Char) : Except Problem Unit :=
  let bare := replaceAll strings [] query
  if query.isEmpty then .error .emptyQuery
  else if looksLikeProse query input.isSql then .error .prose
  else if input.isSql && !looksReadOnlySql query then .error .notReadOnly
  else if bare.count '\x7b' ≠ bare.count '\x7d' then .error .unbalancedBraces
  else .ok ()

/-- The validated query of an answer of the model. -/
def draft : Reply → Except Problem (List Char)
  | .raised => .error .send
  | .text answer => do
    let query := extractQuery (answer.getD [])
    validate input query
    return query

def user : List Char :=
  "<request>\n".toList ++ input.nl ++ "\n</request>".toList

/-- The set of the metric names. -/
def anchor : List Name :=
  input.metricNames.eraseDups

def unknown (query : List Char) : List Name :=
  unknownPromqlNames query (anchor input)

def incomplete : Bool :=
  input.vocabularyComplete == some false

def joined (names : List Name) : List Char :=
  (", ".toList).intercalate names

def warn (names : List Name) : List Char :=
  let hedge := if incomplete input then
    " (the cached schema is truncated or stale — these may be false alarms)" else ""
  "names not found in this datasource's cached schema: ".toList ++ joined names ++ hedge.toList ++
    " — review before running".toList

/-- The tags that are taken out of a draft before it is echoed. -/
def boundaryTag : Regex :=
  .all [.char '<', .loop 0 (some 1) (.char '/'),
    .any (["previous_answer", "schema", "request"].map caseless), .char '>']

/-- The second prompt. -/
def retryUser (query : List Char) : List Char :=
  let unknown := unknown input query
  let near := (nearMissCandidates unknown (anchor input)).filter fun m =>
    name.length none m == some m.length
  user input ++ "\n\n<previous_answer>\n".toList ++ replaceAll boundaryTag [] query ++
    "\n</previous_answer>\nThe previous answer uses names that are NOT in the schema: ".toList ++
    joined unknown ++ ".".toList ++
    (if near.isEmpty then [] else " Did you mean: ".toList ++ joined near ++ "?".toList) ++
    " Rewrite the query using ONLY metric names listed in the schema.".toList

/-- What the second call makes of the first draft. -/
def correct (query : List Char) (reply : Reply) : GeneratedQuery :=
  let fallback := ⟨query, some (warn input (unknown input query))⟩
  match draft input reply with
  | .error _ => fallback
  | .ok retried =>
    let retriedUnknown := unknown input retried
    if retriedUnknown.isEmpty then
      ⟨retried, if incomplete input then
        some ("rewritten against a truncated or stale cached schema — review before running".toList)
        else none⟩
    else if retriedUnknown.length < (unknown input query).length then
      ⟨retried, some (warn input retriedUnknown)⟩
    else fallback

/-- The prompts that are sent, and the result. The number of a call and its prompt are given to the
model; the system prompt is the same in both calls. -/
def generateQuery (send : Nat → List Char → Reply) :
    List (List Char) × Except Problem GeneratedQuery :=
  let user := user input
  match draft input (send 0 user) with
  | .error e => ([user], .error e)
  | .ok query =>
    let unknown := unknown input query
    if (anchor input).isEmpty || unknown.isEmpty then ([user], .ok ⟨query, none⟩)
    else if incomplete input && !unknown.all fun u => (anchor input).contains (ruleCore u) then
      ([user], .ok ⟨query, some (warn input unknown)⟩)
    else
      let retryUser := retryUser input query
      ([user, retryUser], .ok (correct input query (send 1 retryUser)))

end Generate

/-! ## The check is advisory -/

variable {input : GenerateQueryInput} {query : List Char}

theorem validate_of_draft {reply : Reply} (h : draft input reply = .ok query) :
    validate input query = .ok () := by
  cases reply with
  | raised => cases h
  | text answer =>
    rw [draft] at h
    cases hvalid : validate input (extractQuery (answer.getD [])) with
    | error e =>
      rw [hvalid] at h
      cases h
    | ok _ =>
      rw [hvalid] at h
      cases h
      exact hvalid

/-- What may be returned for a first draft, when the second call comes to this reply. -/
structure Advice (input : GenerateQueryInput) (first : List Char) (reply : Reply)
    (g : GeneratedQuery) : Prop where
  source : g.query = first ∨ draft input reply = .ok g.query
  quiet : g.warning = none → unknown input g.query = [] ∧ (incomplete input → g.query = first)
  fewer : (unknown input g.query).length ≤ (unknown input first).length

theorem advice_correct (first : List Char) (reply : Reply) :
    Advice input first reply (correct input first reply) := by
  unfold correct
  have hfallback : Advice input first reply ⟨first, some (warn input (unknown input first))⟩ :=
    ⟨.inl rfl, nofun, Nat.le_refl _⟩
  cases hdraft : draft input reply with
  | error e => exact hfallback
  | ok retried =>
    dsimp only
    split_ifs with hnone hincomplete hfewer
    · exact ⟨.inr hdraft, nofun, by simp [List.isEmpty_iff.mp hnone]⟩
    · exact ⟨.inr hdraft, fun _ => ⟨List.isEmpty_iff.mp hnone, fun h => absurd h hincomplete⟩,
        by simp [List.isEmpty_iff.mp hnone]⟩
    · exact ⟨.inr hdraft, nofun, Nat.le_of_lt hfewer⟩
    · exact hfallback

/-- The model is called at most twice. If the first draft is valid then there is a result: one of
the two drafts, itself valid, with no more unknown names than the first one. Where metric names are
cached it has no warning only if all its names are known and, when some may be missing, only if it
is the first draft; where none are cached it is the first draft, without a warning. -/
theorem generate_query_advisory (input : GenerateQueryInput) (send : Nat → List Char → Reply) :
    (generateQuery input send).1.length ≤ 2 ∧
    ∀ first, draft input (send 0 (user input)) = .ok first →
      ∃ g, (generateQuery input send).2 = .ok g ∧ validate input g.query = .ok () ∧
        (g.query = first ∨ draft input (send 1 (retryUser input first)) = .ok g.query) ∧
        (input.metricNames ≠ [] → g.warning = none →
          unknown input g.query = [] ∧ (incomplete input → g.query = first)) ∧
        (unknown input g.query).length ≤ (unknown input first).length ∧
        (input.metricNames = [] → g = ⟨first, none⟩) := by
  unfold generateQuery
  dsimp only
  refine ⟨?_, fun first hfirst => ?_⟩
  · split
    · exact Nat.le_succ 1
    · split_ifs
      · exact Nat.le_succ 1
      · exact Nat.le_succ 1
      · exact Nat.le_refl 2
  · have hvalid := validate_of_draft hfirst
    have hempty : input.metricNames = [] → (anchor input).isEmpty = true := fun h => by
      unfold anchor
      rw [h]
      rfl
    rw [hfirst]
    dsimp only
    split_ifs with hquiet hunprovable
    · refine ⟨_, rfl, hvalid, .inl rfl, fun hnames _ => ⟨?_, fun _ => rfl⟩, Nat.le_refl _,
        fun _ => rfl⟩
      rcases Bool.or_eq_true_iff.mp hquiet with hanchor | hknown
      · unfold anchor at hanchor
        cases hlist : input.metricNames with
        | nil => exact absurd hlist hnames
        | cons n names =>
          rw [hlist, List.eraseDups_cons] at hanchor
          cases hanchor
      · exact List.isEmpty_iff.mp hknown
    · exact ⟨_, rfl, hvalid, .inl rfl, fun _ => nofun, Nat.le_refl _,
        fun h => by simp [hempty h] at hquiet⟩
    · have hadvice := @advice_correct input first (send 1 (retryUser input first))
      refine ⟨_, rfl, ?_, hadvice.source, fun _ => hadvice.quiet, hadvice.fewer,
        fun h => by simp [hempty h] at hquiet⟩
      rcases hadvice.source with h | h
      · rw [h]
        exact hvalid
      · exact validate_of_draft h

/-- A valid draft of known names is returned. -/
theorem known_name_returned :
    ∃ g, (generateQuery ⟨[], false, ["up".toList], none⟩ fun _ _ => .text (some "up".toList)).2 =
      .ok g ∧ (unknown ⟨[], false, ["up".toList], none⟩ g.query).length ≤ 0 := by
  obtain ⟨g, hg, -, -, -, hfewer, -⟩ := (generate_query_advisory ⟨[], false, ["up".toList], none⟩
    fun _ _ => .text (some "up".toList)).2 "up".toList rfl
  exact ⟨g, hg, hfewer⟩

/-- Without cached metric names there is no warning, though no name is known. -/
theorem no_names_no_warning :
    (generateQuery ⟨[], false, [], none⟩ fun _ _ => .text (some "up".toList)).2 =
        .ok ⟨"up".toList, none⟩ ∧
      unknown ⟨[], false, [], none⟩ "up".toList = ["up".toList] :=
  ⟨rfl, by decide⟩

end AwsOps.Datasource.QueryGen

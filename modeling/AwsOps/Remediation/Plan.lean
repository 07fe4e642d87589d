import AwsOps.Foundation.Js

/-!
# Action plans and what approving one sends on

A plan stores the inputs of a catalog action, the dry run that repeats them, and the paired
rollback plan. Approving it writes a ledger row and a queue message, and each packs the inputs in
its own way: the row keeps them under `inputs`, the message spreads them over its payload. The
inputs of an external action are redacted once more on the way. What a text is redacted to is left
open.
-/

namespace AwsOps.Remediation

open List Js

open Js (Fields)

/-- Where an action runs. -/
inductive ExecutorType where
  | ssm
  | lambda
  | fargate
  deriving DecidableEq

def ExecutorType.text : ExecutorType → String
  | .ssm => "ssm"
  | .lambda => "lambda"
  | .fargate => "fargate"

/-- The part of a catalog row that approving a plan reads. -/
structure CatalogRow where
  name : String
  executorType : ExecutorType
  targetResourceType : String
  deriving DecidableEq

/-- An action on an external service, whose inputs are redacted. -/
def CatalogRow.isExternal (action : CatalogRow) : Bool :=
  "external:".toList.isPrefixOf action.targetResourceType.toList

/-- The inputs of a plan: a JSON object, whose names are distinct, or an array. -/
inductive Inputs where
  | fields (properties : Fields) (nodup : (Js.keys properties).Nodup)
  | items (values : List Js)

/-- The own properties that a spread copies. -/
def Inputs.properties : Inputs → Fields
  | .fields properties _ => properties
  | .items values => values.zipIdx.map fun entry => (entry.2.repr, entry.1)

def Inputs.value : Inputs → Js
  | .fields properties _ => .obj properties
  | .items values => .arr values

theorem nat_repr_injective {m n : Nat} (h : m.repr = n.repr) : m = n := by
  have hdigits : Nat.toDigits 10 m = Nat.toDigits 10 n := by
    rw [← Nat.toList_repr, ← Nat.toList_repr, h]
  rw [← Nat.ofDigitChars_toDigits (b := 10) (n := m) (by decide) (by decide), hdigits,
    Nat.ofDigitChars_toDigits (by decide) (by decide)]

theorem Inputs.nodup (inputs : Inputs) : (Js.keys inputs.properties).Nodup := by
  cases inputs with
  | fields properties nodup => exact nodup
  | items values =>
    have hkeys : Js.keys (Inputs.items values).properties =
        (List.range' 0 values.length).map Nat.repr := by
      show (values.zipIdx.map _).map _ = _
      rw [← zipIdx_map_snd, map_map, map_map]
      rfl
    rw [hkeys]
    exact List.Nodup.map (fun _ _ h => nat_repr_injective h) nodup_range'

theorem Inputs.size_lt (inputs : Inputs) {key : String} {value : Js}
    (h : get inputs.properties key = some value) : sizeOf value < sizeOf inputs.value := by
  have hmem := mem_of_get h
  cases inputs with
  | fields properties nodup =>
    have hfield : sizeOf (key, value) < sizeOf properties := sizeOf_lt_of_mem hmem
    show sizeOf value < sizeOf (obj properties)
    simp only [Prod.mk.sizeOf_spec, Js.obj.sizeOf_spec] at hfield ⊢
    omega
  | items values =>
    obtain ⟨⟨item, index⟩, hitem, heq⟩ := mem_map.mp hmem
    obtain ⟨-, rfl⟩ := Prod.mk.inj heq
    have hin : item ∈ values := (mem_zipIdx' hitem).2 ▸ getElem_mem _
    have hlt : sizeOf item < sizeOf values := sizeOf_lt_of_mem hin
    show sizeOf item < sizeOf (arr values)
    simp only [Js.arr.sizeOf_spec]
    omega

/-! ## Redaction -/

section Redaction

variable (redactString : String → String)

mutual
def redactValue : Js → Js
  | .str text => .str (redactString text)
  | .arr items => .arr (redactItems items)
  | .obj fields => .obj (redactFields fields)
  | value => value

def redactItems : List Js → List Js
  | [] => []
  | item :: rest => redactValue item :: redactItems rest

/-- The redacted properties of an object. They are assigned one by one to an empty object, where
assigning `__proto__` sets no property. -/
def redactFields : Fields → Fields
  | [] => []
  | (name, value) :: rest =>
    if name = "__proto__" then redactFields rest
    else (name, redactValue value) :: redactFields rest
end

theorem redact_items_eq_map (items : List Js) :
    redactItems redactString items = items.map (redactValue redactString) := by
  induction items with
  | nil => rfl
  | cons item rest ih => rw [redactItems, ih, map_cons]

theorem keys_redact_fields (fields : Fields) : Js.keys (redactFields redactString fields) =
      (Js.keys fields).filter fun name => name ≠ "__proto__" := by
  induction fields with
  | nil => rfl
  | cons field rest ih =>
    obtain ⟨name, value⟩ := field
    rw [redactFields]
    by_cases hname : name = "__proto__"
    · rw [if_pos hname, ih]
      simp [Js.keys, hname]
    · rw [if_neg hname]
      show name :: Js.keys (redactFields redactString rest) = _
      rw [ih]
      simp [Js.keys, hname]

theorem get_redact_fields (fields : Fields) (key : String) :
    get (redactFields redactString fields) key =
      if key = "__proto__" then none else (get fields key).map (redactValue redactString) := by
  induction fields with
  | nil =>
    show none = _
    split <;> rfl
  | cons field rest ih =>
    obtain ⟨name, value⟩ := field
    rw [redactFields, get_cons]
    by_cases hname : name = "__proto__"
    · rw [if_pos hname, ih]
      by_cases hkey : key = "__proto__"
      · rw [if_pos hkey, if_pos hkey]
      · rw [if_neg hkey, if_neg hkey, if_neg fun heq => hkey (heq.symm.trans hname)]
    · rw [if_neg hname, get_cons, ih]
      by_cases hsame : name = key
      · rw [if_pos hsame, if_pos hsame, if_neg fun hkey => hname (hsame.trans hkey)]
        rfl
      · rw [if_neg hsame, if_neg hsame]

/-- `redactEgress` on inputs. -/
def Inputs.redact : Inputs → Inputs
  | .fields properties nodup =>
    .fields (redactFields redactString properties)
      (keys_redact_fields redactString properties ▸ nodup.filter _)
  | .items values => .items (redactItems redactString values)

theorem get_proto_items (values : List Js) :
    get (Inputs.items values).properties "__proto__" = none := by
  refine Js.get_eq_none_iff.mpr ?_
  intro hmem
  obtain ⟨⟨name, item⟩, hfield, rfl⟩ := mem_map.mp hmem
  obtain ⟨⟨item, index⟩, -, heq⟩ := mem_map.mp hfield
  obtain ⟨hname, rfl⟩ := Prod.mk.inj heq
  have hunderscore : '_' ∈ Nat.toDigits 10 index := by
    rw [← Nat.toList_repr, show index.repr = "__proto__" from hname]
    decide
  exact Nat.underscore_not_in_toDigits hunderscore

theorem get_redact (inputs : Inputs) (key : String) :
    get (inputs.redact redactString).properties key =
      if key = "__proto__" then none
      else (get inputs.properties key).map (redactValue redactString) := by
  cases inputs with
  | fields properties nodup => exact get_redact_fields redactString properties key
  | items values =>
    have hproperties : ((Inputs.items values).redact redactString).properties =
        (Inputs.items values).properties.map fun field =>
          (field.1, redactValue redactString field.2) := by
      show ((redactItems redactString values).zipIdx).map _ = (values.zipIdx.map _).map _
      rw [redact_items_eq_map, zipIdx_map, map_map, map_map]
      rfl
    rw [hproperties, get_map_values]
    split
    · rename_i hproto
      rw [hproto, get_proto_items]
      rfl
    · rfl

end Redaction

/-! ## Plans and what is sent on -/

/-- A stored plan. Its dry run is the contract echo that planning stores. -/
structure PlanRow where
  planId : String
  actionName : String
  inputs : Inputs
  rollbackPlan : Js

def PlanRow.dryRun (plan : PlanRow) : Fields :=
  [("mode", .str "plan"), ("action", .str plan.actionName), ("inputs", plan.inputs.value),
    ("mutates", .bool false)]

/-- A stored input as the executor is to receive it: redacted once more for an external action. -/
def approvedValue (redactString : String → String) (action : CatalogRow) (value : Js) : Js :=
  if action.isExternal then redactValue redactString value else value

/-- The inputs that leave the web tier. -/
def forwardedInputs (redactString : String → String) (action : CatalogRow) (plan : PlanRow) :
    Inputs :=
  if action.isExternal then plan.inputs.redact redactString else plan.inputs

def ledgerPayload (redactString : String → String) (action : CatalogRow) (plan : PlanRow) :
    Fields :=
  set (spread [("rollback_plan", plan.rollbackPlan)] plan.dryRun) "inputs"
    (forwardedInputs redactString action plan).value

def messagePayload (redactString : String → String) (action : CatalogRow) (plan : PlanRow) :
    Fields :=
  spread [("rollback_plan", plan.rollbackPlan)]
    (forwardedInputs redactString action plan).properties

def queueMessage (redactString : String → String) (action : CatalogRow) (plan : PlanRow)
    (jobId : String) : Fields :=
  [("job_id", .str jobId), ("type", .str "action"), ("action", .str plan.actionName),
    ("executor_type", .str action.executorType.text), ("plan_id", .str plan.planId),
    ("payload", .obj (messagePayload redactString action plan)), ("dry_run", .bool false)]

end AwsOps.Remediation

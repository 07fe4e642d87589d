import AwsOps.Remediation.Executor

/-!
# What runs against what was approved

The payload that the executor's run function receives, and the rollback plan that the rollback
phase receives, for a plan sent through the ledger, the queue, the dispatcher and the state
machine. The Lambda branch receives the inputs spread over the rollback plan, the Fargate branch
the ledger row, which keeps them one level down. `delivered_iff` says exactly which plans arrive
as they were approved.
-/

namespace AwsOps.Remediation

open Option Js

open Js (Fields)

section Delivery

variable (redactString : String → String) (action : CatalogRow) (plan : PlanRow) (jobId : String)
  (approve : Fields → Fields)

/-- The approval callback repeats what later states read of the execution's input. -/
def KeepsInput : Prop :=
  ∀ input, ∀ name ∈ ["job_id", "plan_id", "action", "payload", "runtime"],
    get (approve input) name = get input name

/-- The state document behind the approval, which the output of the callback replaces. -/
def approvedDocument : Option Fields :=
  (executionInput (queueMessage redactString action plan jobId)).map approve

/-- Whatever an invocation finds, the payload of the run function maps every key of the approved
inputs to its value. -/
def RunFaithful : Prop :=
  ∀ document, approvedDocument redactString action plan jobId approve = some document →
    ∀ event, runEvent (some (.obj (ledgerPayload redactString action plan))) document =
      some event →
    ∀ surroundings payload, lambdaHandler surroundings event = .run payload →
    ∀ name value, get plan.inputs.properties name = some value →
      path [name] payload = some (approvedValue redactString action value)

/-- The rollback phase receives the stored rollback plan. -/
def RollbackFaithful : Prop :=
  ∀ document, approvedDocument redactString action plan jobId approve = some document →
    ∃ event, rollbackEvent document = some event ∧
      get event "rollback_plan" = some plan.rollbackPlan

/-- The fields that the ledger payload has beside the inputs. -/
def ledgerOwn : Fields :=
  [("rollback_plan", plan.rollbackPlan), ("mode", .str "plan"), ("action", .str plan.actionName),
    ("mutates", .bool false)]

/-- The inputs arrive: in Lambda unless redaction drops one, on Fargate only where the ledger
payload has the same field with the same value. -/
def RunsAsApproved : Prop :=
  (executable.lookup plan.actionName).isSome = true →
    match action.executorType with
    | .ssm => True
    | .lambda =>
      action.isExternal = true → get plan.inputs.properties "__proto__" = none
    | .fargate =>
      ∀ name value, get plan.inputs.properties name = some value →
        get (ledgerOwn plan) name = some (approvedValue redactString action value)

/-- No input takes the place of the rollback plan. -/
def RollsBackAsPlanned : Prop :=
  ∀ value, get plan.inputs.properties "rollback_plan" = some value →
    approvedValue redactString action value = plan.rollbackPlan

end Delivery

variable {redactString : String → String} {action : CatalogRow} {plan : PlanRow} {jobId : String}
  {approve : Fields → Fields}

theorem handler_run_iff {surroundings : Surroundings} {event : Fields} {job payload : Js}
    {name : String} {received : Js} (hjob : get event "job_id" = some job)
    (haction : get event "action" = some (.str name))
    (hphase : get event "phase" = some (.str "execute"))
    (hdry : get event "dry_run" = none)
    (hpayload : get event "payload" = some received) :
    lambdaHandler surroundings event = .run payload ↔
      surroundings.gatePasses = true ∧ surroundings.roleAssumed = true ∧
        (executable.lookup name).isSome = true ∧ surroundings.claimed ≠ 0 ∧
        payload = received := by
  simp only [lambdaHandler, hjob, haction, hphase, hdry, hpayload, getD_some, getD_none]
  cases hknown : executable.lookup name with
  | none =>
    rw [isSome_none]
    split <;> simp
  | some hasRollback =>
    rw [isSome_some]
    cases surroundings.gatePasses <;> cases surroundings.roleAssumed <;>
      by_cases hclaimed : surroundings.claimed = 0 <;> simp [truthy, hclaimed, eq_comm]

variable (redactString action plan jobId) in
theorem approved_document_fields (hkeeps : KeepsInput approve) :
    ∃ document, approvedDocument redactString action plan jobId approve = some document ∧
      get document "job_id" = some (.str jobId) ∧
      get document "plan_id" = some (.str plan.planId) ∧
      get document "action" = some (.str plan.actionName) ∧
      get document "payload" = some (.obj (messagePayload redactString action plan)) ∧
      get document "runtime" = some (.str action.executorType.text) := by
  refine ⟨_, rfl, ?_, ?_, ?_, ?_, ?_⟩ <;> (rw [hkeeps _ _ (by decide)]; rfl)

/-- The payload that the run function of a branch receives. -/
def receivedPayload (redactString : String → String) (action : CatalogRow) (plan : PlanRow) :
    Option Fields :=
  match action.executorType with
  | .ssm => none
  | .lambda => some (messagePayload redactString action plan)
  | .fargate => some (ledgerPayload redactString action plan)

theorem run_event_eq {document : Fields}
    (hjob : get document "job_id" = some (.str jobId))
    (hplan : get document "plan_id" = some (.str plan.planId))
    (haction : get document "action" = some (.str plan.actionName))
    (hpayload : get document "payload" = some (.obj (messagePayload redactString action plan)))
    (hruntime : get document "runtime" = some (.str action.executorType.text)) :
    (receivedPayload redactString action plan = none ∧
      runEvent (some (.obj (ledgerPayload redactString action plan))) document = none) ∨
    ∃ received event, receivedPayload redactString action plan = some received ∧
      runEvent (some (.obj (ledgerPayload redactString action plan))) document = some event ∧
      get event "job_id" = some (.str jobId) ∧
      get event "action" = some (.str plan.actionName) ∧
      get event "phase" = some (.str "execute") ∧ get event "dry_run" = none ∧
      get event "payload" = some (.obj received) := by
  cases htype : action.executorType with
  | ssm =>
    refine .inl ⟨by simp [receivedPayload, htype], ?_⟩
    simp [runEvent, route, hruntime, htype, ExecutorType.text]
  | lambda =>
    refine .inr ⟨messagePayload redactString action plan,
      [("job_id", .str jobId), ("plan_id", .str plan.planId), ("action", .str plan.actionName),
        ("payload", .obj (messagePayload redactString action plan)), ("phase", .str "execute")],
      by simp [receivedPayload, htype], ?_, rfl, rfl, rfl, rfl, rfl⟩
    simp only [runEvent, route, hruntime, htype, ExecutorType.text]
    simp [runCodeLambda, path, hjob, hplan, haction, hpayload]
  | fargate =>
    refine .inr ⟨ledgerPayload redactString action plan,
      [("job_id", .str jobId), ("action", .str plan.actionName), ("phase", .str "execute"),
        ("payload", .obj (ledgerPayload redactString action plan))],
      by simp [receivedPayload, htype], ?_, rfl, rfl, rfl, rfl, rfl⟩
    simp only [runEvent, route, hruntime, htype, ExecutorType.text]
    simp [runCodeFargate, path, hjob, haction]

theorem run_faithful_iff (hkeeps : KeepsInput approve) :
    RunFaithful redactString action plan jobId approve ↔
      ((executable.lookup plan.actionName).isSome = true →
        ∀ received, receivedPayload redactString action plan = some received →
        ∀ name value, get plan.inputs.properties name = some value →
          get received name = some (approvedValue redactString action value)) := by
  obtain ⟨document, hdocument, hjob, hplan, haction, hpayload, hruntime⟩ :=
    approved_document_fields redactString action plan jobId hkeeps
  rcases run_event_eq hjob hplan haction hpayload hruntime with
    ⟨hreceived, hevent⟩ | ⟨received, event, hreceived, hevent, hejob, heaction, hphase, hdry, hp⟩
  · constructor
    · intro _ _ received h
      rw [hreceived] at h
      cases h
    · intro _ document' hdocument' event h
      rw [hdocument, Option.some.injEq] at hdocument'
      rw [← hdocument', hevent] at h
      cases h
  · constructor
    · intro hfaithful hknown received' h name value hvalue
      rw [hreceived, Option.some.injEq] at h
      let surroundings : Surroundings := ⟨true, true, 1⟩
      have hrun : lambdaHandler surroundings event = .run _ :=
        (handler_run_iff hejob heaction hphase hdry hp).mpr
          ⟨rfl, rfl, hknown, Nat.one_ne_zero, rfl⟩
      have hpath := hfaithful document hdocument event hevent _ _ hrun name value hvalue
      rw [← h]
      simpa [path] using hpath
    · intro hall document' hdocument' event' hevent' surroundings payload hrun name value hvalue
      rw [hdocument, Option.some.injEq] at hdocument'
      rw [← hdocument', hevent, Option.some.injEq] at hevent'
      rw [← hevent', handler_run_iff hejob heaction hphase hdry hp] at hrun
      obtain ⟨-, -, hknown, -, rfl⟩ := hrun
      simpa [path] using hall hknown received hreceived name value hvalue

theorem get_message_payload (name : String) : get (messagePayload redactString action plan) name =
      (get (forwardedInputs redactString action plan).properties name).or
        (if name = "rollback_plan" then some plan.rollbackPlan else none) := by
  rw [messagePayload, get_spread (Inputs.nodup _), get_cons]
  simp [eq_comm]

theorem get_forwarded (name : String) :
    get (forwardedInputs redactString action plan).properties name =
      if action.isExternal = true ∧ name = "__proto__" then none
      else (get plan.inputs.properties name).map (approvedValue redactString action) := by
  cases hexternal : action.isExternal with
  | false =>
    have hvalue : approvedValue redactString action = id := by
      funext value
      simp [approvedValue, hexternal]
    simp [forwardedInputs, hexternal, hvalue]
  | true =>
    have hvalue : approvedValue redactString action = redactValue redactString := by
      funext value
      simp [approvedValue, hexternal]
    simp [forwardedInputs, hexternal, hvalue, get_redact]

theorem get_ledger_payload (name : String) : get (ledgerPayload redactString action plan) name =
      if name = "inputs" then some (forwardedInputs redactString action plan).value
      else get (ledgerOwn plan) name := by
  have hnodup : (keys plan.dryRun).Nodup := by
    show (["mode", "action", "inputs", "mutates"] : List String).Nodup
    decide
  rw [ledgerPayload, get_set, get_spread hnodup]
  by_cases hinputs : name = "inputs"
  · rw [if_pos hinputs.symm, if_pos hinputs]
  · have hinputs' : ¬"inputs" = name := fun h => hinputs h.symm
    rw [if_neg hinputs', if_neg hinputs]
    simp only [PlanRow.dryRun, ledgerOwn, get_cons, get_nil, if_neg hinputs']
    by_cases hrollback : "rollback_plan" = name
    · subst hrollback
      rfl
    · rw [if_neg hrollback, if_neg hrollback, or_none]

theorem message_faithful_iff : (∀ name value, get plan.inputs.properties name = some value →
        get (messagePayload redactString action plan) name =
          some (approvedValue redactString action value)) ↔
      (action.isExternal = true → get plan.inputs.properties "__proto__" = none) := by
  constructor
  · intro hall hexternal
    cases hproto : get plan.inputs.properties "__proto__" with
    | none => rfl
    | some value =>
      have hget := hall "__proto__" value hproto
      rw [get_message_payload, get_forwarded, if_pos ⟨hexternal, rfl⟩] at hget
      cases hget
  · intro hproto name value hvalue
    have hkept : ¬(action.isExternal = true ∧ name = "__proto__") := by
      intro ⟨hexternal, hname⟩
      rw [← hname, hvalue] at hproto
      cases hproto hexternal
    rw [get_message_payload, get_forwarded, if_neg hkept, hvalue]
    rfl

/-- The Fargate branch receives the fields of the ledger payload: an input counts as received only
where that has it too. -/
theorem ledger_faithful_iff : (∀ name value, get plan.inputs.properties name = some value →
        get (ledgerPayload redactString action plan) name =
          some (approvedValue redactString action value)) ↔
      ∀ name value, get plan.inputs.properties name = some value →
        get (ledgerOwn plan) name = some (approvedValue redactString action value) := by
  refine forall₃_congr fun name value hvalue => ?_
  rw [get_ledger_payload]
  by_cases hinputs : name = "inputs"
  · -- inputs that contain themselves would be larger than themselves
    rw [if_pos hinputs]
    have hown : get (ledgerOwn plan) name = none := by
      rw [hinputs]
      rfl
    rw [hown]
    refine iff_of_false ?_ nofun
    intro hself
    have hforwarded : get (forwardedInputs redactString action plan).properties name =
        some (forwardedInputs redactString action plan).value := by
      have hkept : ¬(action.isExternal = true ∧ name = "__proto__") := by
        rw [hinputs]
        exact fun h => absurd h.2 (by decide)
      rw [get_forwarded, if_neg hkept, hvalue, hself]
      rfl
    exact Nat.lt_irrefl _ (Inputs.size_lt _ hforwarded)
  · rw [if_neg hinputs]

theorem rollback_faithful_iff (hkeeps : KeepsInput approve) :
    RollbackFaithful redactString action plan jobId approve ↔
      RollsBackAsPlanned redactString action plan := by
  obtain ⟨document, hdocument, hjob, hplan, haction, hpayload, -⟩ :=
    approved_document_fields redactString action plan jobId hkeeps
  have hkept : ¬(action.isExternal = true ∧ "rollback_plan" = "__proto__") :=
    fun h => absurd h.2 (by decide)
  have hget : get (messagePayload redactString action plan) "rollback_plan" =
      ((get plan.inputs.properties "rollback_plan").map
        (approvedValue redactString action)).or (some plan.rollbackPlan) := by
    rw [get_message_payload, get_forwarded, if_neg hkept, if_pos rfl]
  have hevent : ∀ found, get (messagePayload redactString action plan) "rollback_plan" =
      some found → ∃ event, rollbackEvent document = some event ∧
        get event "rollback_plan" = some found := by
    intro found hfound
    refine ⟨[("job_id", .str jobId), ("plan_id", .str plan.planId),
      ("action", .str plan.actionName), ("phase", .str "rollback"), ("rollback_plan", found)],
      ?_, rfl⟩
    simp [rollbackEvent, path, hjob, hplan, haction, hpayload, hfound]
  simp only [RollbackFaithful, RollsBackAsPlanned, hdocument, Option.some.injEq, forall_eq']
  cases hvalue : get plan.inputs.properties "rollback_plan" with
  | none =>
    rw [hvalue] at hget
    exact iff_of_true (hevent _ hget) nofun
  | some value =>
    rw [hvalue] at hget
    obtain ⟨event, heq, hplanned⟩ := hevent _ hget
    simp [heq, hplanned]

/-- The run function and the rollback phase receive what was approved exactly for these plans. -/
theorem delivered_iff (hkeeps : KeepsInput approve) :
    RunFaithful redactString action plan jobId approve ∧
        RollbackFaithful redactString action plan jobId approve ↔
      RunsAsApproved redactString action plan ∧ RollsBackAsPlanned redactString action plan := by
  refine and_congr ?_ (rollback_faithful_iff hkeeps)
  rw [run_faithful_iff hkeeps]
  refine imp_congr_right fun _ => ?_
  cases htype : action.executorType with
  | ssm => simp [receivedPayload, htype]
  | lambda => simpa [receivedPayload, htype] using message_faithful_iff
  | fargate => simpa [receivedPayload, htype] using ledger_faithful_iff

/-- A plan to set a feature flag. -/
def flagPlan (inputs : Inputs) : PlanRow :=
  ⟨"p1", "app-feature-flag-set", inputs, .obj [("captured_at", .str "2026-06-10T00:00:00.000Z")]⟩

/-- On Lambda the inputs of a flag plan arrive, and its rollback plan as well. -/
theorem delivered_flag_plan : RunFaithful id ⟨"app-feature-flag-set", .lambda, "app:flag"⟩
        (flagPlan (.fields [("flagKey", .str "beta"), ("value", .bool true)] (by decide))) "j1"
        id ∧
      RollbackFaithful id ⟨"app-feature-flag-set", .lambda, "app:flag"⟩
        (flagPlan (.fields [("flagKey", .str "beta"), ("value", .bool true)] (by decide))) "j1"
        id := by
  refine (delivered_iff (fun _ _ _ => rfl)).mpr ⟨fun _ => nofun, fun value hvalue => ?_⟩
  cases hvalue

/-- On Fargate the run function receives no flag key, and an input called `rollback_plan` is
rolled back with. -/
theorem flag_plan_not_delivered : ¬ RunFaithful id ⟨"app-feature-flag-set", .fargate, "app:flag"⟩
        (flagPlan (.fields [("flagKey", .str "beta")] (by decide))) "j1" id ∧
      ¬ RollbackFaithful id ⟨"app-feature-flag-set", .lambda, "app:flag"⟩
        (flagPlan (.fields [("rollback_plan", .null)] (by decide))) "j1" id := by
  constructor
  · intro hfaithful
    have hpath := hfaithful _ rfl _ rfl ⟨true, true, 1⟩ _ rfl "flagKey" (.str "beta") rfl
    cases hpath
  · intro hfaithful
    obtain ⟨event, hevent, hplanned⟩ := hfaithful _ rfl
    cases hevent
    cases hplanned

end AwsOps.Remediation

import AwsOps.Foundation.Retries
import AwsOps.Incident.Triage

/-!
# The hand-off from the web tier to the state machine

The web tier puts the id of a new incident into the payload of its message. The dispatcher takes
`incident_id` from the top level of the message, where it is not, and hands the payload on as the
alert. So the Triage stage sees an alert without severity, source, name, services and resources, and
no incident of its own: it skips it, links it, or inserts another incident.
-/

namespace AwsOps.Incident

open List Option Tables Worker Program

open Text (Unicode)
open Worker (StageInput TriageOutput Decision)

/-! ## The dispatcher and the state machine -/

/-- The executions of the incident state machine, by name. -/
abbrev Executions : Type :=
  List (String × StageInput)

/-- `start_execution`: a name starts one execution, and starting it again is
`ExecutionAlreadyExists`, which counts as success. -/
def startExecution (executions : Executions) (name : String) (input : StageInput) : Executions :=
  if executions.any fun execution => execution.1 == name then executions
  else executions ++ [(name, input)]

/-- The dispatch of an `incident_stage` message. It is dropped while there is no state machine. -/
def dispatchIncidentStage (smArn : String) (executions : Executions)
    (body : List (String × Json)) : Executions :=
  match asString (get body "job_id") with
  | none => executions
  | some jobId =>
    if smArn = "" then executions
    else
      startExecution executions jobId
        { jobId
          incidentId := asString (get body "incident_id")
          payload := (asFields (getOr body "payload" (.obj []))).getD []
          attempt := 0 }

/-- The states after `TriageDecision`. -/
inductive NextState
  | done | lead
  deriving DecidableEq

def triageDecision : Decision → NextState
  | .skipped | .linked => .done
  | .new => .lead

/-- The Triage stage leads on to the investigation of an incident. -/
def Investigates (incidentId : String) (output : Option TriageOutput) : Prop :=
  ∃ out ∈ output, triageDecision out.decision = .lead ∧ out.incidentId = some incidentId

/-! ## Incidents stay -/

/-- The incidents of one state are among those of another. -/
def KeepsIncidents (t t' : Tables) : Prop :=
  ∀ id, t.hasIncident id → t'.hasIncident id

theorem update_keeps_incidents (t : Tables) (guard : IncidentRow → Bool)
    (change : IncidentChange) : KeepsIncidents t (t.updateIncidents guard change) := by
  intro id h
  obtain ⟨row, hrow, hid⟩ := any_eq_true.mp h
  refine any_eq_true.mpr ⟨_, mem_map_of_mem hrow, ?_⟩
  split <;> exact hid

variable {attempt : Attempt} {config : Web.Config}

theorem exec_keeps_incidents {c : Statement} {t t' : Tables} {r : c.Answer}
    (h : exec attempt c t = some (r, t')) : KeepsIncidents t t' := by
  cases c with
  | insertIncident row =>
    rcases insert_incident_cases h with ⟨-, rfl, -⟩ | ⟨-, -, hincidents, -⟩
    · exact fun _ h => h
    · intro id hid
      rw [hasIncident, hincidents, any_append]
      exact Bool.or_eq_true_iff.mpr (.inl hid)
  | insertStage row =>
    simp only [exec, insertStage] at h
    split at h
    · cases h
      exact fun _ h => h
    · split at h
      · cases h
        exact fun _ h => h
      · cases h
  | insertLink row | insertFinding row =>
    simp only [exec] at h
    split at h
    · cases h
      exact fun _ h => h
    · cases h
  | investigate id | saveRca id rca =>
    cases h
    exact update_keeps_incidents _ _ _
  | saveTrigger id snapshot =>
    cases h
    split
    · exact fun _ h => h
    · exact update_keeps_incidents _ _ _
  | touchActive | findStage | checkpoint | transitionStage | findFinding | loadEntity | loadRca
    | consult =>
      cases h
      exact fun _ h => h

/-- Statements of any handlers, one after the other; one that raises changes nothing. -/
def runStatements (t : Tables) (statements : List (Attempt × Statement)) : Tables :=
  statements.foldl (fun t (attempt, c) => ((exec attempt c t).map Prod.snd).getD t) t

theorem run_statements_keeps_incidents (t : Tables) (statements : List (Attempt × Statement)) :
    KeepsIncidents t (runStatements t statements) := by
  induction statements generalizing t with
  | nil => exact fun _ h => h
  | cons statement rest ih =>
    obtain ⟨attempt, c⟩ := statement
    intro id hid
    refine ih _ id ?_
    cases hexec : exec attempt c t with
    | none =>
      simp only [hexec, map_none, getD_none]
      exact hid
    | some result =>
      simp only [hexec, map_some, getD_some]
      exact exec_keeps_incidents hexec id hid

/-! ## The hand-off -/

theorem new_incident_inserted {uuid id : String} {event : AlertEvent} {t t₁ : Tables}
    (h : (Web.triageAndCreateOrLink config uuid event).eval (exec attempt) t =
      (some (.new id), t₁)) : t₁.hasIncident id := by
  unfold Web.triageAndCreateOrLink at h
  split at h
  · cases h
  · split at h
    · cases h
    · simp only [sql, eval_command_bind, exec] at h
      cases hinsert : t.insertIncident (Web.incidentRow config uuid event) with
      | none =>
        rw [hinsert] at h
        cases h
      | some result =>
        obtain ⟨won, t'⟩ := result
        rw [hinsert] at h
        rcases insert_incident_cases hinsert with ⟨rfl, -, -⟩ | ⟨rfl, -, hincidents, -⟩
        · simp only [eval_bind] at h
          split at h <;> cases h
        · simp only [eval_command_bind, exec] at h
          cases h
          have hinserted : t'.hasIncident uuid := by
            rw [hasIncident, hincidents]
            simp [Web.incidentRow]
          split
          · exact hinserted
          · exact update_keeps_incidents _ _ _ uuid hinserted

def initialStageMessage (jobId incidentId : String) : List (String × Json) :=
  [("job_id", .str jobId), ("type", .str "incident_stage"),
    ("payload", .obj [("incident_id", .str incidentId), ("stage", .str "triage")]),
    ("dry_run", .bool false)]

/-- The input that the dispatcher makes of that message: there is no incident in it, and its alert
has none of the fields that triage reads. -/
def initialStageInput (jobId incidentId : String) : StageInput :=
  ⟨jobId, none, [("incident_id", .str incidentId), ("stage", .str "triage")], 0⟩

theorem enqueued_message {jobId incidentId : String} {job : Web.StageJob}
    {body : List (String × Json)}
    (h : Web.enqueueInitialStage config jobId incidentId = some (job, some body)) :
    body = initialStageMessage jobId incidentId := by
  unfold Web.enqueueInitialStage at h
  split at h
  · cases h
  · split at h <;> cases h
    rfl

theorem dispatched_input {executions : Executions} {jobId incidentId smArn : String}
    {input : StageInput} (hfresh : ∀ execution ∈ executions, execution.1 ≠ jobId)
    (h : (jobId, input) ∈
      dispatchIncidentStage smArn executions (initialStageMessage jobId incidentId)) :
    input = initialStageInput jobId incidentId := by
  have hdispatch : dispatchIncidentStage smArn executions (initialStageMessage jobId incidentId) =
      if smArn = "" then executions
      else startExecution executions jobId (initialStageInput jobId incidentId) := rfl
  rw [hdispatch] at h
  split at h
  · exact absurd rfl (hfresh _ h)
  · unfold startExecution at h
    split at h
    · exact absurd rfl (hfresh _ h)
    · rcases mem_append.mp h with h | h
      · exact absurd rfl (hfresh _ h)
      · exact (Prod.mk.inj (mem_singleton.mp h)).2

theorem start_investigation_returns (castUuid : String → Option String) (caps : Worker.Caps)
    (input : StageInput) (incidentId : String) :
    (startInvestigation castUuid caps input incidentId).Returns fun out =>
      out.incidentId = some incidentId :=
  .after fun _ => .after fun _ => .after fun _ => .after fun _ => rfl

theorem triage_misses_incident {U : Unicode} {castUuid param : String → Option String}
    {jobId incidentId uuid : String} {t : Tables} (hincident : t.hasIncident incidentId) :
    ¬Investigates incidentId ((triage U castUuid param uuid
      (initialStageInput jobId incidentId)).eval (exec attempt) t).1.join := by
  have hseverity : severityRank U
      (get (initialStageInput jobId incidentId).payload "severity") = some 1 := rfl
  rintro ⟨out, hout, hlead, hid⟩
  unfold triage at hout
  simp only [hseverity] at hout
  split_ifs at hout with hskip hisolates
  · -- the severity of the empty alert is below the minimum
    cases hout
    cases hlead
  · cases hout
  · cases hkey : correlationKey (initialStageInput jobId incidentId).payload with
    | none =>
      rw [hkey] at hout
      cases hout
    | some key =>
      simp only [hkey, sql, eval_command_bind, exec] at hout
      cases hinsert : t.insertIncident (incidentRow
        ((initialStageInput jobId incidentId).idOr uuid) key
        (initialStageInput jobId incidentId).payload) with
      | none =>
        rw [hinsert] at hout
        cases hout
      | some result =>
        obtain ⟨won, t'⟩ := result
        rw [hinsert] at hout
        rcases insert_incident_cases hinsert with ⟨rfl, -, -⟩ | ⟨rfl, hother, -⟩
        · -- the empty alert is linked to another one
          simp only [eval_bind] at hout
          split at hout
          · cases hout
            cases hlead
          · cases hout
        · -- the empty alert becomes an incident of its own
          simp only [eval_bind] at hout
          split at hout
          · rename_i out' t'' heval
            cases hout
            have hreturns := start_investigation_returns castUuid (readCaps U param)
              (initialStageInput jobId incidentId) (incidentRow
                ((initialStageInput jobId incidentId).idOr uuid) key
                (initialStageInput jobId incidentId).payload).id
            have hown := hreturns.eval (congrArg Prod.fst heval)
            rw [hid, Option.some.injEq] at hown
            rw [← hown, hincident] at hother
            cases hother
          · cases hout

/-- For every alert that the web tier calls new, and every state in which the Triage stage runs on
what was dispatched for it: the stage does not lead on to the investigation of that incident. -/
theorem handoff_misses_incident (U : Unicode) (castUuid param : String → Option String)
    {config : Web.Config} {event : AlertEvent} {uuid id jobId smArn : String} {t t₁ : Tables}
    {attempt : Attempt} {job : Web.StageJob} {body : List (String × Json)}
    {executions : Executions} {input : StageInput}
    (hnew : (Web.triageAndCreateOrLink config uuid event).eval (exec attempt) t =
      (some (.new id), t₁))
    (hmessage : Web.enqueueInitialStage config jobId id = some (job, some body))
    (hfresh : ∀ execution ∈ executions, execution.1 ≠ jobId)
    (hinput : (jobId, input) ∈ dispatchIncidentStage smArn executions body)
    (later : List (Attempt × Statement)) (stageUuid : String) (stageAttempt : Attempt) :
    ¬Investigates id ((triage U castUuid param stageUuid input).eval
      (exec stageAttempt) (runStatements t₁ later)).1.join := by
  have hincident := new_incident_inserted hnew
  rw [enqueued_message hmessage] at hinput
  rw [dispatched_input hfresh hinput]
  exact triage_misses_incident (run_statements_keeps_incidents t₁ later id hincident)

def noRows : Tables :=
  ⟨[], [], [], [], List.Pairwise.nil⟩

/-- The environment of an enabled lifecycle with the default minimum severity. -/
def enabledConfig : Web.Config :=
  ⟨some "db", some "true", some "queue", none, none⟩

/-- An attempt with a random id. -/
def attemptWith (uuid : String) : Attempt :=
  ⟨uuid, .error "Unavailable", false⟩

/-- The state after the web tier has triaged the alarm. -/
def triagedAlarm : Tables :=
  ((Web.triageAndCreateOrLink enabledConfig "i-1" alarmEvent).eval
    (exec (attemptWith "i-1")) noRows).2

/-- The alarm is new in the web tier, and its incident is not investigated. -/
theorem handoff_misses_incident_alarm :
    ¬Investigates "i-1" ((triage .ascii some (fun _ => none) "i-2"
      (initialStageInput "j-1" "i-1")).eval (exec (attemptWith "i-2"))
        (runStatements triagedAlarm [])).1.join := by
  have hnew : (Web.triageAndCreateOrLink enabledConfig "i-1" alarmEvent).eval
      (exec (attemptWith "i-1")) noRows = (some (.new "i-1"), triagedAlarm) :=
    Prod.ext (by decide +kernel) rfl
  have hmessage : Web.enqueueInitialStage enabledConfig "j-1" "i-1" =
      some (_, some (initialStageMessage "j-1" "i-1")) := rfl
  have hinput : ("j-1", initialStageInput "j-1" "i-1") ∈
      dispatchIncidentStage "arn" [] (initialStageMessage "j-1" "i-1") :=
    mem_singleton.mpr rfl
  have hfresh : ∀ execution ∈ ([] : Executions), execution.1 ≠ "j-1" := nofun
  exact handoff_misses_incident .ascii some (fun _ => none) hnew hmessage hfresh hinput [] "i-2"
    (attemptWith "i-2")

/-- The web tier calls the alarm new, and the Triage stage skips what was dispatched for it. -/
theorem handoff_skips_alarm : ((Web.triageAndCreateOrLink enabledConfig "i-1" alarmEvent).eval
        (exec (attemptWith "i-1")) noRows).1 = some (.new "i-1") ∧
      ("j-1", initialStageInput "j-1" "i-1") ∈ dispatchIncidentStage "arn" []
        (initialStageMessage "j-1" "i-1") ∧
      ((triage .ascii some (fun _ => none) "i-2" (initialStageInput "j-1" "i-1")).eval
        (exec (attemptWith "i-2")) triagedAlarm).1 =
        some (some ⟨"j-1", none, .skipped, false, none⟩) :=
  ⟨by decide +kernel, mem_singleton.mpr rfl, by decide +kernel⟩

end AwsOps.Incident

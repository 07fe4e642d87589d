import AwsOps.Foundation.Threads
import AwsOps.Incident.CorrelationKey

/-!
# The incident tables

The rows of an incident and the statements of its handlers. Every statement commits on its own.
`Tables` carries what the constraints of `incidents` promise: an id names one row, and so does a
correlation key. Times are left out; no handler here reads one.
-/

namespace AwsOps.Incident

open List

/-- The values of the column `incidents.status`. -/
inductive IncidentStatus
  | triaged | investigating | rootCause | mitigationPlanned | prevention | resolved | stalled
  | skipped
  deriving DecidableEq

/-- `status IN ('triaged','investigating')`. -/
def IncidentStatus.active : IncidentStatus → Bool
  | triaged | investigating => true
  | _ => false

/-- A row of `incidents`. Columns that come from an alert hold what the alert holds. -/
structure IncidentRow where
  id : String
  correlationKey : List Char
  fingerprint : Json
  status : IncidentStatus
  severity : Json
  triggerSource : Json
  services : List Json
  resources : List Json
  agentSpaceVersion : Option String
  rca : Option Json
  triggerEvent : Option Json

/-- The values of the column `incident_stages.status`. -/
inductive StageStatus
  | running | succeeded | failed | stalled
  deriving DecidableEq

/-- `status NOT IN ('succeeded','failed','stalled')`. -/
def StageStatus.open : StageStatus → Bool
  | running => true
  | _ => false

/-- A row of `incident_stages`. Its id is its position. -/
structure StageRow where
  incidentId : String
  stage : String
  idempotencyKey : List Char
  jobId : Option String
  status : StageStatus
  timeoutSeconds : Option Int
  detail : Json

/-- A row of `incident_findings`. -/
structure FindingRow where
  incidentId : String
  subAgent : String
  agentVersion : Option Int
  findings : Json

/-- A row of `incident_links`. -/
structure LinkRow where
  incidentId : String
  correlationKey : List Char
  reason : String

structure Tables where
  incidents : List IncidentRow
  stages : List StageRow
  findings : List FindingRow
  links : List LinkRow
  distinct : incidents.Pairwise fun a b => a.id ≠ b.id ∧ a.correlationKey ≠ b.correlationKey

/-- There is an incident with the id: what the foreign keys ask for. -/
def Tables.hasIncident (t : Tables) (id : String) : Bool :=
  t.incidents.any fun row => row.id == id

def Tables.incident (t : Tables) (id : String) : Option IncidentRow :=
  t.incidents.find? fun row => row.id == id

/-- The columns that an update of an incident sets. -/
structure IncidentChange where
  status : Option IncidentStatus := none
  rca : Option Json := none
  triggerEvent : Option Json := none

def IncidentRow.set (row : IncidentRow) (change : IncidentChange) : IncidentRow :=
  { row with
    status := change.status.getD row.status
    rca := change.rca <|> row.rca
    triggerEvent := change.triggerEvent <|> row.triggerEvent }

/-- `UPDATE incidents`. -/
def Tables.updateIncidents (t : Tables) (guard : IncidentRow → Bool) (change : IncidentChange) :
    Tables :=
  { t with
    incidents := t.incidents.map fun row => if guard row then row.set change else row
    distinct := by
      refine t.distinct.map _ fun a b hab => ?_
      split <;> split <;> exact hab }

/-- A column without a value. -/
def isNull : Json → Bool
  | .null => true
  | _ => false

/-- `INSERT INTO incidents ... ON CONFLICT (correlation_key) DO NOTHING`. It raises when the id is
taken or a column that may not be null is. -/
def Tables.insertIncident (t : Tables) (row : IncidentRow) : Option (Option String × Tables) :=
  if hkey : t.incidents.any fun a => a.correlationKey == row.correlationKey then some (none, t)
  else if hid : t.hasIncident row.id then none
  else if isNull row.severity || isNull row.triggerSource then none
  else
    some (some row.id,
      { t with
        incidents := t.incidents ++ [row]
        distinct := by
          simp only [Tables.hasIncident, any_eq_true, not_exists, not_and,
            beq_iff_eq] at hkey hid
          refine pairwise_append.mpr ⟨t.distinct, pairwise_singleton .., ?_⟩
          intro a ha b hb
          rw [mem_singleton.mp hb]
          exact ⟨hid a ha, hkey a ha⟩ })

theorem insert_incident_cases {t t' : Tables} {row : IncidentRow} {won : Option String}
    (h : t.insertIncident row = some (won, t')) :
    (won = none ∧ t' = t ∧ ∃ a ∈ t.incidents, a.correlationKey = row.correlationKey) ∨
      (won = some row.id ∧ t.hasIncident row.id = false ∧
        t'.incidents = t.incidents ++ [row] ∧ t'.stages = t.stages ∧ t'.findings = t.findings ∧
        t'.links = t.links) := by
  unfold Tables.insertIncident at h
  split at h
  · rename_i hkey
    cases h
    obtain ⟨a, ha, hkey⟩ := any_eq_true.mp hkey
    exact .inl ⟨rfl, rfl, a, ha, beq_iff_eq.mp hkey⟩
  · split at h
    · cases h
    · rename_i hid
      split at h
      · cases h
      · cases h
        exact .inr ⟨rfl, Bool.eq_false_iff.mpr hid, rfl, rfl, rfl, rfl⟩

/-- `INSERT INTO incident_stages ... ON CONFLICT DO NOTHING RETURNING id`. It raises when there is
no such incident. -/
def Tables.insertStage (t : Tables) (row : StageRow) : Option (Option Nat × Tables) :=
  if t.stages.any fun a => a.incidentId == row.incidentId && a.idempotencyKey == row.idempotencyKey
  then some (none, t)
  else if t.hasIncident row.incidentId then
    some (some t.stages.length, { t with stages := t.stages ++ [row] })
  else none

/-- `UPDATE incident_stages SET status = :s WHERE id = :sid`, for a stage that is open. -/
def Tables.closeStage (t : Tables) (id : Nat) (status : StageStatus) : Tables :=
  { t with stages := t.stages.mapIdx fun i row =>
      if i = id ∧ row.status.open then { row with status } else row }

/-- `findings->>'idem'`. -/
def FindingRow.idem (row : FindingRow) : Option String :=
  match row.findings with
  | .obj fields => Worker.asString (Worker.get fields "idem")
  | _ => none

/-! ## The statements -/

/-- What `agent_bridge.invoke` is asked. -/
structure AgentRequest where
  gateway : String
  message : String
  sessionId : String
  mode : Option String := none
  incidentId : Option String := none
  failingEntity : Option Json := none
  systemPrompt : Option String := none
  agentName : Option String := none
  agentVersion : Option Int := none

/-- A statement of the handlers on the tables. -/
inductive Statement
  /-- Insert an incident, unless its key is taken. -/
  | insertIncident (row : IncidentRow)
  /-- `UPDATE incidents SET last_event_at = now()` for the active incident with a key. -/
  | touchActive (key : List Char)
  | insertLink (row : LinkRow)
  | insertStage (row : StageRow)
  /-- The stage of an incident with an idempotency key. -/
  | findStage (incidentId : String) (idempotencyKey : List Char)
  /-- `UPDATE incident_stages SET last_checkpoint_at = now()` for a running stage. -/
  | checkpoint (stage : Nat)
  | transitionStage (stage : Nat) (status : StageStatus)
  /-- `UPDATE incidents SET status = 'investigating'` for an active incident. -/
  | investigate (incidentId : String)
  | saveTrigger (incidentId : String) (snapshot : Json)
  /-- Is there a finding with an idempotency key? -/
  | findFinding (incidentId : String) (idempotencyKey : String)
  | insertFinding (row : FindingRow)
  /-- `SELECT id, services, resources`. -/
  | loadEntity (incidentId : String)
  | loadRca (incidentId : String)
  /-- `UPDATE incidents SET rca = :rca, status = 'root_cause'` for an incident that is not over. -/
  | saveRca (incidentId : String) (rca : Json)
  /-- The call of an agent through its gateway. -/
  | consult (request : AgentRequest)

/-- The answers: the returned id, the number of rows, what was found, and what the agent answered,
or the type of the exception. -/
abbrev Statement.Answer : Statement → Type
  | insertIncident _ => Option String
  | touchActive _ => Option String
  | insertStage _ => Option Nat
  | findStage _ _ => Option Nat
  | checkpoint _ => Nat
  | transitionStage _ _ => Nat
  | findFinding _ _ => Bool
  | loadEntity _ => Option (List Json × List Json)
  | loadRca _ => Option (Option Json)
  | consult _ => Except String String
  | _ => Unit

/-- The programs of handlers. -/
abbrev Handler (α : Type) : Type :=
  Program Statement Statement.Answer α

/-- Run a statement. -/
def sql (c : Statement) : Handler c.Answer :=
  Program.command c

/-- The circumstances of one attempt of a handler: the random id, the text that the agent answers or
the type of the exception, and whether the column of the trigger snapshot is absent. -/
structure Attempt where
  uuid : String
  consult : Except String String
  columnAbsent : Bool

/-- Execute a statement. No answer means that it raises. -/
def Tables.exec (attempt : Attempt) :
    (c : Statement) → Tables → Option (c.Answer × Tables)
  | .insertIncident row, t => t.insertIncident row
  | .touchActive key, t =>
    some ((t.incidents.find? fun row => row.correlationKey == key && row.status.active).map
      IncidentRow.id, t)
  | .insertLink row, t =>
    if t.hasIncident row.incidentId then some ((), { t with links := t.links ++ [row] }) else none
  | .insertStage row, t => t.insertStage row
  | .findStage incidentId key, t =>
    some (t.stages.findIdx? fun row => row.incidentId == incidentId && row.idempotencyKey == key,
      t)
  | .checkpoint stage, t =>
    some ((t.stages[stage]?.any fun row => row.status == .running).toNat, t)
  | .transitionStage stage status, t =>
    some ((t.stages[stage]?.any fun row => row.status.open).toNat, t.closeStage stage status)
  | .investigate id, t =>
    some ((), t.updateIncidents (fun row => row.id == id && row.status.active)
      { status := some .investigating })
  | .saveTrigger id snapshot, t =>
    some ((), if attempt.columnAbsent then t
      else t.updateIncidents (fun row => row.id == id) { triggerEvent := some snapshot })
  | .findFinding id key, t =>
    some (t.findings.any fun row => row.incidentId == id && row.idem == some key, t)
  | .insertFinding row, t =>
    if t.hasIncident row.incidentId then some ((), { t with findings := t.findings ++ [row] })
    else none
  | .loadEntity id, t => some ((t.incident id).map fun row => (row.services, row.resources), t)
  | .loadRca id, t => some ((t.incident id).map IncidentRow.rca, t)
  | .saveRca id rca, t =>
    some ((), t.updateIncidents
      (fun row => row.id == id && row.status != .resolved && row.status != .stalled &&
        row.status != .skipped)
      { status := some .rootCause, rca := some rca })
  | .consult _, t => some (attempt.consult, t)

end AwsOps.Incident

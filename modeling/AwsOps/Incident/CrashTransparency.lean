import AwsOps.Incident.Handoff
import AwsOps.Incident.Stages

/-!
# Stages that are retried after a crash

The state machine retries a stage with the same input after it has died between two statements. A
stage that has died before its first write, or after its last, is as if it had not died. A
sub-agent writes once, so it always is. Triage is not once it has inserted its incident, for the
retry finds the key taken and links the alert to it; and RootCause is not between the insert of its
stage and the update of the incident, for the retry finds the stage and writes no more.
-/

namespace AwsOps.Incident

open List Option Tables Program

open Text (Unicode)
open Worker (StageInput TriageOutput SubAgentEvent SubAgentOutput RootCauseEvent RootCauseOutput)

/-! ## The stages -/

/-- What the stages are run with: the case folding and the parsers of the library, and the values
of the parameters. -/
structure StageEnv where
  unicode : Unicode
  castUuid : String → Option String
  param : String → Option String
  loads : String → Option Json

/-- A stage with its input. -/
inductive Stage
  | triage (input : StageInput)
  | subAgent (event : SubAgentEvent)
  | rootCause (event : RootCauseEvent)

inductive StageOutput
  | triage (output : TriageOutput)
  | subAgent (output : SubAgentOutput)
  | rootCause (output : RootCauseOutput)

/-- What the state machine decides on. Only the output of Triage is looked at. -/
def StageOutput.routing : StageOutput → Option TriageOutput
  | triage output => some output
  | _ => none

/-- The program of a stage. It returns nothing when it raises. -/
def Stage.program (env : StageEnv) (stage : Stage) (attempt : Attempt) :
    Handler (Option StageOutput) :=
  match stage with
  | triage input => do
      let output ← Worker.triage env.unicode env.castUuid env.param attempt.uuid input
      pure (output.map .triage)
  | subAgent event => do
      let output ← Worker.subAgent event
      pure (output.map .subAgent)
  | rootCause event => do
      let output ← Worker.rootCause env.loads env.castUuid event
      pure (output.map .rootCause)

/-- The rows of incidents, stages and findings. -/
def Tables.rows (t : Tables) : List IncidentRow × List StageRow × List FindingRow :=
  (t.incidents, t.stages, t.findings)

/-! ## Where a stage may die -/

/-- The row that Triage inserts, if it comes to its insert. -/
def triageRow (env : StageEnv) (uuid : String) (input : StageInput) : Option IncidentRow := do
  let severity ← Worker.severityRank env.unicode (Worker.get input.payload "severity")
  let minimum := Text.lower env.unicode (Worker.readCaps env.unicode env.param).minSeverity
  if severity < Worker.rank minimum ∨ !Worker.isolates input.payload then none
  else
    let key ← Worker.correlationKey input.payload
    some (Worker.incidentRow (input.idOr uuid) key input.payload)

/-- The incident is not inserted: its key or its id is taken, or a column would be null. -/
def Tables.refuses (t : Tables) (row : IncidentRow) : Bool :=
  (t.incidents.any fun a => a.correlationKey == row.correlationKey) || t.hasIncident row.id ||
    isNull row.severity || isNull row.triggerSource

/-- There is the stage with the idempotency key. -/
def Tables.hasStage (t : Tables) (row : StageRow) : Bool :=
  t.stages.any fun a => a.incidentId == row.incidentId && a.idempotencyKey == row.idempotencyKey

/-- There is the finding with the idempotency key. -/
def Tables.hasFinding (t : Tables) (event : SubAgentEvent) : Bool :=
  t.findings.any fun row => row.incidentId == event.incidentId && row.idem == some event.idem

/-- The root cause of the incident can be saved: it is not over. -/
def savesRca (incidentId : String) (row : IncidentRow) : Bool :=
  row.id == incidentId && row.status != .resolved && row.status != .stalled &&
    row.status != .skipped

/-- Where a stage may die: after `n` statements at most. -/
def Stage.Survives (env : StageEnv) (stage : Stage) (t : Tables) (attempt : Attempt) (n : Nat) :
    Prop :=
  match stage with
  | triage input => n = 0 ∨ ∀ row ∈ triageRow env attempt.uuid input, t.refuses row
  | subAgent _ => True
  | rootCause event =>
    n ≤ 2 ∨ 5 ≤ n ∨ event.analysis env.loads env.castUuid attempt.consult = none ∨
      t.hasStage event.stage ∨ t.hasIncident event.incidentId = false ∨
      n = 4 ∧ ¬t.incidents.any (savesRca event.incidentId)

/-! ## What the stages see of the tables -/

theorem insert_incident_rows (t : Tables) (row : IncidentRow) :
    (t.insertIncident row).map (Prod.map id rows) =
      if t.incidents.any fun a => a.correlationKey == row.correlationKey then some (none, t.rows)
      else if t.refuses row then none
      else some (some row.id, (t.incidents ++ [row], t.stages, t.findings)) := by
  unfold insertIncident refuses
  split_ifs with hkey hid hnull hrefuses hrefuses <;> simp_all [rows]

theorem insert_of_refuses {t : Tables} {row : IncidentRow} (h : t.refuses row) :
    t.insertIncident row = none ∨ t.insertIncident row = some (none, t) := by
  unfold insertIncident
  split
  · exact .inr rfl
  · rename_i hkey
    split
    · exact .inl rfl
    · rename_i hid
      refine .inl (if_pos ?_)
      simpa [refuses, hkey, hid] using h

/-- The statements see nothing of the links. -/
theorem exec_respects (attempt : Attempt) : Program.Respects (exec attempt) rows := by
  intro c s t h
  have hrows := h
  simp only [rows, Prod.mk.injEq] at h
  obtain ⟨hincidents, hstages, hfindings⟩ := h
  have hincident : ∀ id, s.hasIncident id = t.hasIncident id := fun id => by
    rw [hasIncident, hincidents, hasIncident]
  have hupdate : ∀ guard change, (s.updateIncidents guard change).rows =
      (t.updateIncidents guard change).rows := fun guard change => by
    simp only [rows, updateIncidents, hincidents, hstages, hfindings]
  cases c with
  | insertIncident row =>
    have hrefuses : s.refuses row = t.refuses row := by
      rw [refuses, hincidents, hincident, refuses]
    rw [exec, exec, insert_incident_rows, insert_incident_rows, hrefuses,
      hincidents, hstages, hfindings, hrows]
  | insertStage row =>
    simp only [exec, insertStage, hincident, hstages]
    split_ifs <;> simp [rows, hincidents, hstages, hfindings]
  | insertLink row =>
    simp only [exec, hincident]
    split_ifs <;> simp [rows, hincidents, hstages, hfindings]
  | insertFinding row =>
    simp only [exec, hincident]
    split_ifs <;> simp [rows, hincidents, hstages, hfindings]
  | investigate id | saveRca id rca =>
    simp [exec, Prod.map, hupdate]
  | saveTrigger id snapshot =>
    simp only [exec, map_some, Prod.map]
    split
    · simp only [hrows]
    · simp only [hupdate]
  | transitionStage stage status =>
    simp [exec, closeStage, rows, hincidents, hstages, hfindings]
  | touchActive | findStage | checkpoint | findFinding | loadEntity | loadRca | consult =>
    simp [exec, incident, hincidents, hstages, hfindings, hrows]

/-! ## Triage -/

section Triage

variable {env : StageEnv} {input : StageInput} {uuid : String} {attempt : Attempt} {t : Tables}

/-- Triage returns without a statement, when it comes to no insert. -/
theorem triage_of_no_row (h : triageRow env uuid input = none) :
    ∃ output, Worker.triage env.unicode env.castUuid env.param uuid input = pure output := by
  unfold triageRow at h
  unfold Worker.triage
  cases hseverity : Worker.severityRank env.unicode (Worker.get input.payload "severity") with
  | none => exact ⟨none, rfl⟩
  | some severity =>
    rw [hseverity] at h
    simp only [bind_eq_bind, bind_some] at h
    split at h
    · rename_i hgate
      rcases hgate with hgate | hgate
      · exact ⟨_, if_pos hgate⟩
      · dsimp only
        split
        · exact ⟨_, rfl⟩
        · exact ⟨_, rfl⟩
    · rename_i hgate
      have hkey : Worker.correlationKey input.payload = none := by
        cases hkey : Worker.correlationKey input.payload with
        | none => rfl
        | some key => simp [hkey] at h
      dsimp only
      split
      · exact ⟨_, rfl⟩
      · split
        · exact ⟨_, rfl⟩
        · rw [hkey]
          exact ⟨_, rfl⟩

theorem triage_of_row {row : IncidentRow} (h : triageRow env uuid input = some row) :
    ∃ start : String → Handler (Option TriageOutput), Worker.triage env.unicode env.castUuid
      env.param uuid input =
      (sql (.insertIncident row) >>= fun won : Option String =>
        match won with
        | none => do
            let linked ← linkExisting row.correlationKey
            pure (some ⟨input.jobId, linked, .linked, false, none⟩)
        | some id => start id) := by
  unfold triageRow at h
  unfold Worker.triage
  cases hseverity : Worker.severityRank env.unicode (Worker.get input.payload "severity") with
  | none => simp [hseverity] at h
  | some severity =>
    cases hkey : Worker.correlationKey input.payload with
    | none => simp [hseverity, hkey] at h
    | some key =>
      simp only [hseverity, hkey, bind_eq_bind, bind_some] at h
      split at h
      · cases h
      · rename_i hgate
        cases h
        rw [not_or] at hgate
        dsimp only
        rw [if_neg hgate.1, if_neg hgate.2]
        exact ⟨_, rfl⟩

theorem link_existing_cut (key : List Char) {α : Type} (f : Option String → α) (n : Nat) :
    ((linkExisting key >>= fun linked => pure (f linked)).cut (exec attempt) n t).rows =
      t.rows := by
  rw [cut_map]
  cases n with
  | zero => rfl
  | succ n =>
    simp only [linkExisting, sql, cut_command_bind, exec]
    split
    · rename_i id _
      cases n with
      | zero => rfl
      | succ n =>
        simp only [cut_command_bind, exec]
        cases t.hasIncident id <;> cases n <;> rfl
    · cases n <;> rfl

theorem triage_dies {n : Nat} (h : (Stage.triage input).Survives env t attempt n) :
    (((Stage.triage input).program env attempt).cut (exec attempt) n t).rows = t.rows := by
  rw [Stage.program, cut_map]
  cases n with
  | zero => rfl
  | succ n =>
    have hrefuses := h.resolve_left (Nat.succ_ne_zero n)
    cases hrow : triageRow env attempt.uuid input with
    | none =>
      obtain ⟨output, houtput⟩ := triage_of_no_row hrow
      rw [houtput]
      rfl
    | some row =>
      obtain ⟨start, hstart⟩ := triage_of_row hrow
      rw [hstart]
      simp only [sql, cut_command_bind, exec]
      rcases insert_of_refuses (hrefuses row hrow) with hinsert | hinsert
      · rw [hinsert]
      · rw [hinsert]
        exact link_existing_cut row.correlationKey _ n

end Triage

/-! ## Sub-agents -/

section SubAgent

variable {event : SubAgentEvent} {attempt : Attempt} {t : Tables}

/-- The tables with the finding of a sub-agent. -/
def Tables.addFinding (t : Tables) (row : FindingRow) : Tables :=
  { t with findings := t.findings ++ [row] }

theorem finding_idem (event : SubAgentEvent) (answer : Except String String) :
    (event.finding answer).idem = some event.idem :=
  rfl

theorem has_finding_added (t : Tables) (event : SubAgentEvent) (answer : Except String String) :
    (t.addFinding (event.finding answer)).hasFinding event := by
  have hrow : (event.finding answer).incidentId = event.incidentId := rfl
  simp [hasFinding, addFinding, finding_idem, hrow]

theorem sub_agent_recorded (h : t.hasFinding event) (n : Nat) :
    (Worker.subAgent event).cut (exec attempt) n t = t := by
  have hfind : exec attempt (.findFinding event.incidentId event.idem) t = some (true, t) :=
    congrArg (fun found => some (found, t)) h
  cases n with
  | zero => rfl
  | succ n =>
    simp only [Worker.subAgent, sql, cut_command_bind, hfind]
    cases n <;> rfl

theorem sub_agent_adds {block : String} (h : t.hasFinding event = false)
    (hblock : Worker.isolatedBlock event.signals = some block)
    (hincident : t.hasIncident event.incidentId) :
    (Worker.subAgent event).eval (exec attempt) t =
        (some (some ⟨event.incidentId, event.agent, "recorded"⟩),
          t.addFinding (event.finding attempt.consult)) ∧
      ∀ n, (Worker.subAgent event).cut (exec attempt) n t = t ∨
        (Worker.subAgent event).cut (exec attempt) n t =
          t.addFinding (event.finding attempt.consult) := by
  have hfind : exec attempt (.findFinding event.incidentId event.idem) t = some (false, t) :=
    congrArg (fun found => some (found, t)) h
  have hconsult : exec attempt (.consult (event.request block)) t = some (attempt.consult, t) := rfl
  have hinsert : exec attempt (.insertFinding (event.finding attempt.consult)) t =
      some ((), t.addFinding (event.finding attempt.consult)) := if_pos hincident
  refine ⟨?_, fun n => ?_⟩
  · simp only [Worker.subAgent, sql, eval_command_bind, hfind, hblock, hconsult, hinsert]
    rfl
  · rcases n with _ | _ | _ | n
    · exact .inl rfl
    · refine .inl ?_
      simp only [Worker.subAgent, sql, cut_command_bind, hfind, hblock]
      rfl
    · refine .inl ?_
      simp only [Worker.subAgent, sql, cut_command_bind, hfind, hblock, hconsult]
      rfl
    · refine .inr ?_
      simp only [Worker.subAgent, sql, cut_command_bind, hfind, hblock, hconsult, hinsert]
      cases n <;> rfl

theorem sub_agent_raises (h : t.hasFinding event = false)
    (hcannot : Worker.isolatedBlock event.signals = none ∨ t.hasIncident event.incidentId = false) :
    ((Worker.subAgent event).eval (exec attempt) t).1.join = none ∧
      ∀ n, (Worker.subAgent event).cut (exec attempt) n t = t := by
  have hfind : exec attempt (.findFinding event.incidentId event.idem) t = some (false, t) :=
    congrArg (fun found => some (found, t)) h
  cases hblock : Worker.isolatedBlock event.signals with
  | none =>
    refine ⟨?_, fun n => ?_⟩
    · simp only [Worker.subAgent, sql, eval_command_bind, hfind, hblock]
      rfl
    · cases n with
      | zero => rfl
      | succ n =>
        simp only [Worker.subAgent, sql, cut_command_bind, hfind, hblock]
        cases n <;> rfl
  | some block =>
    have hincident := hcannot.resolve_left (by simp [hblock])
    have hconsult : exec attempt (.consult (event.request block)) t =
        some (attempt.consult, t) := rfl
    have hinsert : exec attempt (.insertFinding (event.finding attempt.consult)) t = none :=
      if_neg (Bool.eq_false_iff.mp hincident)
    refine ⟨?_, fun n => ?_⟩
    · simp only [Worker.subAgent, sql, eval_command_bind, hfind, hblock, hconsult,
        hinsert]
      rfl
    · rcases n with _ | _ | _ | n
      · rfl
      · simp only [Worker.subAgent, sql, cut_command_bind, hfind, hblock]
        rfl
      · simp only [Worker.subAgent, sql, cut_command_bind, hfind, hblock, hconsult]
        rfl
      · simp only [Worker.subAgent, sql, cut_command_bind, hfind, hblock, hconsult, hinsert]

end SubAgent

/-! ## Root cause -/

section RootCause

variable {env : StageEnv} {event : RootCauseEvent} {attempt : Attempt} {t : Tables}

/-- The tables with the stage of the root cause. -/
def Tables.addStage (t : Tables) (row : StageRow) : Tables :=
  { t with stages := t.stages ++ [row] }

def Tables.saveAnalysis (t : Tables) (event : RootCauseEvent) (rca : Json) : Tables :=
  ((t.addStage event.stage).addFinding (event.finding rca)).updateIncidents
    (savesRca event.incidentId) { status := some .rootCause, rca := some rca }

theorem root_cause_raises (h : event.analysis env.loads env.castUuid attempt.consult = none) :
    ((Worker.rootCause env.loads env.castUuid event).eval (exec attempt) t).1.join = none ∧
      ∀ n, (Worker.rootCause env.loads env.castUuid event).cut (exec attempt) n t = t := by
  refine ⟨?_, fun n => ?_⟩
  · simp only [Worker.rootCause, sql, eval_command_bind, exec, h]
    rfl
  · rcases n with _ | _ | n
    · rfl
    · rfl
    · simp only [Worker.rootCause, sql, cut_command_bind, exec, h]
      cases n <;> rfl

theorem root_cause_refused
    (h : t.hasStage event.stage ∨ t.hasIncident event.incidentId = false) (n : Nat) :
    (Worker.rootCause env.loads env.castUuid event).cut (exec attempt) n t = t := by
  cases hanalysis : event.analysis env.loads env.castUuid attempt.consult with
  | none => exact (root_cause_raises hanalysis).2 n
  | some rca =>
    rcases n with _ | _ | _ | n
    · rfl
    · rfl
    · simp only [Worker.rootCause, sql, cut_command_bind, exec, hanalysis]
      rfl
    · have hinsert : t.insertStage event.stage = some (none, t) ∨
          t.insertStage event.stage = none := by
        unfold insertStage
        by_cases hstage : t.hasStage event.stage
        · exact .inl (if_pos hstage)
        · refine .inr ((if_neg hstage).trans (if_neg ?_))
          exact Bool.eq_false_iff.mp (h.resolve_left hstage)
      simp only [Worker.rootCause, sql, cut_command_bind, exec, hanalysis]
      rcases hinsert with hinsert | hinsert
      · simp only [hinsert]
        cases n with
        | zero => rfl
        | succ n =>
          simp only [cut_command_bind, exec]
          cases n <;> rfl
      · simp only [hinsert]

theorem root_cause_saves {rca : Json}
    (hanalysis : event.analysis env.loads env.castUuid attempt.consult = some rca)
    (hstage : t.hasStage event.stage = false) (hincident : t.hasIncident event.incidentId) :
    let program := Worker.rootCause env.loads env.castUuid event
    let added := (t.addStage event.stage).addFinding (event.finding rca)
    program.eval (exec attempt) t =
        (some (some ⟨event.incidentId, rca⟩), t.saveAnalysis event rca) ∧
      (∀ n ≤ 2, program.cut (exec attempt) n t = t) ∧
      program.cut (exec attempt) 4 t = added ∧
      ∀ n, program.cut (exec attempt) (n + 5) t = t.saveAnalysis event rca := by
  intro program added
  have hinsert : t.insertStage event.stage = some (some t.stages.length, t.addStage event.stage) :=
    (if_neg (Bool.eq_false_iff.mp hstage)).trans (if_pos hincident)
  have hfinding : exec attempt (.insertFinding (event.finding rca))
      (t.addStage event.stage) = some ((), added) := if_pos hincident
  have hsave : exec attempt (.saveRca event.incidentId rca) added =
      some ((), t.saveAnalysis event rca) := rfl
  have hload : ∀ s, exec attempt (.loadEntity event.incidentId) s =
      some ((s.incident event.incidentId).map fun row => (row.services, row.resources), s) :=
    fun _ => rfl
  have hconsult : ∀ request s, exec attempt (.consult request) s =
      some (attempt.consult, s) := fun _ _ => rfl
  have hexec : exec attempt (.insertStage event.stage) t =
      some (some t.stages.length, t.addStage event.stage) := hinsert
  refine ⟨?_, ?_, ?_, fun n => ?_⟩
  · simp only [program, Worker.rootCause, Worker.saveAnalysis, sql,
      eval_command_bind, hload, hconsult, hanalysis, hexec, hfinding, hsave]
    rfl
  · intro n hn
    rcases n with _ | _ | _ | n
    · rfl
    · rfl
    · simp only [program, Worker.rootCause, sql, cut_command_bind, hload, hconsult, hanalysis]
      rfl
    · omega
  · simp only [program, Worker.rootCause, Worker.saveAnalysis, sql,
      cut_command_bind, hload, hconsult, hanalysis, hexec, hfinding]
    rfl
  · simp only [program, Worker.rootCause, Worker.saveAnalysis, sql,
      cut_command_bind, hload, hconsult, hanalysis, hexec, hfinding, hsave]
    cases n <;> rfl

theorem save_analysis_rows {rca : Json}
    (h : ¬t.incidents.any (savesRca event.incidentId)) :
    (t.saveAnalysis event rca).rows =
      ((t.addStage event.stage).addFinding (event.finding rca)).rows := by
  have hincidents : (t.saveAnalysis event rca).incidents = t.incidents := by
    refine (map_congr_left fun row hrow => ?_).trans (map_id _)
    exact if_neg fun hsaves => h (any_eq_true.mpr ⟨row, hrow, hsaves⟩)
  rw [rows, hincidents]
  rfl

theorem root_cause_dies {n : Nat} (h : (Stage.rootCause event).Survives env t attempt n) :
    let program := Worker.rootCause env.loads env.castUuid event
    (program.cut (exec attempt) n t).rows = t.rows ∨
      ∃ output, (program.eval (exec attempt) t).1 = some (some output) ∧
        (program.eval (exec attempt) t).2.rows = (program.cut (exec attempt) n t).rows ∧
        (program.cut (exec attempt) n t).hasStage event.stage := by
  intro program
  by_cases hrefused : t.hasStage event.stage ∨ t.hasIncident event.incidentId = false
  · exact .inl (congrArg rows (root_cause_refused hrefused n))
  · cases hanalysis : event.analysis env.loads env.castUuid attempt.consult with
    | none => exact .inl (congrArg rows ((root_cause_raises hanalysis).2 n))
    | some rca =>
      rw [not_or, Bool.not_eq_true, Bool.not_eq_false] at hrefused
      obtain ⟨heval, hearly, hlate, hend⟩ :=
        root_cause_saves hanalysis hrefused.1 hrefused.2
      have hadded : ((t.addStage event.stage).addFinding (event.finding rca)).hasStage
          event.stage := by
        simp [hasStage, addFinding, addStage]
      simp only [Stage.Survives, hanalysis, hrefused.1, hrefused.2, reduceCtorEq,
        Bool.false_eq_true, false_or, Bool.true_eq_false] at h
      rcases h with h | h | ⟨rfl, hover⟩
      · exact .inl (congrArg rows (hearly n h))
      · obtain ⟨m, rfl⟩ := Nat.exists_eq_add_of_le' h
        refine .inr ⟨_, congrArg Prod.fst heval, ?_, ?_⟩
        · rw [heval, hend]
        · rw [hend]
          exact hadded
      · refine .inr ⟨_, congrArg Prod.fst heval, ?_, ?_⟩
        · rw [heval, hlate]
          exact save_analysis_rows hover
        · rw [hlate]
          exact hadded

end RootCause

/-! ## Crashes and retries -/

/-- What an attempt finds when an earlier one has written all that it writes. -/
def Stage.settled (stage : Stage) (t : Tables) : Prop :=
  match stage with
  | triage _ => False
  | subAgent event => t.hasFinding event
  | rootCause event => t.hasStage event.stage

/-- An output that routes nothing. -/
def Unrouted (output : Option StageOutput) : Prop :=
  ∃ out, output = some out ∧ out.routing = none

/-- A stage that dies where it may leaves the rows as they are, or writes all that it writes and is
settled. -/
theorem stage_settles (env : StageEnv) (stage : Stage) :
    Settles exec (stage.program env) rows (stage.Survives env) Unrouted
      stage.settled where
  respects := exec_respects
  dies t attempt n h := by
    cases stage with
    | triage input => exact .inl (triage_dies h)
    | subAgent event =>
      simp only [Stage.program, cut_map, eval_map]
      cases hfinding : t.hasFinding event with
      | true => exact .inl (congrArg rows (sub_agent_recorded hfinding n))
      | false =>
        by_cases hcannot : Worker.isolatedBlock event.signals = none ∨
            t.hasIncident event.incidentId = false
        · exact .inl (congrArg rows ((sub_agent_raises hfinding hcannot).2 n))
        · rw [not_or, Bool.not_eq_false] at hcannot
          obtain ⟨block, hblock⟩ := ne_none_iff_exists'.mp hcannot.1
          obtain ⟨heval, hcut⟩ := sub_agent_adds hfinding hblock hcannot.2
          rcases hcut n with hcut | hcut
          · exact .inl (congrArg rows hcut)
          · refine .inr ⟨_, congrArg (Option.map _) (congrArg Prod.fst heval), ⟨_, rfl, rfl⟩,
              ?_, ?_⟩
            · rw [heval, hcut]
            · rw [hcut]
              exact has_finding_added t event attempt.consult
    | rootCause event =>
      simp only [Stage.program, cut_map, eval_map]
      rcases root_cause_dies h with h | ⟨output, houtput, hrows, hstage⟩
      · exact .inl h
      · exact .inr ⟨_, congrArg (Option.map _) houtput, ⟨_, rfl, rfl⟩, hrows, hstage⟩
  stays t attempt n h := by
    cases stage with
    | triage input => exact absurd h id
    | subAgent event =>
      rw [Stage.program, cut_map, sub_agent_recorded h]
      exact ⟨rfl, h⟩
    | rootCause event =>
      rw [Stage.program, cut_map, root_cause_refused (.inl h)]
      exact ⟨rfl, h⟩

/-- `findings->>'gateway'`. -/
def FindingRow.gateway (row : FindingRow) : Option String :=
  match row.findings with
  | .obj fields => Worker.asString (Worker.get fields "gateway")
  | _ => none

def Tables.gatewayFindings (t : Tables) (event : SubAgentEvent) : Nat :=
  t.findings.countP fun row =>
    row.incidentId == event.incidentId && row.gateway == some event.gateway

/-- What a stage leaves that ran for the first time: one more finding from its gateway, or the root
cause of an incident that is not over. -/
def Stage.Leaves (stage : Stage) (t after : Tables) : Prop :=
  match stage with
  | triage _ => True
  | subAgent event => t.hasFinding event = false →
      after.gatewayFindings event = t.gatewayFindings event + 1
  | rootCause event => t.hasStage event.stage = false → t.incidents.any (savesRca event.incidentId) →
      ∃ row ∈ after.incidents, row.id = event.incidentId ∧ row.rca.isSome

variable {stage : Stage} {attempt : Attempt} {output : StageOutput}

theorem Stage.Leaves.of_rows {t after after' : Tables} (h : stage.Leaves t after)
    (hrows : after.rows = after'.rows) : stage.Leaves t after' := by
  simp only [rows, Prod.mk.injEq] at hrows
  cases stage with
  | triage input => trivial
  | subAgent event =>
    intro hfinding
    rw [← h hfinding, gatewayFindings, gatewayFindings, hrows.2.2]
  | rootCause event =>
    intro hstage hsaves
    rw [← hrows.1]
    exact h hstage hsaves

theorem stage_leaves {env : StageEnv} {t : Tables}
    (h : ((stage.program env attempt).eval (exec attempt) t).1 = some (some output)) :
    stage.Leaves t ((stage.program env attempt).eval (exec attempt) t).2 := by
  cases stage with
  | triage input => trivial
  | subAgent event =>
    intro hfinding
    simp only [Stage.program, eval_map] at h ⊢
    by_cases hcannot : Worker.isolatedBlock event.signals = none ∨
        t.hasIncident event.incidentId = false
    · have hraises : ((Worker.subAgent event).eval (exec attempt) t).1.join = none :=
        (sub_agent_raises hfinding hcannot).1
      cases heval : ((Worker.subAgent event).eval (exec attempt) t).1 with
      | none => simp [heval] at h
      | some returned => simp_all
    · rw [not_or, Bool.not_eq_false] at hcannot
      obtain ⟨block, hblock⟩ := ne_none_iff_exists'.mp hcannot.1
      rw [(sub_agent_adds hfinding hblock hcannot.2).1]
      have hrow : ((event.finding attempt.consult).incidentId == event.incidentId &&
          (event.finding attempt.consult).gateway == some event.gateway) = true :=
        Bool.and_eq_true_iff.mpr ⟨beq_self_eq_true _, beq_self_eq_true (some event.gateway)⟩
      rw [gatewayFindings, addFinding, countP_append, countP_singleton, if_pos hrow]
      rfl
  | rootCause event =>
    intro hstage hsaves
    obtain ⟨row, hrow, hopen⟩ := any_eq_true.mp hsaves
    have hid : row.id = event.incidentId := by
      simp only [savesRca, Bool.and_eq_true, beq_iff_eq] at hopen
      exact hopen.1.1.1
    have hincident : t.hasIncident event.incidentId :=
      any_eq_true.mpr ⟨row, hrow, beq_iff_eq.mpr hid⟩
    simp only [Stage.program, eval_map] at h ⊢
    cases hanalysis : event.analysis env.loads env.castUuid attempt.consult with
    | none =>
      have hraises := (root_cause_raises (t := t) hanalysis).1
      cases heval : ((Worker.rootCause env.loads env.castUuid event).eval (exec attempt) t).1 with
      | none => simp [heval] at h
      | some returned => simp_all
    | some rca =>
      rw [(root_cause_saves hanalysis hstage hincident).1]
      exact ⟨_, mem_map_of_mem hrow, by rw [if_pos hopen]; exact hid, by rw [if_pos hopen]; rfl⟩

theorem routing_eq_none_iff {env : StageEnv} {t : Tables}
    (h : ((stage.program env attempt).eval (exec attempt) t).1 = some (some output)) :
    output.routing = none ↔ ∀ input, stage ≠ .triage input := by
  cases stage with
  | triage input =>
    simp only [Stage.program, eval_map, map_eq_some_iff] at h
    obtain ⟨_, -, out, -, rfl⟩ := h
    exact ⟨nofun, fun hne => absurd rfl (hne input)⟩
  | subAgent event | rootCause event =>
    simp only [Stage.program, eval_map, map_eq_some_iff] at h
    obtain ⟨_, -, out, -, rfl⟩ := h
    exact ⟨fun _ => nofun, fun _ => rfl⟩

/-- After any number of crashes where the stage may die, an attempt that does not die leaves the
incident, stage and findings rows that one of the attempts would have left without any crash, and
returns what the state machine would have decided on then. A sub-agent leaves one finding, and
RootCause the root cause. -/
theorem stages_survive_crashes (env : StageEnv) (stage : Stage) {t : Tables}
    {attempts : List (Attempt × Nat)} {w : Attempt} {output : StageOutput}
    (hmeet : CrashesMeet exec (stage.program env) (stage.Survives env) t attempts)
    (hlast : ((stage.program env w).eval (exec w)
      (afterCrashes exec (stage.program env) t attempts)).1 = some (some output)) :
    let after := ((stage.program env w).eval (exec w)
      (afterCrashes exec (stage.program env) t attempts)).2
    (∃ v ∈ w :: attempts.map Prod.fst, ∃ once,
      ((stage.program env v).eval (exec v) t).1 = some (some once) ∧
      once.routing = output.routing ∧
      ((stage.program env v).eval (exec v) t).2.rows = after.rows) ∧
    stage.Leaves t after := by
  intro after
  obtain ⟨v, hv, returned, heval, hreturned, hrows⟩ :=
    (stage_settles env stage).transparent hmeet hlast
  obtain ⟨once, rfl⟩ : ∃ once, returned = some once := by
    rcases hreturned with rfl | ⟨once, rfl, -⟩ <;> exact ⟨_, rfl⟩
  refine ⟨⟨v, hv, once, heval, ?_, hrows⟩, (stage_leaves heval).of_rows hrows⟩
  rcases hreturned with hsame | ⟨_, hsome, hunrouted⟩
  · cases hsame
    rfl
  · cases hsome
    rw [hunrouted]
    exact ((routing_eq_none_iff hlast).mpr ((routing_eq_none_iff heval).mp hunrouted)).symm

/-- An answer of the orchestrator. -/
def rcaText : String :=
  "\x7b\"rca\": \x7b\"root_cause\": \"disk\"\x7d\x7d"

/-- The library on ASCII texts, the default parameters, and a parser of one answer. -/
def defaultEnv : StageEnv where
  unicode := .ascii
  castUuid := some
  param _ := none
  loads text :=
    if text = rcaText then
      some (.obj [("rca", .obj [("root_cause", .str "disk")])])
    else none

/-- The run of a stage after crashes. -/
def retried (stage : Stage) (t : Tables) (attempts : List (Attempt × Nat)) (w : Attempt) :
    Option (Option StageOutput) × Tables :=
  (stage.program defaultEnv w).eval (exec w)
    (afterCrashes exec (stage.program defaultEnv) t attempts)

def networkEvent : SubAgentEvent :=
  ⟨"i-1", "network", none, "", none, .null, 0⟩

/-- A sub-agent that dies after its insert, and is retried, leaves one finding. -/
theorem stages_survive_crashes_network :
    (retried (.subAgent networkEvent) triagedAlarm [(attemptWith "a", 3)]
      (attemptWith "b")).2.gatewayFindings networkEvent = 1 := by
  have hreturns : (retried (.subAgent networkEvent) triagedAlarm [(attemptWith "a", 3)]
      (attemptWith "b")).1.join.isSome := by decide +kernel
  obtain ⟨output, houtput⟩ := isSome_iff_exists.mp hreturns
  have hfresh : triagedAlarm.hasFinding networkEvent = false := by decide +kernel
  have hmeet : CrashesMeet exec (Stage.program defaultEnv (.subAgent networkEvent))
      (Stage.Survives defaultEnv (.subAgent networkEvent)) triagedAlarm [(attemptWith "a", 3)] :=
    ⟨trivial, trivial⟩
  exact (stages_survive_crashes defaultEnv (.subAgent networkEvent) hmeet
    (join_eq_some_iff.mp houtput)).2 hfresh

def alarmInput : StageInput :=
  ⟨"j-1", none, alarmEvent.json, 0⟩

/-- The decision of Triage. -/
def decisionOf (result : Option (Option StageOutput) × Tables) : Option Worker.Decision :=
  (result.1.join.bind StageOutput.routing).map TriageOutput.decision

def orchestratorAttempt : Attempt :=
  ⟨"a", .ok rcaText, false⟩

/-- The root cause of the alarm has been saved. -/
def rcaSaved (t : Tables) : Bool :=
  (t.incident "i-1").any fun row => row.rca.isSome

/-- Triage that dies after its insert is retried, and the alarm, new without the crash, is linked.
RootCause that dies after the insert of its stage is retried, returns, and the root cause, saved
without the crash, is not. -/
theorem retry_links_alarm :
    decisionOf (retried (.triage alarmInput) noRows [] (attemptWith "i-1")) = some .new ∧
      decisionOf (retried (.triage alarmInput) noRows [] (attemptWith "i-2")) = some .new ∧
      decisionOf (retried (.triage alarmInput) noRows [(attemptWith "i-1", 1)]
        (attemptWith "i-2")) = some .linked ∧
      rcaSaved (retried (.rootCause ⟨none, "i-1"⟩) triagedAlarm [] orchestratorAttempt).2 ∧
      (retried (.rootCause ⟨none, "i-1"⟩) triagedAlarm [(orchestratorAttempt, 3)]
        orchestratorAttempt).1.join.isSome ∧
      ¬rcaSaved (retried (.rootCause ⟨none, "i-1"⟩) triagedAlarm [(orchestratorAttempt, 3)]
        orchestratorAttempt).2 := by
  decide +kernel

end AwsOps.Incident

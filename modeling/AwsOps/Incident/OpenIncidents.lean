import Mathlib.Data.List.Pairwise
import AwsOps.Incident.Handoff

/-!
# Alerts and open incidents

Alerts arrive in the web tier and in the Triage stage, interleaved at every statement with each
other and with the writers that move incidents. A correlation key belongs to one incident for good,
while an alert that has lost the insert is linked to an incident only while that one is active. So
an alert is linked to an open incident as long as the incident with its key is active whenever the
link update runs, and is dropped otherwise.
-/

namespace AwsOps.Incident

open Follows Worker

open Text (Unicode)
open Worker (StageInput TriageOutput Decision)

/-! ## The writers that move incidents -/

/-- The other writers of `incidents.status`. -/
inductive Mover
  /-- `rootcause.py`. -/
  | rootCause (rca : Json)
  /-- `mitigation_plan.py`. -/
  | mitigationPlan
  /-- `prevention.py`. -/
  | prevention
  /-- `incident_watchdog.py`, and `incident_stage_failed.py`, which has the same guard. -/
  | stall
  /-- The incident is resolved, or given another status, from outside. -/
  | outside (status : IncidentStatus)

def Mover.guard : Mover → IncidentStatus → Bool
  | rootCause _, status | mitigationPlan, status | prevention, status | stall, status =>
    status != .resolved && status != .stalled && status != .skipped
  | outside _, _ => true

/-- What a writer sets. -/
def Mover.change : Mover → IncidentChange
  | rootCause rca => { status := some .rootCause, rca := some rca }
  | mitigationPlan => { status := some .mitigationPlanned }
  | prevention => { status := some .prevention }
  | stall => { status := some .stalled }
  | outside status => { status := some status }

/-- A writer moves an incident. -/
def Tables.move (t : Tables) (mover : Mover) (id : String) : Tables :=
  t.updateIncidents (fun row => row.id == id && mover.guard row.status) mover.change

/-! ## The calls -/

/-- A call with an alert: in the web tier, or the Triage stage of the worker. Each has the random
id that it would give a new incident. -/
inductive AlertCall
  | web (uuid : String) (event : AlertEvent)
  | stage (uuid : String) (input : StageInput)

/-- What a call decides about its alert. -/
inductive Verdict
  | new (id : String)
  | linked (id : Option String)
  | none
  deriving DecidableEq

def webVerdict : Web.TriageResult → Verdict
  | .new id => .new id
  | .linked id => .linked id
  | .skipped | .disabled => .none

def stageVerdict : Option TriageOutput → Verdict
  | none => .none
  | some output =>
    match output.decision with
    | .skipped => .none
    | .linked => .linked output.incidentId
    | .new => (output.incidentId.map .new).getD .none

/-- The deployment: the configurations of both tiers. -/
structure Deployment where
  config : Web.Config
  unicode : Unicode
  castUuid : String → Option String
  param : String → Option String
  columnAbsent : Bool

/-- The program of a call, which keeps the call with its verdict. -/
def AlertCall.program (d : Deployment) (call : AlertCall) : Handler (AlertCall × Verdict) :=
  match call with
  | .web uuid event => do
      let result ← Web.triageAndCreateOrLink d.config uuid event
      pure (call, webVerdict result)
  | .stage uuid input => do
      let output ← triage d.unicode d.castUuid d.param uuid input
      pure (call, stageVerdict output)

/-- The machine of the calls. Persisting the trigger snapshot is the only statement whose failure
is caught. -/
def alertCalls (d : Deployment) : Machine Statement Statement.Answer Tables AlertCall
    (Mover × String) (AlertCall × Verdict) where
  worker := AlertCall.program d
  exec _ c t := Tables.exec ⟨"", .error "", d.columnAbsent⟩ c t
  caught _ c _ :=
    match c with
    | .saveTrigger _ _ => some ()
    | _ => none
  abort _ t := t
  environment e t := t.move e.1 e.2

/-- The alert is at or above the minimum severity and the lifecycle is enabled. -/
def AlertCall.accepted (d : Deployment) : AlertCall → Bool
  | .web _ event =>
    d.config.enabled &&
      decide (Web.severityRank (Web.readMinSeverity d.config.minSeverity) ≤
        Web.severityRank event.severity)
  | .stage _ _ => false

/-! ## The stages of a call -/

/-- How far a call has come: it has asked for nothing, it has won the insert of a row and got back
an id, it has lost the insert, or its link update has found an incident, or none. -/
inductive Progress
  | asking
  | won (inserted returned : String)
  | lost (key : List Char)
  | linked (id : Option String)

/-- A call inserts first, and updates the link of the key with which it has lost. -/
def asking : Protocol Statement Statement.Answer Progress where
  initial := .asking
  allowed progress
    | .insertIncident _ => progress = .asking
    | .touchActive key => progress = .lost key
    | _ => True
  after progress c r :=
    match c, r with
    | .insertIncident row, some id => .won row.id id
    | .insertIncident row, none => .lost row.correlationKey
    | .touchActive _, found => .linked found
    | _, _ => progress

/-- The verdict of a call agrees with how far it has come. An accepted alert is new or linked. -/
def Agrees (d : Deployment) (finished : AlertCall × Verdict) (progress : Progress) : Prop :=
  match finished.2 with
  | .new id => ∃ inserted returned, progress = .won inserted returned ∧
      (id = inserted ∨ id = returned)
  | .linked found => progress = .linked found
  | .none => finished.1.accepted d = false

section Programs

variable {d : Deployment} {call : AlertCall}

/-- The statements that are neither the insert of an incident nor the link update. -/
def Statement.plain : Statement → Bool
  | .insertIncident _ | .touchActive _ => false
  | _ => true

theorem quiet_sql {c : Statement} (h : c.plain) (progress : Progress) :
    Quiet asking progress (sql c) := by
  refine Quiet.command ?_ ?_
  · cases c <;> first | exact trivial | cases h
  · cases c <;> first | exact fun _ => rfl | cases h

theorem follows_link_existing (key : List Char) :
    Follows asking (.lost key) (linkExisting key) fun found progress =>
      progress = .linked found := by
  refine ⟨rfl, fun found => ?_⟩
  cases found with
  | none => exact rfl
  | some id => exact (quiet_sql rfl _).follows_bind fun _ => pure rfl

theorem follows_web (uuid : String) (event : AlertEvent) :
    Follows asking .asking (Web.triageAndCreateOrLink d.config uuid event) fun result =>
      Agrees d (.web uuid event, webVerdict result) := by
  unfold Web.triageAndCreateOrLink
  split
  · rename_i henabled
    refine pure ?_
    simp only [Bool.not_eq_eq_eq_not, Bool.not_true] at henabled
    simp [Agrees, webVerdict, AlertCall.accepted, henabled]
  · split
    · rename_i hseverity
      exact pure (by simp [Agrees, webVerdict, AlertCall.accepted, hseverity])
    · refine command_bind rfl fun won => ?_
      cases won with
      | none =>
        refine bind (follows_link_existing _) fun found progress hfound => ?_
        exact pure hfound
      | some id =>
        refine (quiet_sql rfl _).follows_bind fun _ => pure ?_
        exact ⟨uuid, id, rfl, .inl rfl⟩

theorem quiet_start_investigation (castUuid : String → Option String) (caps : Worker.Caps)
    (input : StageInput) (incidentId : String) (progress : Progress) :
    Follows asking progress (startInvestigation castUuid caps input incidentId)
      fun output after => after = progress ∧ output.decision = .new ∧
        output.incidentId = some incidentId := by
  have hstage : Quiet asking progress (createStage incidentId
      (stageIdempotencyKey incidentId "triage" input.attempt) (castUuid input.jobId)
      caps.stageTimeoutS) := by
    refine (quiet_sql rfl progress).bind fun created => ?_
    cases created with
    | none => exact quiet_sql rfl progress
    | some stage => exact Quiet.pure _
  refine hstage.follows_bind fun stage => ?_
  have hfinish : Quiet asking progress (finishStage stage) := by
    cases stage with
    | none => exact Quiet.pure _
    | some stage =>
      exact (quiet_sql rfl progress).bind fun _ => (quiet_sql rfl progress).bind fun _ =>
        Quiet.pure _
  refine hfinish.follows_bind fun _ => (quiet_sql rfl progress).follows_bind fun _ => ?_
  have hpersist : Quiet asking progress
      (persistTrigger incidentId (buildTriggerSnapshot input.payload)) := by
    cases buildTriggerSnapshot input.payload with
    | none => exact Quiet.pure _
    | some snapshot => exact quiet_sql rfl progress
  exact hpersist.follows_bind fun _ => pure ⟨rfl, rfl, rfl⟩

/-- The Triage stage: new is what it has inserted, linked is what the link update has found. -/
theorem follows_stage (uuid : String) (input : StageInput) :
    Follows asking .asking (triage d.unicode d.castUuid d.param uuid input) fun output =>
      Agrees d (.stage uuid input, stageVerdict output) := by
  unfold triage
  dsimp only
  split
  · exact pure rfl
  · split
    · exact pure rfl
    · split
      · exact pure rfl
      · split
        · exact pure rfl
        · refine command_bind rfl fun won => ?_
          cases won with
          | none =>
            refine bind (follows_link_existing _) fun found progress hfound => ?_
            exact pure hfound
          | some id =>
            refine bind (quiet_start_investigation ..) ?_
            rintro output progress ⟨rfl, hnew, hid⟩
            refine pure ?_
            obtain ⟨jobId, incidentId, decision, rosterRequest, maxConcurrency⟩ := output
            cases hnew
            cases hid
            exact ⟨_, id, rfl, .inr rfl⟩

theorem follows_call (call : AlertCall) : Follows asking .asking (call.program d) (Agrees d) := by
  cases call with
  | web uuid event => exact (follows_web uuid event).bind fun _ _ h => pure h
  | stage uuid input => exact (follows_stage uuid input).bind fun _ _ h => pure h

end Programs

/-! ## Runs -/

/-- The states of runs of calls. -/
abbrev Calls : Type :=
  System Statement Statement.Answer Progress Tables (AlertCall × Verdict)

/-- What happens in a run: calls start, take their steps, fail and die, and writers move
incidents. -/
abbrev CallEvent : Type :=
  Event AlertCall (Mover × String)

def Calls.start (t : Tables) : Calls :=
  ⟨t, []⟩

def Tables.hasActive (t : Tables) (test : IncidentRow → Bool) : Bool :=
  t.incidents.any fun row => test row && row.status.active

/-- When a link update runs, the incident with its key is active. -/
def LinksOpen (s : Calls) : CallEvent → Prop
  | .act i =>
    match s.threads[i]? with
    | some ⟨_, some (.call (.touchActive key) _)⟩ =>
      s.shared.hasActive fun row => row.correlationKey == key
    | _ => True
  | _ => True

/-- The condition can be checked. -/
instance (s : Calls) (event : CallEvent) : Decidable (LinksOpen s event) := by
  unfold LinksOpen
  split
  · split <;> infer_instance
  · infer_instance

/-- What the progress of a call says about the run: the row it has won is one that a step of the
call has inserted, and the incident it is linked to was active at a step of the call. -/
def Explanation (d : Deployment) (t : Tables) (events : List CallEvent) (i : Nat) :
    Progress → Prop
  | .asking | .lost _ => True
  | .won inserted returned => returned = inserted ∧
      ∃ before after, events = before ++ .act i :: after ∧
        ((Calls.start t).run (alertCalls d) asking before).shared.hasIncident inserted = false ∧
        ((Calls.start t).run (alertCalls d) asking
          (before ++ [.act i])).shared.hasIncident inserted = true
  | .linked found => ∃ id, found = some id ∧
      ∃ before after, events = before ++ .act i :: after ∧
        ((Calls.start t).run (alertCalls d) asking before).shared.hasActive fun row => row.id == id

theorem Explanation.later {d : Deployment} {t : Tables} {events : List CallEvent} {i : Nat}
    {progress : Progress} (h : Explanation d t events i progress) (event : CallEvent) :
    Explanation d t (events ++ [event]) i progress := by
  cases progress with
  | asking | lost => trivial
  | won inserted returned =>
    obtain ⟨hreturned, before, after, rfl, hrest⟩ := h
    exact ⟨hreturned, before, after ++ [event], by simp, hrest⟩
  | linked found =>
    obtain ⟨id, hfound, before, after, rfl, hrest⟩ := h
    exact ⟨id, hfound, before, after ++ [event], by simp, hrest⟩

theorem calls_explain (d : Deployment) (t : Tables) :
    (alertCalls d).Explains asking LinksOpen (Calls.start t) (Explanation d t) where
  initial _ _ := trivial
  later h event := h.later event
  act {events i v c next r shared} h hallowed hcondition hi hexec := by
    cases c with
    | insertIncident row =>
      rcases insert_incident_cases hexec with ⟨rfl, -, -⟩ | ⟨rfl, hfresh, hincidents, -⟩
      · trivial
      · refine ⟨rfl, events, [], rfl, hfresh, ?_⟩
        rw [System.run_concat, System.step_act hi hexec, Tables.hasIncident, hincidents]
        simp
    | touchActive key =>
      simp only [LinksOpen, hi] at hcondition
      obtain ⟨row, hrow, htest⟩ := List.any_eq_true.mp hcondition
      cases hfind : ((Calls.start t).run (alertCalls d) asking events).shared.incidents.find?
          fun row => row.correlationKey == key && row.status.active with
      | none => exact absurd htest (List.find?_eq_none.mp hfind row hrow)
      | some found =>
        have htest := List.find?_some hfind
        have hactive := (Bool.and_eq_true_iff.mp htest).2
        cases Option.some.inj hexec
        refine ⟨found.id, by rw [hfind]; rfl, events, [], rfl, ?_⟩
        refine List.any_eq_true.mpr ⟨found, List.mem_of_find?_eq_some hfind, ?_⟩
        exact Bool.and_eq_true_iff.mpr ⟨beq_self_eq_true _, hactive⟩
    | _ => exact h.later _
  raise {events i v c r} h _ hcaught := by
    cases c with
    | saveTrigger id snapshot => exact h.later _
    | _ => cases hcaught

/-- Call `i` of a run is over, with its verdict. -/
def EndedWith (s : Calls) (i : Nat) (call : AlertCall) (verdict : Verdict) : Prop :=
  ∃ thread, s.threads[i]? = some thread ∧ thread.program = some (.done (call, verdict))

def verdictOf (s : Calls) (i : Nat) : Option Verdict :=
  match s.threads[i]? with
  | some ⟨_, some (.done (_, verdict))⟩ => some verdict
  | _ => none

theorem ended_of_verdict {s : Calls} {i : Nat} {verdict : Verdict}
    (h : verdictOf s i = some verdict) : ∃ call, EndedWith s i call verdict := by
  unfold verdictOf at h
  split at h
  · rename_i stage call found hi
    cases h
    exact ⟨call, _, hi, rfl⟩
  · cases h

/-- In every run in which the incident with the key is active whenever a link update runs: an
accepted alert is new or linked, a new incident is one that a step of the call inserted, a linked
one was active at a step of the call, and no two incidents have one key. -/
theorem alerts_reach_open_incidents (d : Deployment) (t : Tables) {events : List CallEvent}
    (hmeets : (Calls.start t).Meets (alertCalls d) asking LinksOpen events) :
    let run (events : List CallEvent) := (Calls.start t).run (alertCalls d) asking events
    (∀ i call verdict, EndedWith (run events) i call verdict → (call.accepted d → verdict ≠ .none) ∧
      (∀ id, verdict = .new id → ∃ before after, events = before ++ .act i :: after ∧
        (run before).shared.hasIncident id = false ∧
        (run (before ++ [.act i])).shared.hasIncident id = true) ∧
      (∀ found, verdict = .linked found → ∃ id, found = some id ∧
        ∃ before after, events = before ++ .act i :: after ∧
          (run before).shared.hasActive fun row => row.id == id)) ∧
    ∀ a ∈ (run events).shared.incidents, ∀ b ∈ (run events).shared.incidents,
      a.correlationKey = b.correlationKey → a = b := by
  intro run
  obtain ⟨hyields, hexplained⟩ := System.run_explained (calls_explain d t) follows_call hmeets
  refine ⟨?_, ?_⟩
  · rintro i call verdict ⟨thread, hi, hdone⟩
    have hagrees := hyields.done (List.mem_of_getElem? hi) hdone
    have hexplanation := hexplained i thread hi
    refine ⟨?_, ?_, ?_⟩
    · rintro haccepted rfl
      rw [show call.accepted d = false from hagrees] at haccepted
      cases haccepted
    · rintro id rfl
      obtain ⟨inserted, returned, hstage, hid⟩ := hagrees
      rw [hstage] at hexplanation
      obtain ⟨rfl, hinserted⟩ := hexplanation
      rw [or_self] at hid
      exact hid ▸ hinserted
    · rintro found rfl
      rw [show thread.stage = .linked found from hagrees] at hexplanation
      exact hexplanation
  · intro a ha b hb hkey
    have : Std.Symm fun a b : IncidentRow => a.id ≠ b.id ∧ a.correlationKey ≠ b.correlationKey :=
      ⟨fun _ _ h => ⟨h.1.symm, h.2.symm⟩⟩
    by_contra hne
    exact ((run events).shared.distinct.forall ha hb hne).2 hkey

/-- The deployment with the default minimum severity. -/
def defaultDeployment : Deployment :=
  ⟨enabledConfig, .ascii, some, fun _ => none, false⟩

def alarmTwice : List CallEvent :=
  [.start (.web "i-1" alarmEvent), .act 0, .act 0, .start (.web "i-2" alarmEvent), .act 1, .act 1,
    .act 1]

/-- The second alarm is linked to the incident of the first. -/
theorem alerts_reach_open_incidents_alarm_twice :
    ∃ id, some "i-1" = some id ∧ ∃ before after, alarmTwice = before ++ .act 1 :: after ∧
      ((Calls.start noRows).run (alertCalls defaultDeployment) asking before).shared.hasActive
        fun row => row.id == id := by
  have hmeets : (Calls.start noRows).Meets (alertCalls defaultDeployment) asking LinksOpen
      alarmTwice := by decide +kernel
  have hverdict : verdictOf ((Calls.start noRows).run (alertCalls defaultDeployment) asking
      alarmTwice) 1 = some (.linked (some "i-1")) := by decide +kernel
  obtain ⟨call, hended⟩ := ended_of_verdict hverdict
  exact ((alerts_reach_open_incidents defaultDeployment noRows hmeets).1 1 call _ hended).2.2 _ rfl

/-- The incident of the first alarm stalls before the alarm arrives again, and the second alarm is
linked to nothing. -/
theorem alerts_dropped_after_stall :
    verdictOf ((Calls.start noRows).run (alertCalls defaultDeployment) asking
      [.start (.web "i-1" alarmEvent), .act 0, .act 0, .environment (.stall, "i-1"),
        .start (.web "i-2" alarmEvent), .act 1, .act 1]) 1 = some (.linked none) := by
  decide +kernel

/-! ## Every incident is opened once -/

/-- The call has inserted a row with the id, and got back an id. -/
def Won (s : Calls) (i : Nat) (inserted returned : String) : Prop :=
  ∃ program, s.threads[i]? = some ⟨.won inserted returned, program⟩

/-- A call that has won got back the id of its row, which is there and is of no other call. -/
structure OpenedOnce (s : Calls) : Prop where
  row : ∀ i id returned, Won s i id returned → returned = id ∧ s.shared.hasIncident id
  once : ∀ i j id returned returned', Won s i id returned → Won s j id returned' → i = j

theorem has_incident_update (t : Tables) (guard : IncidentRow → Bool) (change : IncidentChange)
    (id : String) : (t.updateIncidents guard change).hasIncident id = t.hasIncident id := by
  simp only [Tables.hasIncident, Tables.updateIncidents, List.any_map, Function.comp_def]
  congr 1
  funext row
  split <;> rfl

theorem exec_keeps_incident {attempt : Attempt} {c : Statement} {r : c.Answer} {t t' : Tables}
    (hexec : t.exec attempt c = some (r, t')) {id : String} (h : t.hasIncident id) :
    t'.hasIncident id := by
  cases c with
  | insertIncident row =>
    rcases insert_incident_cases hexec with ⟨-, rfl, -⟩ | ⟨-, -, hincidents, -⟩
    · exact h
    · rw [Tables.hasIncident, hincidents, List.any_append, Bool.or_eq_true]
      exact .inl h
  | insertLink | insertFinding =>
    simp only [Tables.exec] at hexec
    split at hexec <;> cases hexec
    exact h
  | insertStage =>
    simp only [Tables.exec, Tables.insertStage] at hexec
    split at hexec
    · cases hexec
      exact h
    · split at hexec <;> cases hexec
      exact h
  | saveTrigger =>
    cases hexec
    split
    · exact h
    · rwa [has_incident_update]
  | investigate | saveRca =>
    cases hexec
    rwa [has_incident_update]
  | _ =>
    cases hexec
    exact h

variable {d : Deployment} {s : Calls}

theorem won_set {shared : Tables} {i k : Nat} {id returned : String}
    {thread : Thread Statement Statement.Answer Progress (AlertCall × Verdict)}
    (h : Won ⟨shared, s.threads.set i thread⟩ k id returned) :
    (k = i ∧ thread.stage = .won id returned) ∨ Won s k id returned := by
  obtain ⟨program, hk⟩ := h
  rw [List.getElem?_set] at hk
  split at hk
  · rename_i hik
    split at hk
    · rw [Option.some.inj hk]
      exact .inl ⟨hik.symm, rfl⟩
    · cases hk
  · exact .inr ⟨program, hk⟩

theorem OpenedOnce.frame {s' : Calls} (h : OpenedOnce s)
    (hwon : ∀ i id returned, Won s' i id returned → Won s i id returned)
    (hrows : ∀ id, s.shared.hasIncident id → s'.shared.hasIncident id) : OpenedOnce s' where
  row i id returned hi :=
    have hold := h.row i id returned (hwon i id returned hi)
    ⟨hold.1, hrows id hold.2⟩
  once i j id returned returned' hi hj :=
    h.once i j id returned returned' (hwon i id returned hi) (hwon j id returned' hj)

theorem OpenedOnce.step (h : OpenedOnce s) (event : CallEvent) :
    OpenedOnce (s.step (alertCalls d) asking event) := by
  have hmoves := s.step_moves (alertCalls d) asking event
  generalize s.step (alertCalls d) asking event = s' at hmoves ⊢
  cases hmoves with
  | start call =>
    refine h.frame (fun i id returned hi => ?_) fun _ h => h
    obtain ⟨program, hi⟩ := hi
    rw [List.getElem?_append] at hi
    split at hi
    · exact ⟨program, hi⟩
    · -- a call that starts has won nothing
      have hnew := List.mem_singleton.mp (List.mem_of_getElem? hi)
      cases congrArg Thread.stage hnew
  | @act i stage c next r shared hi hexec =>
    have hkeeps : ∀ id, s.shared.hasIncident id → shared.hasIncident id :=
      fun id => exec_keeps_incident hexec
    have hframe : (∀ id returned, asking.after stage c r = .won id returned →
        stage = .won id returned) →
        OpenedOnce ⟨shared, s.threads.set i ⟨asking.after stage c r, some (next r)⟩⟩ := by
      intro hstage
      refine h.frame (fun k id returned hk => ?_) hkeeps
      rcases won_set hk with ⟨rfl, hnew⟩ | hold
      · exact ⟨_, hstage id returned hnew ▸ hi⟩
      · exact hold
    cases c with
    | insertIncident row =>
      rcases insert_incident_cases hexec with ⟨rfl, -, -⟩ | ⟨rfl, hfresh, hincidents, -⟩
      · exact hframe fun _ _ h => by cases h
      · -- the row is new, so no call has won it before
        have hnew : ∀ k id returned, Won s k id returned → id ≠ row.id := by
          rintro k id returned hk rfl
          rw [(h.row k _ returned hk).2] at hfresh
          cases hfresh
        constructor
        · intro k id returned hk
          rcases won_set hk with ⟨rfl, hstage⟩ | hold
          · cases hstage
            exact ⟨rfl, by simp [Tables.hasIncident, hincidents]⟩
          · exact (h.row k id returned hold).imp_right (hkeeps id)
        · intro j k id returned returned' hj hk
          rcases won_set hj with ⟨rfl, hstage⟩ | hold
          · cases hstage
            rcases won_set hk with ⟨rfl, -⟩ | hold
            · rfl
            · exact absurd rfl (hnew k _ _ hold)
          · rcases won_set hk with ⟨rfl, hstage⟩ | hold'
            · cases hstage
              exact absurd rfl (hnew j _ _ hold)
            · exact h.once j k id returned returned' hold hold'
    | touchActive key => exact hframe fun _ _ h => by cases h
    | _ => exact hframe fun _ _ h => h
  | @raise i stage c next r hi hcaught =>
    -- only a snapshot that cannot be saved is caught, and the call stays in its stage
    cases c with
    | saveTrigger =>
      refine h.frame (fun k id returned hk => ?_) fun _ h => h
      rcases won_set hk with ⟨rfl, hnew⟩ | hold
      · obtain rfl : stage = .won id returned := hnew
        exact ⟨_, hi⟩
      · exact hold
    | _ => cases hcaught
  | dies i | crash i =>
    refine h.frame (fun k id returned hk => ?_) fun _ h => h
    rcases won_set hk with ⟨rfl, hnew⟩ | hold
    · cases hnew
    · exact hold
  | environment e =>
    exact h.frame (fun _ _ _ hi => hi) fun id hid => by rwa [← has_incident_update] at hid
  | stays => exact h

/-- However alerts of both tiers interleave with each other, with failures and with the writers that
move incidents: no two calls report one incident as new, and an incident that was reported stays. -/
theorem incidents_opened_once (d : Deployment) (t : Tables) (events : List CallEvent) :
    let s := (Calls.start t).run (alertCalls d) asking events
    (∀ i call id, EndedWith s i call (.new id) → s.shared.hasIncident id) ∧
      ∀ i j call call' id, EndedWith s i call (.new id) → EndedWith s j call' (.new id) → i = j := by
  intro s
  have hnone : ∀ i id returned, ¬ Won (Calls.start t) i id returned := by
    rintro i id returned ⟨program, hi⟩
    cases hi
  obtain ⟨hyields, hopened⟩ : s.Yields asking (Agrees d) ∧ OpenedOnce s :=
    System.run_yields follows_call (fun _ event _ h _ => h.step event)
      (System.meets_of_forall (fun _ _ => trivial) _ events)
      (fun _ hthread => absurd hthread List.not_mem_nil)
      ⟨fun i id returned hi => absurd hi (hnone i id returned),
        fun i _ id returned _ hi => absurd hi (hnone i id returned)⟩
  have hwon : ∀ i call id, EndedWith s i call (.new id) → ∃ returned, Won s i id returned := by
    rintro i call id ⟨⟨stage, program⟩, hi, hdone⟩
    obtain ⟨inserted, returned, rfl, hid⟩ := hyields.done (List.mem_of_getElem? hi) hdone
    obtain ⟨rfl, -⟩ := hopened.row i inserted returned ⟨program, hi⟩
    exact ⟨_, program, (or_self_iff.mp hid) ▸ hi⟩
  refine ⟨fun i call id hi => ?_, fun i j call call' id hi hj => ?_⟩
  · obtain ⟨returned, hi⟩ := hwon i call id hi
    exact (hopened.row i id returned hi).2
  · obtain ⟨returned, hi⟩ := hwon i call id hi
    obtain ⟨returned', hj⟩ := hwon j call' id hj
    exact hopened.once i j id returned returned' hi hj

/-- The first of two calls with the alarm has opened the incident. -/
theorem incidents_opened_once_alarm_twice :
    ((Calls.start noRows).run (alertCalls defaultDeployment) asking alarmTwice).shared.hasIncident
      "i-1" := by
  have hverdict : verdictOf ((Calls.start noRows).run (alertCalls defaultDeployment) asking
      alarmTwice) 0 = some (.new "i-1") := by decide +kernel
  obtain ⟨call, hended⟩ := ended_of_verdict hverdict
  exact (incidents_opened_once defaultDeployment noRows alarmTwice).1 0 call "i-1" hended

end AwsOps.Incident

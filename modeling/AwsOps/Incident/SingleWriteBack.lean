import AwsOps.Incident.WriteBack

/-!
# At most one write-back

Write-backs of an incident run interleaved at every statement, in any phase, while its root cause is
replaced, the external system answers as it likes, and write-backs die. What is kept is a token: it
lies in the row once that is finished, or with the one write-back that has created an object and
has not recorded it. It is kept as long as nobody creates a second object beside the token, nobody
loses it, and no other status is written over a finished row.
-/

namespace AwsOps.Incident.WriteBack

open Bool Follows

/-! ## The machine -/

/-- What happens outside of the stage: incidents and their findings change, the external system
gets into another mood, or the write-back is resolved. -/
inductive Outside
  | incidents (incidents : List IncidentView)
  | service (service : Service)
  | resolve

def Store.statusOf (s : Store) (key : List Char) : Option Status :=
  (s.row key).map Row.status

def Store.finished (s : Store) (key : List Char) : Bool :=
  (s.statusOf key).any Status.finished

/-- A write-back that has succeeded is resolved. -/
def Store.resolve (s : Store) (key : List Char) : Store :=
  { s with rows := s.rows.map fun row =>
      if row.dedupKey == key && row.status == .succeeded then { row with status := .resolved }
      else row }

/-- The machine of the write-backs of one incident, each with its phase. A statement that raises
ends its write-back. -/
def writeBacks (config : Config) (incidentId : String) :
    Machine Statement Statement.Answer Store String Outside (Option Output) where
  worker := lambdaHandler config incidentId
  exec _ := Store.exec
  caught _ _ _ := none
  abort _ s := s
  environment
    | .incidents incidents, s => { s with incidents }
    | .service service, s => { s with service }
    | .resolve, s => s.resolve (dedupKey incidentId)

/-! ## The token of a write-back -/

/-- A write-back that has created an object, and not yet recorded it, holds the token. -/
inductive Progress
  | idle | holding
  deriving DecidableEq

/-- Whoever holds the token records that it has succeeded, and nobody else does. -/
def token (key : List Char) : Protocol Statement Statement.Answer Progress where
  initial := .idle
  allowed progress
    | .write _ => progress = .idle
    | .upsert row => row.dedupKey = key ∧ (row.status.finished ↔ progress = .holding)
    | _ => True
  after progress c r :=
    match c, r with
    | .write _, .ok _ => .holding
    | .upsert _, _ => .idle
    | _, _ => progress

section Programs

variable {config : Config} {key : List Char}

/-- The statements that are neither the external write nor an upsert. -/
def Statement.plain : Statement → Bool
  | .write _ | .upsert _ => false
  | _ => true

theorem quiet_sql {c : Statement} (h : c.plain) (progress : Progress) :
    Quiet (token key) progress (sql c) := by
  refine Quiet.command ?_ ?_
  · cases c <;> first | exact trivial | cases h
  · cases c <;> first | exact fun _ => rfl | cases h

theorem quiet_load (incidentId : String) (progress : Progress) :
    Quiet (token key) progress (load config incidentId) := by
  refine (quiet_sql rfl progress).bind fun found => ?_
  cases found with
  | none => exact Quiet.pure _
  | some incident => exact (quiet_sql rfl progress).bind fun _ => Quiet.pure _

theorem quiet_post (title : String) (prior : Option String) (progress : Progress) :
    Quiet (token key) progress (postBestEffort config title prior) := by
  unfold postBestEffort
  split
  · exact (quiet_sql rfl progress).bind fun _ => Quiet.pure _
  · exact Quiet.pure _

theorem follows_record {incidentId : String} {row : Row} {progress : Progress}
    (hkey : row.dedupKey = key) (hfinished : row.status.finished ↔ progress = .holding) :
    Follows (token key) progress (record incidentId row) fun _ after => after = .idle :=
  command_bind ⟨hkey, hfinished⟩ fun _ => quiet_sql rfl .idle

theorem follows_write_back (incidentId : String) (incident : IncidentView)
    (matched : Option String) (body : Body) (prior : Option String) :
    Follows (token (dedupKey incidentId)) .idle
      (writeBack config incidentId incident matched body prior) fun _ _ => True := by
  refine command_bind rfl fun answer => ?_
  refine (quiet_post body.title prior _).follows_bind fun thread => ?_
  cases answer with
  | ok id =>
    refine bind (follows_record rfl ?_) fun _ _ _ => pure trivial
    exact iff_of_true rfl rfl
  | error error =>
    refine bind (follows_record rfl ?_) fun _ _ _ => pure trivial
    exact iff_of_false nofun nofun

/-- The stage on a root cause that can be written back. -/
theorem follows_render_and_write (incidentId phase : String) (incident : IncidentView)
    (matched : Option String) (body : Body) :
    Follows (token (dedupKey incidentId)) .idle
      (renderAndWrite config incidentId phase incident matched body) fun _ _ => True := by
  unfold renderAndWrite
  split
  · refine bind (follows_record rfl ?_) fun _ _ _ => pure trivial
    exact iff_of_false nofun nofun
  · refine (quiet_sql rfl .idle).follows_bind fun existing => ?_
    split
    · exact pure trivial
    · exact follows_write_back incidentId incident matched body _

theorem follows_handler (incidentId phase : String) :
    Follows (token (dedupKey incidentId)) .idle (lambdaHandler config incidentId phase)
      fun _ _ => True := by
  refine (quiet_load incidentId .idle).follows_bind fun loaded => ?_
  cases loaded with
  | none => exact pure trivial
  | some found =>
    obtain ⟨incident, findingCount, dataSources⟩ := found
    dsimp only
    split
    · exact pure trivial
    · refine bind (follows_record rfl ?_) fun _ _ _ => pure trivial
      exact iff_of_false nofun nofun
    · exact pure trivial
    · exact follows_render_and_write incidentId phase incident _ _

end Programs

/-! ## The tables -/

theorem find_map_row {f : Row → Row} (hf : ∀ row, (f row).dedupKey = row.dedupKey)
    (rows : List Row) (key : List Char) :
    (rows.map f).find? (fun row => row.dedupKey == key) =
      (rows.find? fun row => row.dedupKey == key).map f := by
  rw [List.find?_map]
  congr 2
  exact funext fun row => by rw [Function.comp_apply, hf]

theorem status_of_upsert (s : Store) (new : Row) :
    (s.upsert new).statusOf new.dedupKey = some new.status := by
  unfold Store.upsert
  split
  · rename_i hrow
    rw [Store.row] at hrow
    simp [Store.statusOf, Store.row, List.find?_append, hrow]
  · rename_i row hrow
    rw [Store.row] at hrow
    have hkey := List.find?_some hrow
    rw [Store.statusOf, Store.row, find_map_row _ s.rows, hrow]
    · rw [Option.map_some, Option.map_some, if_pos hkey]
    · intro row
      split <;> rfl

theorem status_of_resolve (s : Store) (key : List Char) : (s.resolve key).statusOf key =
      (s.statusOf key).map fun status => if status = .succeeded then .resolved else status := by
  rw [Store.statusOf, Store.row, Store.resolve, find_map_row _ s.rows, Store.statusOf, Store.row]
  · cases hrow : s.rows.find? fun row => row.dedupKey == key with
    | none => rfl
    | some row =>
      have hkey := List.find?_some hrow
      simp only [Option.map_some, hkey, Bool.true_and, beq_iff_eq]
      split <;> rfl
  · intro row
    split <;> rfl

/-! ## Runs -/

/-- The states of runs of write-backs. -/
abbrev WriteBacks : Type :=
  System Statement Statement.Answer Progress Store (Option Output)

/-- What happens in a run. -/
abbrev WriteBackEvent : Type :=
  Event String Outside

/-- The tables and the external system before the first write-back. -/
def WriteBacks.start (incidents : List IncidentView) (rows : List Row) (service : Service) :
    WriteBacks :=
  ⟨⟨incidents, rows, service, [], []⟩, []⟩

/-- The number of write-backs that hold the token. -/
def holders (s : WriteBacks) : Nat :=
  s.count fun progress => progress = .holding

/-- The service creates an object for the next request. -/
def Service.creating : Service → Bool
  | .refuses _ => false
  | _ => true

/-- The service loses the answer to the next request. -/
def Service.losing : Service → Bool
  | .loses _ => true
  | _ => false

/-- Write-backs keep their order: an object is created while no write-back has finished the row or
holds an object that is not recorded, and its answer arrives; whoever holds one does not die; and a
skip, a dry run or a failure is not recorded over a finished row. -/
def Orderly (key : List Char) (s : WriteBacks) : WriteBackEvent → Prop
  | .act i =>
    match s.threads[i]? with
    | some ⟨_, some (.call (.write _) _)⟩ =>
      s.shared.service.creating → s.shared.finished key = false ∧ holders s = 0 ∧
        s.shared.service.losing = false
    | some ⟨_, some (.call (.upsert row) _)⟩ =>
      row.status.finished ∨ s.shared.finished key = false
    | _ => True
  | .raise i | .crash i => s.threads[i]?.all fun thread => thread.stage = .idle
  | .start _ | .environment _ => True

/-- The order can be checked. -/
instance (key : List Char) (s : WriteBacks) (event : WriteBackEvent) :
    Decidable (Orderly key s event) := by
  unfold Orderly
  split
  · split <;> infer_instance
  all_goals infer_instance

/-- The tokens: that of the row once it is finished, and those of the holders. -/
def tokens (key : List Char) (s : WriteBacks) : Nat :=
  holders s + (s.shared.finished key).toNat

/-- There is one token at most, and no object without a token. -/
def OneToken (key : List Char) (s : WriteBacks) : Prop :=
  tokens key s ≤ 1 ∧ s.shared.objects.length ≤ tokens key s

/-- The status of the row is the given one, or resolved. -/
def Stays (key : List Char) (status : Status) (s : WriteBacks) : Prop :=
  s.shared.statusOf key = some status ∨ s.shared.statusOf key = some .resolved

variable {config : Config} {incidentId : String} {s : WriteBacks}

variable {key : List Char} {i : Nat} {stage : Progress}

theorem keeps_of_same (h : OneToken key s) (s' : WriteBacks) (hholders : holders s' = holders s)
    (hstatus : s'.shared.statusOf key = s.shared.statusOf key)
    (hobjects : s'.shared.objects = s.shared.objects) :
    OneToken key s' ∧ ∀ status, Stays key status s → Stays key status s' := by
  unfold OneToken tokens Stays Store.finished at *
  rw [hholders, hstatus, hobjects]
  exact ⟨h, fun _ h => h⟩

theorem holders_same {program : Option (Handler (Option Output))}
    (hi : s.threads[i]? = some ⟨stage, program⟩) (shared : Store)
    (program' : Option (Handler (Option Output))) :
    holders ⟨shared, s.threads.set i ⟨stage, program'⟩⟩ = holders s :=
  Nat.add_right_cancel (System.count_set (fun progress : Progress => decide (progress = .holding))
    hi shared ⟨stage, program'⟩)

theorem holders_crash (h : s.threads[i]?.all fun thread => thread.stage = .idle) (shared : Store) :
    holders ⟨shared, s.threads.set i (Thread.dead (token key))⟩ = holders s := by
  cases hi : s.threads[i]? with
  | none =>
    rw [List.getElem?_eq_none_iff] at hi
    rw [List.set_eq_of_length_le hi]
    rfl
  | some thread =>
    obtain ⟨stage, program⟩ := thread
    rw [hi] at h
    have hidle : stage = .idle := by simpa using h
    exact holders_same (hidle ▸ hi) shared none

theorem finished_of_stays {status : Status} (hstatus : status.finished)
    (h : Stays key status s) : s.shared.finished key = true := by
  rcases h with h | h <;> rw [Store.finished, h]
  · exact hstatus
  · rfl

theorem orderly_create (h : OneToken key s) {s' : WriteBacks}
    (hfinished : s.shared.finished key = false) (hholders : holders s = 0)
    (hstatus : s'.shared.statusOf key = s.shared.statusOf key) (hone : holders s' = 1)
    (hobjects : s'.shared.objects.length = s.shared.objects.length + 1) :
    OneToken key s' ∧ ∀ status, Stays key status s → Stays key status s' := by
  have hfinished' : s'.shared.finished key = false := by
    rw [Store.finished, hstatus]
    exact hfinished
  refine ⟨?_, fun status hstays => ?_⟩
  · have hnone := h.2
    simp only [OneToken, tokens, hholders, hfinished, hfinished', hone, hobjects,
      toNat_false] at hnone ⊢
    omega
  · rwa [Stays, hstatus]

theorem orderly_upsert (h : OneToken key s) {s' : WriteBacks} {row : Row}
    (hallowed : row.status.finished ↔ stage = .holding)
    (horderly : row.status.finished ∨ s.shared.finished key = false)
    (hstatus : s'.shared.statusOf key = some row.status)
    (hholders : holders s' + (decide (stage = .holding)).toNat = holders s)
    (hobjects : s'.shared.objects = s.shared.objects) :
    OneToken key s' ∧ ∀ status, status.finished → Stays key status s → Stays key status s' := by
  have hfinished' : s'.shared.finished key = row.status.finished := by
    rw [Store.finished, hstatus]
    rfl
  obtain ⟨hone, hnone⟩ := h
  simp only [tokens] at hone hnone
  have hfinished : s.shared.finished key = false := by
    rcases horderly with hrow | hfinished
    · rw [decide_eq_true (hallowed.mp hrow)] at hholders
      simp only [toNat_true] at hholders
      exact eq_false_iff.mpr fun hfinished => by
        rw [hfinished, toNat_true] at hone
        omega
    · exact hfinished
  refine ⟨?_, fun status hfin hstays => ?_⟩
  · rw [hfinished, toNat_false] at hone hnone
    have hdecide : decide (stage = .holding) = row.status.finished :=
      eq_iff_iff.mpr (decide_eq_true_iff.trans hallowed.symm)
    rw [hdecide] at hholders
    simp only [OneToken, tokens, hfinished', hobjects]
    omega
  · rw [finished_of_stays hfin hstays] at hfinished
    cases hfinished

theorem orderly_act {c : Statement} {r : c.Answer} {shared : Store}
    {next : c.Answer → Handler (Option Output)} (h : OneToken key s)
    (horderly : Orderly key s (.act i)) (hi : s.threads[i]? = some ⟨stage, some (.call c next)⟩)
    (hallowed : (token key).allowed stage c) (hexec : Store.exec c s.shared = some (r, shared)) :
    let s' : WriteBacks :=
      ⟨shared, s.threads.set i ⟨(token key).after stage c r, some (next r)⟩⟩
    OneToken key s' ∧ ∀ status, status.finished → Stays key status s → Stays key status s' := by
  intro s'
  have hcount := System.count_set (fun progress : Progress => decide (progress = .holding)) hi
    shared ⟨(token key).after stage c r, some (next r)⟩
  simp only [Orderly, hi] at horderly
  cases c with
  | write request =>
    cases hservice : s.shared.service with
    | creates id =>
      simp only [Store.exec, hservice] at hexec
      cases hexec
      cases hallowed
      obtain ⟨hfinished, hholders, -⟩ := horderly (by rw [hservice]; rfl)
      have hone : holders s' = 1 := by
        rw [← holders, ← holders, hholders] at hcount
        exact hcount
      have hlength : s'.shared.objects.length = s.shared.objects.length + 1 :=
        List.length_append
      have hstatus : s'.shared.statusOf key = s.shared.statusOf key := rfl
      obtain ⟨hone, hstays⟩ := orderly_create h hfinished hholders hstatus hone hlength
      exact ⟨hone, fun status _ => hstays status⟩
    | refuses error =>
      simp only [Store.exec, hservice] at hexec
      cases hexec
      have hholders : holders s' = holders s := holders_same hi _ _
      have hstatus : s'.shared.statusOf key = s.shared.statusOf key := rfl
      obtain ⟨hone, hstays⟩ := keeps_of_same h _ hholders hstatus rfl
      exact ⟨hone, fun status _ => hstays status⟩
    | loses error =>
      simp [hservice, Service.creating, Service.losing] at horderly
  | upsert row =>
    obtain ⟨hkey, hallowed⟩ := hallowed
    cases hexec
    refine orderly_upsert h hallowed horderly ?_ ?_ ?_
    · rw [← hkey]
      exact status_of_upsert s.shared row
    · exact hcount
    · unfold s' Store.upsert
      split <;> rfl
  | loadIncident | countFindings | claim | post | setStatus =>
    cases hexec
    have hholders : holders s' = holders s := holders_same hi _ _
    have hstatus : s'.shared.statusOf key = s.shared.statusOf key := rfl
    obtain ⟨hone, hstays⟩ := keeps_of_same h _ hholders hstatus rfl
    exact ⟨hone, fun status _ => hstays status⟩

theorem orderly_resolve (h : OneToken key s) :
    let s' : WriteBacks := ⟨s.shared.resolve key, s.threads⟩
    OneToken key s' ∧ ∀ status, status.finished → Stays key status s → Stays key status s' := by
  intro s'
  have hstatus : s'.shared.statusOf key = (s.shared.statusOf key).map fun status =>
      if status = .succeeded then .resolved else status := status_of_resolve s.shared key
  have hfinished : s'.shared.finished key = s.shared.finished key := by
    rw [Store.finished, hstatus, Store.finished]
    cases s.shared.statusOf key with
    | none => rfl
    | some status => cases status <;> rfl
  refine ⟨?_, fun status hfin hstays => ?_⟩
  · rw [OneToken, tokens, hfinished]
    exact h
  · rw [Stays, hstatus]
    rcases hstays with hstays | hstays <;> rw [hstays]
    · cases status with
      | succeeded => exact .inr rfl
      | resolved => exact .inr rfl
      | _ => cases hfin
    · exact .inr rfl

theorem orderly_step {event : WriteBackEvent}
    (hyields : s.Yields (token (dedupKey incidentId)) fun _ _ => True)
    (h : OneToken (dedupKey incidentId) s) (horderly : Orderly (dedupKey incidentId) s event) :
    let s' := s.step (writeBacks config incidentId) (token (dedupKey incidentId)) event
    OneToken (dedupKey incidentId) s' ∧ ∀ status, status.finished →
      Stays (dedupKey incidentId) status s → Stays (dedupKey incidentId) status s' := by
  have hsame : OneToken (dedupKey incidentId) s ∧ ∀ status, status.finished →
      Stays (dedupKey incidentId) status s → Stays (dedupKey incidentId) status s :=
    ⟨h, fun _ _ h => h⟩
  have hmoves := s.step_moves (writeBacks config incidentId) (token (dedupKey incidentId)) event
  generalize s.step (writeBacks config incidentId) (token (dedupKey incidentId)) event = s'
    at hmoves ⊢
  cases hmoves with
  | start phase =>
    obtain ⟨hone, hstays⟩ := keeps_of_same h ⟨s.shared, s.threads ++ [⟨.idle, _⟩]⟩
      (by simp [holders, System.count]) rfl rfl
    exact ⟨hone, fun status _ => hstays status⟩
  | act hi hexec => exact orderly_act h horderly hi (hyields.next hi).1 hexec
  | stays => exact hsame
  | raise hi hcaught => cases hcaught
  | dies i | crash i =>
    obtain ⟨hone, hstays⟩ := keeps_of_same h _ (holders_crash horderly s.shared) rfl rfl
    exact ⟨hone, fun status _ => hstays status⟩
  | environment outside =>
    cases outside with
    | incidents incidents | service service =>
      obtain ⟨hone, hstays⟩ := keeps_of_same h ⟨_, s.threads⟩ rfl rfl rfl
      exact ⟨hone, fun status _ => hstays status⟩
    | resolve => exact orderly_resolve h

/-- In every orderly run of write-backs of an incident, in any phases: at most one object is created,
and a row that has succeeded or is resolved stays so. -/
theorem writes_back_once (config : Config) (incidentId : String) (incidents : List IncidentView)
    (rows : List Row) (service : Service) {events : List WriteBackEvent}
    (hmeets : (WriteBacks.start incidents rows service).Meets (writeBacks config incidentId)
      (token (dedupKey incidentId)) (Orderly (dedupKey incidentId)) events) :
    let run (events : List WriteBackEvent) := (WriteBacks.start incidents rows service).run
      (writeBacks config incidentId) (token (dedupKey incidentId)) events
    (run events).shared.objects.length ≤ 1 ∧
      ∀ before after, events = before ++ after → ∀ status, status.finished →
        (run before).shared.statusOf (dedupKey incidentId) = some status →
        (run events).shared.statusOf (dedupKey incidentId) = some status ∨
          (run events).shared.statusOf (dedupKey incidentId) = some .resolved := by
  intro run
  have hstart : OneToken (dedupKey incidentId) (WriteBacks.start incidents rows service) :=
    ⟨(Nat.zero_add _).trans_le (toNat_le _), Nat.zero_le _⟩
  have hone : ∀ events, (WriteBacks.start incidents rows service).Meets
      (writeBacks config incidentId) (token (dedupKey incidentId)) (Orderly (dedupKey incidentId))
      events → (run events).Yields (token (dedupKey incidentId)) (fun _ _ => True) ∧
        OneToken (dedupKey incidentId) (run events) := fun events hmeets =>
    System.run_yields (follows_handler incidentId)
      (fun s event hyields h horderly => (orderly_step hyields h horderly).1) hmeets nofun hstart
  refine ⟨?_, ?_⟩
  · obtain ⟨-, htokens, hobjects⟩ := hone events hmeets
    exact hobjects.trans htokens
  · rintro before after rfl status hfinished hstatus
    obtain ⟨hbefore, hafter⟩ := System.meets_append.mp hmeets
    obtain ⟨hyields, htoken⟩ := hone before hbefore
    have hstep : ∀ s event, System.Yields (token (dedupKey incidentId)) (fun _ _ => True) s →
        OneToken (dedupKey incidentId) s ∧ Stays (dedupKey incidentId) status s →
        Orderly (dedupKey incidentId) s event →
        let s' := s.step (writeBacks config incidentId) (token (dedupKey incidentId)) event
        OneToken (dedupKey incidentId) s' ∧ Stays (dedupKey incidentId) status s' :=
      fun s event hyields h horderly =>
        let ⟨hone, hstays⟩ := orderly_step hyields h.1 horderly
        ⟨hone, hstays status hfinished h.2⟩
    obtain ⟨-, -, hstays⟩ := System.run_yields (follows_handler incidentId) hstep hafter hyields
      ⟨htoken, .inl hstatus⟩
    rw [← System.run_append] at hstays
    exact hstays

/-- The ASCII library, and texts that need no defanging. -/
def plainConfig : Config where
  unicode := .ascii
  loads _ := none
  defang value cap := prefixOf cap (textOf value)
  publicBase := ""
  planMap := some []
  opscenterSource := "awsops-v2"
  slackEnabled := false

/-- An incident with a root cause that can be written back. -/
def analysedIncident : IncidentView where
  id := "i-1"
  severity := "critical"
  agentSpaceVersion := none
  rca := some (.obj [("root_cause", .str "disk full"), ("category", .str "capacity"),
    ("confidence", .str "high")])
  lastEventAt := "2026-06-10"
  triggerSource := "cloudwatch"
  writebackStatus := none
  findingCount := 0
  dataSources := []

/-- The steps of one write-back in phase `execute`: two loads, the claim, the write and the two
statements of the record. -/
def executed (i : Nat) : List WriteBackEvent :=
  .start "execute" :: List.replicate 6 (.act i)

/-- The steps of a dry run: two loads, and the two statements of the record. -/
def dryRun (i : Nat) : List WriteBackEvent :=
  .start "dry_run" :: List.replicate 4 (.act i)

def writeBackRun (events : List WriteBackEvent) : WriteBacks :=
  (WriteBacks.start [analysedIncident] [] (.creates "oi-1")).run (writeBacks plainConfig "i-1")
    (token (dedupKey "i-1")) events

/-- A second write-back leaves the first one's object alone, and its row as it is. -/
theorem writes_back_once_twice :
    (writeBackRun (executed 0 ++ executed 1)).shared.objects.length ≤ 1 := by
  have hmeets : (WriteBacks.start [analysedIncident] [] (.creates "oi-1")).Meets
      (writeBacks plainConfig "i-1") (token (dedupKey "i-1")) (Orderly (dedupKey "i-1"))
      (executed 0 ++ executed 1) := by decide +kernel
  have honce := writes_back_once plainConfig "i-1" [analysedIncident] [] (.creates "oi-1") hmeets
  dsimp only at honce
  unfold writeBackRun
  exact honce.1

/-- A dry run after the write-back takes its row out of `succeeded`, and the next write-back creates
a second object. -/
theorem dry_run_after_success :
    (writeBackRun (executed 0)).shared.statusOf (dedupKey "i-1") = some .succeeded ∧
      (writeBackRun (executed 0 ++ dryRun 1)).shared.statusOf (dedupKey "i-1") = some .rendered ∧
      (writeBackRun (executed 0 ++ dryRun 1 ++ executed 2)).shared.objects.length = 2 := by
  decide +kernel

end AwsOps.Incident.WriteBack

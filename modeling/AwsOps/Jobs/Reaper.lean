import AwsOps.Jobs.Lifecycle

/-!
# What the reaper leaves alone

One run of the reaper fails the rows that have been running for too long, then, while the
dispatcher is enabled, those that have been queued for too long, and then only counts the stale
rows of remediations. Every statement commits on its own and reads the clock anew, and other
writers may act in between, so a run is given by what each statement finds. `reaper_frame` says
exactly when the run leaves alone what it is meant to leave alone: no row of an automation may be
stale when a statement passes over its status.
-/

namespace AwsOps.Jobs

open List

/-- The environment of the reaper: `QUEUED_STALE_MIN`, `RUNNING_STALE_MIN` and
`DISPATCH_ESM_UUID`. -/
structure ReaperConfig where
  queuedStaleMin : Int
  runningStaleMin : Int
  dispatchEsmUuid : String

/-- What the description of the event source mapping gives: its state, if it has one, or an
error. -/
inductive MappingAnswer
  | described (state : Option String)
  | raised

/-- `_dispatch_enabled`. Without a mapping, or when it cannot be described, dispatch counts as
enabled. -/
def dispatchEnabled (config : ReaperConfig) (answer : MappingAnswer) : Bool :=
  if config.dispatchEsmUuid = "" then true
  else
    match answer with
    | .described state => state == some "Enabled" || state == some "Enabling"
    | .raised => true

/-- What a statement finds: the clock and the rows of `worker_jobs`. -/
structure Found where
  now : Int
  jobs : List Job

/-- One run of `lambda_handler`: what its three statements on `worker_jobs` find. -/
structure ReaperRun where
  config : ReaperConfig
  answer : MappingAnswer
  running : Found
  queued : Found
  remediation : Found

/-- A row before and after a statement, and the time of the statement. -/
structure RowChange where
  now : Int
  old : Job
  new : Job

def Update.over (update : Update) (found : Found) : List RowChange :=
  found.jobs.map fun job => ⟨found.now, job, update.run found.now job⟩

/-- Everything a run does to the rows. The queued rows are passed over while dispatch is disabled. -/
def ReaperRun.changes (run : ReaperRun) : List RowChange :=
  (reapRunning run.config.runningStaleMin).over run.running ++
    if dispatchEnabled run.config run.answer then
      (reapQueued run.config.queuedStaleMin).over run.queued
    else []

/-- A stale row of a remediation: it is running or waits for approval, and has an automation. -/
def staleRemediation (minutes now : Int) (job : Job) : Bool :=
  (staleIn .running minutes now job || staleIn .awaitingApproval minutes now job) &&
    job.automationExecutionId.isSome

/-- The counts that a run returns. There is none for the queued rows while dispatch is disabled. -/
structure ReaperCounts where
  reapedRunning : Nat
  reapedQueued : Option Nat
  staleRemediationRows : Nat
  deriving DecidableEq

/-- What `lambda_handler` returns about `worker_jobs`. -/
def ReaperRun.counts (run : ReaperRun) : ReaperCounts where
  reapedRunning :=
    run.running.jobs.countP (staleIn .running run.config.runningStaleMin run.running.now)
  reapedQueued :=
    if dispatchEnabled run.config run.answer then
      some (run.queued.jobs.countP (staleIn .queued run.config.queuedStaleMin run.queued.now))
    else none
  staleRemediationRows :=
    run.remediation.jobs.countP (staleRemediation run.config.runningStaleMin run.remediation.now)

/-! ## The frame -/

def ReaperConfig.staleBound (config : ReaperConfig) : JobStatus → Option Int
  | .running => some config.runningStaleMin
  | .queued => some config.queuedStaleMin
  | _ => none

/-- What a change of the reaper may not do: it leaves the rows that belong to an automation, those
that wait for an operator, the queued ones while dispatch is disabled, and those that are no older
than the bound of their status. -/
structure RowChange.Framed (config : ReaperConfig) (enabled : Bool) (change : RowChange) : Prop where
  automation : change.old.automationExecutionId.isSome → change.new = change.old
  manual : change.old.status = .manualIntervention → change.new = change.old
  queued : change.old.status = .queued → change.new ≠ change.old → enabled
  young : change.new ≠ change.old → ∃ minutes, config.staleBound change.old.status = some minutes ∧
    minutes * 60000000 < change.now - change.old.updatedAt

section Frame

variable {config : ReaperConfig} {minutes now : Int} {job : Job}

theorem stale_in_iff (status : JobStatus) : staleIn status minutes now job ↔
      job.status = status ∧ minutes * 60000000 < now - job.updatedAt := by
  simp only [staleIn, Bool.and_eq_true, beq_iff_eq, decide_eq_true_eq]
  constructor <;> rintro ⟨hstatus, hage⟩ <;> exact ⟨hstatus, by omega⟩

theorem reap_changes_iff {update : Update} {status : JobStatus}
    (hguard : ∀ job, update.guard now job = staleIn status minutes now job)
    (hset : ∀ job, (update.set job).status = .failed) (hstatus : status ≠ .failed) :
    update.run now job ≠ job ↔ staleIn status minutes now job := by
  constructor
  · intro hchanged
    by_contra hfresh
    refine hchanged (if_neg ?_)
    rw [hguard]
    exact hfresh
  · intro hstale heq
    have hfailed : (update.run now job).status = .failed := by
      rw [run_status, hguard, if_pos hstale, hset]
    rw [heq, stale_in_status hstale] at hfailed
    exact hstatus hfailed

theorem framed_iff {update : Update} {status : JobStatus} {enabled : Bool}
    (hguard : ∀ job, update.guard now job = staleIn status minutes now job)
    (hset : ∀ job, (update.set job).status = .failed)
    (hbound : config.staleBound status = some minutes)
    (henabled : status = .queued → enabled) :
    RowChange.Framed config enabled ⟨now, job, update.run now job⟩ ↔
      (job.automationExecutionId.isSome → ¬staleIn status minutes now job) := by
  have hactive : status = .running ∨ status = .queued := by
    cases status <;> first | exact .inl rfl | exact .inr rfl | cases hbound
  have hfailed : status ≠ .failed := by
    rcases hactive with h | h <;> rw [h] <;> decide
  have hchanged : update.run now job ≠ job ↔ staleIn status minutes now job :=
    reap_changes_iff hguard hset hfailed
  constructor
  · intro hframe hautomation hstale
    exact hchanged.mpr hstale (hframe.automation hautomation)
  · intro hfresh
    refine ⟨fun hautomation => ?_, fun hmanual => ?_, fun hqueued hne => ?_, fun hne => ?_⟩
    · by_contra hne
      exact hfresh hautomation (hchanged.mp hne)
    · by_contra hne
      have hstatus := stale_in_status (hchanged.mp hne)
      rw [show job.status = .manualIntervention from hmanual] at hstatus
      rcases hactive with h | h <;> rw [h] at hstatus <;> cases hstatus
    · have hstatus := stale_in_status (hchanged.mp hne)
      exact henabled (hstatus.symm.trans hqueued)
    · have hstale := (stale_in_iff status).mp (hchanged.mp hne)
      refine ⟨minutes, ?_, hstale.2⟩
      show config.staleBound job.status = some minutes
      rw [hstale.1, hbound]

end Frame

/-- One run of the reaper keeps the frame, whatever its statements find, exactly if no row that
carries an automation execution id has been running for too long at the first statement or, while
dispatch is enabled, has been queued for too long at the second. -/
theorem reaper_frame (run : ReaperRun) : (∀ change ∈ run.changes,
        change.Framed run.config (dispatchEnabled run.config run.answer)) ↔
      (∀ job ∈ run.running.jobs, job.automationExecutionId.isSome →
        ¬staleIn .running run.config.runningStaleMin run.running.now job) ∧
      (dispatchEnabled run.config run.answer → ∀ job ∈ run.queued.jobs,
        job.automationExecutionId.isSome →
          ¬staleIn .queued run.config.queuedStaleMin run.queued.now job) := by
  have hrunning (job : Job) : RowChange.Framed run.config (dispatchEnabled run.config run.answer)
        ⟨run.running.now, job, (reapRunning run.config.runningStaleMin).run run.running.now job⟩ ↔
      _ := framed_iff (fun _ => rfl) (fun _ => rfl) rfl (fun h => by cases h)
  have hqueued (henabled : dispatchEnabled run.config run.answer = true) (job : Job) :
      RowChange.Framed run.config (dispatchEnabled run.config run.answer)
        ⟨run.queued.now, job, (reapQueued run.config.queuedStaleMin).run run.queued.now job⟩ ↔
      _ := framed_iff (fun _ => rfl) (fun _ => rfl) rfl (fun _ => henabled)
  unfold ReaperRun.changes
  simp only [forall_mem_append, Update.over, forall_mem_map, hrunning]
  refine and_congr_right fun _ => ?_
  split
  · rename_i henabled
    rw [forall_mem_map]
    constructor
    · intro hframed _ job hjob
      exact (hqueued henabled job).mp (hframed job hjob)
    · intro hfresh job hjob
      exact (hqueued henabled job).mpr (hfresh henabled job hjob)
  · rename_i hdisabled
    simp [hdisabled]

/-- A run of the reaper that no other writer interferes with, with the default bounds and no mapping
to ask. -/
def aloneRun (now : Int) (jobs : List Job) : ReaperRun where
  config := ⟨30, 60, ""⟩
  answer := .raised
  running := ⟨now, jobs⟩
  queued := ⟨now, jobs.map ((reapRunning 60).run now)⟩
  remediation := ⟨now, jobs.map ((reapRunning 60).run now)⟩

/-- An automation is started for a claimed job and takes more than an hour. The reaper fails the
row, which carries the execution id, instead of counting it. -/
theorem reaper_fails_automation :
    let job := runWriters queuedJob [(1, .claimRunning "ssm"), (2, .recordSsmStart "exec-1" "token-1")]
    let run := aloneRun (61 * 60000000) [job]
    job.automationExecutionId = some "exec-1" ∧
      run.changes.map (fun change => (change.old.status, change.new.status)) =
        [(.running, .failed), (.failed, .failed)] ∧
      run.counts = ⟨1, some 0, 0⟩ ∧
      ¬∀ change ∈ run.changes, change.Framed run.config (dispatchEnabled run.config run.answer) := by
  refine ⟨rfl, by decide, by decide, fun h => ?_⟩
  have hframe := h _ (mem_append_left _ mem_cons_self)
  have hsame := congrArg Job.status (hframe.automation rfl)
  revert hsame
  decide

end AwsOps.Jobs

import Mathlib.Data.List.Induction

/-!
# The status of a worker job

A `worker_jobs` row is written by conditional `UPDATE` statements of eight writers, each with its
own copy of the guard on the status. An update acts on the row alone, so any interleaving of the
writers is a sequence of updates, each at a time of its own. `job_status_lifecycle` says for which
sequences the terminal statuses are final, `succeeded` is entered from `running` only, and a row
that waits for approval does not start to run: those in which `record_ssm_start` does not find the
row in `manual_intervention` or in `awaiting_approval`.
-/

namespace AwsOps.Jobs

/-- The values of the column `status`. -/
inductive JobStatus
  | queued | running | awaitingApproval | manualIntervention | succeeded | failed | canceled
  deriving DecidableEq

def JobStatus.terminal : JobStatus → Bool
  | succeeded | failed | canceled | manualIntervention => true
  | _ => false

/-- A `worker_jobs` row, as far as the writers read or set it. Times are in microseconds. -/
structure Job where
  status : JobStatus
  runtime : Option String
  attempt : Nat
  result : Option String
  artifactUri : Option String
  error : Option String
  automationExecutionId : Option String
  taskToken : Option String
  planId : Option String
  updatedAt : Int
  startedAt : Option Int
  finishedAt : Option Int
  deriving DecidableEq

/-- The triggers on an update: `touch_updated_at` and `stamp_worker_job_lifecycle`. -/
def stampLifecycle (now : Int) (old new : Job) : Job :=
  let claimed := old.startedAt.isNone && old.status == .queued && old.attempt == 0 &&
    new.status == .running
  let finishedAt :=
    if new.status.terminal then if old.status.terminal then old.finishedAt else some now
    else if new.status ≠ old.status ∨ old.attempt < new.attempt then none
    else old.finishedAt
  { new with
    updatedAt := now
    startedAt := if claimed then some now else old.startedAt
    finishedAt }

/-- An `UPDATE` of one row: its `WHERE` clause, which may read the clock, and its `SET` clause. -/
structure Update where
  guard : Int → Job → Bool
  set : Job → Job

/-- Execute an update at a time. -/
def Update.run (update : Update) (now : Int) (job : Job) : Job :=
  if update.guard now job then stampLifecycle now job (update.set job) else job

/-! ## The writers -/

def claimRunning (runtime : String) : Update where
  guard _ job := job.status == .queued || job.status == .running
  set job := { job with status := .running, runtime := some runtime, attempt := job.attempt + 1 }

/-- `finish_job`, for a terminal status. -/
def finishJob (status : { s : JobStatus // s.terminal }) (result artifactUri error : Option String) :
    Update where
  guard _ job := !job.status.terminal && (status.1 != .succeeded || job.status == .running)
  set job := { job with status := status.1, result, artifactUri, error }

def setManualIntervention (error : String) : Update where
  guard _ job := !job.status.terminal
  set job := { job with status := .manualIntervention, error := some error }

def approvalNotifier (token : String) (planId : Option String) : Update where
  guard _ job := !job.status.terminal
  set job := { job with status := .awaitingApproval, taskToken := some token, planId }

/-- The update of `record_ssm_start` after the automation has started. Its guard names three of the
four terminal statuses. -/
def recordSsmStart (execId token : String) : Update where
  guard _ job := job.status != .succeeded && job.status != .failed && job.status != .canceled
  set job := { job with
    automationExecutionId := some execId, taskToken := some token, status := .running }

/-- The update of `status_resume` when the automation has succeeded. -/
def statusResume (execId : String) : Update :=
  finishJob ⟨.succeeded, rfl⟩ (some execId) none none

/-- The given error, unless it is absent or empty. -/
def errorOr (default : String) (error : Option String) : String :=
  if error.getD "" = "" then default else error.getD ""

/-- The update of `status_updater`. -/
def statusUpdater (manualIntervention : Bool) (error : Option String) : Update :=
  if manualIntervention then
    setManualIntervention (errorOr "rollback failed (MANUAL_INTERVENTION_REQUIRED)" error)
  else finishJob ⟨.failed, rfl⟩ none none (some (errorOr "worker failed (SFN catch)" error))

/-- A row in a status was not updated for some minutes. -/
def staleIn (status : JobStatus) (minutes now : Int) (job : Job) : Bool :=
  job.status == status && decide (job.updatedAt < now - minutes * 60000000)

/-- The reaper's update of the rows that have been running for too long. -/
def reapRunning (minutes : Int) : Update where
  guard now job := staleIn .running minutes now job
  set job := { job with status := .failed, error := some "reaped: stale running" }

/-- The reaper's update of the rows that have been queued for too long. -/
def reapQueued (minutes : Int) : Update where
  guard now job := staleIn .queued minutes now job
  set job := { job with status := .failed, error := some "reaped: stale queued" }

inductive Writer
  | claimRunning (runtime : String)
  | finishJob (status : { s : JobStatus // s.terminal }) (result artifactUri error : Option String)
  | setManualIntervention (error : String)
  | approvalNotifier (token : String) (planId : Option String)
  | recordSsmStart (execId token : String)
  | statusResume (execId : String)
  | statusUpdater (manualIntervention : Bool) (error : Option String)
  | reapRunning (minutes : Int)
  | reapQueued (minutes : Int)

def Writer.update : Writer → Update
  | claimRunning runtime => Jobs.claimRunning runtime
  | finishJob status result artifactUri error => Jobs.finishJob status result artifactUri error
  | setManualIntervention error => Jobs.setManualIntervention error
  | approvalNotifier token planId => Jobs.approvalNotifier token planId
  | recordSsmStart execId token => Jobs.recordSsmStart execId token
  | statusResume execId => Jobs.statusResume execId
  | statusUpdater manual error => Jobs.statusUpdater manual error
  | reapRunning minutes => Jobs.reapRunning minutes
  | reapQueued minutes => Jobs.reapQueued minutes

/-! ## One update -/

/-- An update is sound on the status of a row when it keeps terminal statuses, succeeds from
`running` only, and does not start a row that waits for approval. -/
structure Update.Sound (update : Update) (now : Int) (job : Job) : Prop where
  final : job.status.terminal → (update.run now job).status = job.status
  succeeded : (update.run now job).status = .succeeded →
    job.status = .running ∨ job.status = .succeeded
  awaiting : job.status = .awaitingApproval → (update.run now job).status ≠ .running

theorem run_status (update : Update) (now : Int) (job : Job) : (update.run now job).status =
      if update.guard now job then (update.set job).status else job.status := by
  unfold Update.run
  split <;> rfl

theorem sound_of_guard {update : Update} {now : Int} {job : Job}
    (hguard : update.guard now job → job.status.terminal = false)
    (hsucceeded : update.guard now job → (update.set job).status = .succeeded →
      job.status = .running)
    (hawaiting : update.guard now job → job.status = .awaitingApproval →
      (update.set job).status ≠ .running) : update.Sound now job := by
  refine ⟨fun hterminal => ?_, fun hstatus => ?_, fun hstatus => ?_⟩
  · rw [run_status, if_neg]
    intro hrun
    rw [hguard hrun] at hterminal
    cases hterminal
  · rw [run_status] at hstatus
    split at hstatus
    · rename_i hrun
      exact .inl (hsucceeded hrun hstatus)
    · exact .inr hstatus
  · rw [run_status]
    split
    · rename_i hrun
      exact hawaiting hrun hstatus
    · rw [hstatus]
      decide

theorem claim_running_sound (runtime : String) (now : Int) (job : Job) :
    (claimRunning runtime).Sound now job := by
  have hguard : (claimRunning runtime).guard now job →
      job.status = .queued ∨ job.status = .running := by simp [claimRunning]
  refine sound_of_guard (fun hrun => ?_) (fun _ h => nomatch h) (fun hrun hstatus => ?_)
  · rcases hguard hrun with h | h <;> rw [h] <;> rfl
  · rcases hguard hrun with h | h <;> rw [h] at hstatus <;> cases hstatus

theorem finish_job_sound (status : { s : JobStatus // s.terminal })
    (result artifactUri error : Option String) (now : Int) (job : Job) :
    (finishJob status result artifactUri error).Sound now job := by
  refine sound_of_guard (fun hrun => ?_) (fun hrun hsucceeded => ?_) (fun _ _ hrunning => ?_)
  · simp only [finishJob, Bool.and_eq_true, Bool.not_eq_true'] at hrun
    exact hrun.1
  · have hstatus : status.1 = .succeeded := hsucceeded
    simp only [finishJob, hstatus, bne_self_eq_false, Bool.false_or, Bool.and_eq_true,
      beq_iff_eq] at hrun
    exact hrun.2
  · have hterminal := status.2
    rw [show status.1 = .running from hrunning] at hterminal
    cases hterminal

theorem set_manual_intervention_sound (error : String) (now : Int) (job : Job) :
    (setManualIntervention error).Sound now job := by
  refine sound_of_guard (fun hrun => ?_) (fun _ h => nomatch h) (fun _ _ h => nomatch h)
  simpa [setManualIntervention] using hrun

theorem approval_notifier_sound (token : String) (planId : Option String) (now : Int) (job : Job) :
    (approvalNotifier token planId).Sound now job := by
  refine sound_of_guard (fun hrun => ?_) (fun _ h => nomatch h) (fun _ _ h => nomatch h)
  simpa [approvalNotifier] using hrun

theorem stale_in_status {status : JobStatus} {minutes now : Int} {job : Job}
    (h : staleIn status minutes now job) : job.status = status := by
  simp only [staleIn, Bool.and_eq_true, beq_iff_eq] at h
  exact h.1

theorem record_ssm_start_sound_iff (execId token : String) (now : Int) (job : Job) :
    (recordSsmStart execId token).Sound now job ↔
      job.status ≠ .manualIntervention ∧ job.status ≠ .awaitingApproval := by
  have hstatus : ((recordSsmStart execId token).run now job).status =
      if (recordSsmStart execId token).guard now job then .running else job.status :=
    run_status ..
  constructor
  · intro hsound
    constructor
    · intro hmanual
      have hfinal := hsound.final (by rw [hmanual]; rfl)
      rw [hstatus, hmanual] at hfinal
      simp [recordSsmStart, hmanual] at hfinal
    · intro hawaiting
      refine hsound.awaiting hawaiting ?_
      rw [hstatus]
      simp [recordSsmStart, hawaiting]
  · rintro ⟨hmanual, hawaiting⟩
    refine sound_of_guard (fun hrun => ?_) (fun _ h => nomatch h)
      (fun _ hstatus => absurd hstatus hawaiting)
    cases hjob : job.status <;> simp_all [recordSsmStart, JobStatus.terminal]

/-- The condition under which a writer is sound: it is not `record_ssm_start`, or the row neither
waits for approval nor for an operator. -/
def Writer.Guarded (job : Job) : Writer → Prop
  | recordSsmStart _ _ => job.status ≠ .manualIntervention ∧ job.status ≠ .awaitingApproval
  | _ => True

theorem sound_iff_guarded (writer : Writer) (now : Int) (job : Job) :
    writer.update.Sound now job ↔ writer.Guarded job := by
  cases writer with
  | recordSsmStart execId token => exact record_ssm_start_sound_iff execId token now job
  | claimRunning runtime => exact iff_true_intro (claim_running_sound runtime now job)
  | finishJob status result artifactUri error =>
    exact iff_true_intro (finish_job_sound status result artifactUri error now job)
  | setManualIntervention error => exact iff_true_intro (set_manual_intervention_sound error now job)
  | approvalNotifier token planId =>
    exact iff_true_intro (approval_notifier_sound token planId now job)
  | statusResume execId => exact iff_true_intro (finish_job_sound ..)
  | statusUpdater manual error =>
    refine iff_true_intro ?_
    cases manual with
    | true => exact set_manual_intervention_sound ..
    | false => exact finish_job_sound ..
  | reapRunning minutes =>
    refine iff_true_intro (sound_of_guard (fun hrun => ?_) (fun _ h => nomatch h)
      (fun _ _ h => nomatch h))
    rw [stale_in_status hrun]
    rfl
  | reapQueued minutes =>
    refine iff_true_intro (sound_of_guard (fun hrun => ?_) (fun _ h => nomatch h)
      (fun _ _ h => nomatch h))
    rw [stale_in_status hrun]
    rfl

/-! ## Sequences of updates -/

/-- The row after the updates of the writers, each at its time. -/
def runWriters (job : Job) (updates : List (Int × Writer)) : Job :=
  updates.foldl (fun job (now, writer) => writer.update.run now job) job

/-- What is asked of the status over a whole sequence of updates. -/
structure Lifecycle (job : Job) (updates : List (Int × Writer)) : Prop where
  /-- A terminal status never changes again. -/
  final : ∀ before middle after, updates = before ++ middle ++ after →
    (runWriters job before).status.terminal →
    (runWriters job (before ++ middle)).status = (runWriters job before).status
  /-- `succeeded` is entered from `running`. -/
  succeeded : ∀ before update after, updates = before ++ update :: after →
    (runWriters job (before ++ [update])).status = .succeeded →
    (runWriters job before).status = .running ∨ (runWriters job before).status = .succeeded
  /-- A row that waits for approval is not moved to `running`. -/
  awaiting : ∀ before update after, updates = before ++ update :: after →
    (runWriters job before).status = .awaitingApproval →
    (runWriters job (before ++ [update])).status ≠ .running

theorem run_writers_concat (job : Job) (before : List (Int × Writer)) (update : Int × Writer) :
    runWriters job (before ++ [update]) = update.2.update.run update.1 (runWriters job before) := by
  simp [runWriters]

/-- The lifecycle holds exactly when every update of the sequence is sound on the row it finds. -/
theorem lifecycle_iff_sound (job : Job) (updates : List (Int × Writer)) :
    Lifecycle job updates ↔ ∀ before update after, updates = before ++ update :: after →
      update.2.update.Sound update.1 (runWriters job before) := by
  constructor
  · intro h before update after heq
    refine ⟨fun hterminal => ?_, fun hsucceeded => ?_, fun hawaiting => ?_⟩
    · rw [← run_writers_concat]
      exact h.final before [update] after (by simpa using heq) hterminal
    · rw [← run_writers_concat] at hsucceeded
      exact h.succeeded before update after heq hsucceeded
    · rw [← run_writers_concat]
      exact h.awaiting before update after heq hawaiting
  · intro h
    refine ⟨fun before middle after heq hterminal => ?_, fun before update after heq hstatus => ?_,
      fun before update after heq hstatus => ?_⟩
    · -- one more sound update of the middle keeps the terminal status
      induction middle using List.reverseRecOn generalizing after with
      | nil => simp
      | append_singleton middle update ih =>
        have hmiddle := ih (update :: after) (by simpa using heq)
        have hsound := h (before ++ middle) update after (by simpa using heq)
        rw [← List.append_assoc, run_writers_concat, hsound.final (by rw [hmiddle]; exact hterminal)]
        exact hmiddle
    · rw [run_writers_concat] at hstatus
      exact (h before update after heq).succeeded hstatus
    · rw [run_writers_concat]
      exact (h before update after heq).awaiting hstatus

/-- For every row and every interleaving of the writers: the statuses follow the lifecycle exactly
when `record_ssm_start` never finds the row in `manual_intervention` or `awaiting_approval`. -/
theorem job_status_lifecycle (job : Job) (updates : List (Int × Writer)) :
    Lifecycle job updates ↔ ∀ before update after, updates = before ++ update :: after →
      update.2.Guarded (runWriters job before) := by
  rw [lifecycle_iff_sound]
  simp only [sound_iff_guarded]

/-- A row that was just enqueued. -/
def queuedJob : Job :=
  ⟨.queued, none, 0, none, none, none, none, none, none, 0, none, none⟩

/-- An automation is started for a claimed job, the rollback of the job fails meanwhile and waits
for an operator, and the record of the start sets the job running again. -/
theorem job_status_lifecycle_reopened :
    ¬ Lifecycle queuedJob [(1, .claimRunning "ssm"), (2, .statusUpdater true none),
      (3, .recordSsmStart "exec-1" "token-1")] := by
  intro h
  have hfinal := h.final [(1, .claimRunning "ssm"), (2, .statusUpdater true none)]
    [(3, .recordSsmStart "exec-1" "token-1")] [] rfl rfl
  cases hfinal

/-! ## The timestamps -/

/-- The timestamps that the trigger keeps: exactly the rows in a terminal status have finished, and
the times are in order. -/
structure Job.Dated (job : Job) : Prop where
  finished : job.finishedAt.isSome ↔ job.status.terminal
  ordered : ∀ finish ∈ job.finishedAt, ∀ start ∈ job.startedAt, start ≤ finish
  past : (∀ start ∈ job.startedAt, start ≤ job.updatedAt) ∧
    ∀ finish ∈ job.finishedAt, finish ≤ job.updatedAt

theorem Job.Dated.stamp {now : Int} {old : Job} (h : old.Dated) (hnow : old.updatedAt ≤ now)
    (new : Job) : (stampLifecycle now old new).Dated := by
  have hstart : ∀ start ∈ (stampLifecycle now old new).startedAt, start ≤ now := by
    intro start hmem
    simp only [stampLifecycle] at hmem
    split at hmem
    · exact Int.le_of_eq (Option.some.inj hmem).symm
    · exact Int.le_trans (h.past.1 start hmem) hnow
  have hfinish : ∀ finish ∈ (stampLifecycle now old new).finishedAt,
      new.status.terminal ∧ (finish = now ∨ finish ∈ old.finishedAt ∧ old.status.terminal) := by
    intro finish hmem
    simp only [stampLifecycle] at hmem
    split at hmem
    · rename_i hterminal
      split at hmem
      · rename_i hold
        exact ⟨hterminal, .inr ⟨hmem, hold⟩⟩
      · exact ⟨hterminal, .inl (Option.some.inj hmem).symm⟩
    · rename_i hterminal
      split at hmem
      · cases hmem
      · -- the status is as it was, so the row had not finished
        rename_i hsame
        have hstatus : new.status = old.status := not_not.mp (not_or.mp hsame).1
        have hold := h.finished.mp (Option.isSome_iff_exists.mpr ⟨finish, hmem⟩)
        rw [hstatus] at hterminal
        exact absurd hold hterminal
  refine ⟨⟨fun hsome => ?_, fun hterminal => ?_⟩, ?_, hstart, ?_⟩
  · obtain ⟨finish, hmem⟩ := Option.isSome_iff_exists.mp hsome
    exact (hfinish finish hmem).1
  · have hnew : new.status.terminal = true := hterminal
    simp only [stampLifecycle, hnew, if_true]
    split
    · rename_i hold
      exact h.finished.mpr hold
    · rfl
  · intro finish hmem start hmem'
    rcases (hfinish finish hmem).2 with rfl | ⟨hold, hterminal⟩
    · exact hstart start hmem'
    · -- a row that has finished is not claimed
      simp only [stampLifecycle] at hmem'
      split at hmem'
      · rename_i hclaimed
        simp only [Bool.and_eq_true, beq_iff_eq] at hclaimed
        rw [hclaimed.1.1.2] at hterminal
        cases hterminal
      · exact h.ordered finish hold start hmem'
  · intro finish hmem
    rcases (hfinish finish hmem).2 with rfl | ⟨hold, -⟩
    · exact Int.le_refl _
    · exact Int.le_trans (h.past.2 finish hold) hnow

theorem started_kept (update : Update) (now : Int) {job : Job} {start : Int}
    (h : job.startedAt = some start) : (update.run now job).startedAt = some start := by
  unfold Update.run
  split
  · simp [stampLifecycle, h]
  · exact h

end AwsOps.Jobs

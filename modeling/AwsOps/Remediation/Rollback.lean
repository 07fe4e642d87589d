import AwsOps.Remediation.Machine

/-!
# Rollback only after a forward action

The state machine catches every error and every timeout of the task that runs the action, and goes
to `Rollback` whether or not the action was started. `rollback_sound` says under which steps the
rollback function only follows an action that was started and has ended, and an unsuccessful
action ends as failed only behind a rollback that returned: the task is not refused and does not
fail before it starts the action, the execution does not give up on it while it or the action
goes on, the status writes go through, and the reaper leaves a claimed job alone. It holds whatever
statuses a claim accepts.
-/

namespace AwsOps.Remediation

open Forward

open Jobs (JobStatus)

/-- The rollback function was invoked only if the forward action was started and has ended, and an
action that was started and did not succeed ends as failed only if its rollback returned, and
otherwise in manual intervention. -/
structure Sound (s : State) : Prop where
  after_action : s.rollback ≠ .notInvoked → s.forward.ended = true
  failed : s.status = .failed → s.forward.unsuccessful = true → s.rollback = .returned
  ends : s.phase.over = true → s.forward.unsuccessful = true →
    s.status = .failed ∨ s.status = .manualIntervention

/-- The step does not lead into one of the gaps. -/
def Harmless (s : State) : Action → Prop
  | .refuse | .failToStart => s.phase ≠ .run
  | .record false => s.phase = .run → s.forward.ended = true
  | .crash =>
    s.phase = .run → s.task = .started ∧ s.automated = false ∨ s.forward.ended = true
  | .timeout => s.task = .over ∧ s.forward.ended = true
  | .resume .other => s.phase = .run → s.forward.ended = true
  | .writeStatus false => s.forward.unsuccessful = false
  | .reap => s.forward = .notStarted ∧ s.task ≠ .claimed
  | _ => True

/-- Nothing has been started on behalf of the job. -/
structure Untouched (s : State) : Prop where
  task : s.task = .idle
  recorded : s.recorded = false
  forward : s.forward = .notStarted
  rollback : s.rollback = .notInvoked

/-- What holds of a task at each of its points. -/
def TaskSound (s : State) : Prop :=
  match s.task with
  | .idle | .entered => s.forward = .notStarted ∧ s.recorded = false
  | .claimed => s.forward = .notStarted ∧ s.recorded = false ∧ s.status = .running
  | .started =>
    s.recorded = false ∧ s.forward ≠ .notStarted ∧ (s.automated = false → s.forward = .running)
  | .finishing => s.forward = .succeeded ∧ s.recorded = false
  | .over => s.recorded = true → s.forward ≠ .notStarted

/-- The execution no longer waits for a task, which is over. -/
structure Settled (s : State) : Prop where
  task : s.task = .over
  ended : s.forward.ended = true

/-- What holds of an execution in each of its phases. -/
def PhaseSound (s : State) : Prop :=
  match s.phase with
  | .dryRunFirst | .approvalWait => Untouched s
  | .run =>
    s.rollback = .notInvoked ∧ TaskSound s ∧
      (s.forward.unsuccessful = true → s.status = .running)
  | .rollback | .manualIntervention =>
    Settled s ∧ (s.forward.unsuccessful = true → s.status = .running)
  | .markFailed =>
    Untouched s ∨
      Settled s ∧ s.rollback = .returned ∧ (s.forward.unsuccessful = true → s.status = .running)
  | .jobFailed =>
    Untouched s ∨
      Settled s ∧ s.rollback = .returned ∧ (s.forward.unsuccessful = true → s.status = .failed)
  | .jobManual =>
    Settled s ∧ (s.forward.unsuccessful = true → s.status = .manualIntervention)
  | .succeeded =>
    s.task = .over ∧ s.forward.unsuccessful = false ∧ s.rollback = .notInvoked
  | .aborted => Untouched s ∨ Settled s ∧ s.forward.unsuccessful = false

theorem sound_of_phase {s : State} (h : PhaseSound s) : Sound s := by
  obtain ⟨phase, status, notified, branch, task, recorded, forward, rollback⟩ := s
  cases phase <;> constructor <;> simp only [PhaseSound] at h ⊢
  all_goals grind [Untouched, Settled, ended, unsuccessful, Phase.over]

variable {claimable : JobStatus → Bool} {s s' : State}

theorem waiting_of_task (h : PhaseSound s) (hidle : s.task ≠ .idle) (hover : s.task ≠ .over) :
    s.phase = .run := by
  cases hphase : s.phase <;> simp only [PhaseSound, hphase] at h
  all_goals grind [Untouched, Settled]

theorem run_sound (h : PhaseSound s) (hrun : s.phase = .run) :
    s.rollback = .notInvoked ∧ TaskSound s ∧
      (s.forward.unsuccessful = true → s.status = .running) := by
  simpa only [PhaseSound, hrun] using h

theorem caught_sound (hrun : s.phase = .run) (hsettled : Settled s)
    (hstatus : s.forward.unsuccessful = true → s.status = .running) : PhaseSound s.caught := by
  simp only [State.caught, if_pos hrun, PhaseSound]
  exact ⟨⟨hsettled.task, hsettled.ended⟩, hstatus⟩

theorem completed_sound (hrun : s.phase = .run) (htask : s.task = .over)
    (hforward : s.forward.unsuccessful = false) (hrollback : s.rollback = .notInvoked) :
    PhaseSound s.completed := by
  simp only [State.completed, if_pos hrun, PhaseSound]
  exact ⟨htask, hforward, hrollback⟩

/-! ## The task -/

theorem run_phase_sound (hrun : s.phase = .run) (hrollback : s.rollback = .notInvoked)
    (htask : TaskSound s) (hstatus : s.forward.unsuccessful = true → s.status = .running) :
    PhaseSound s := by
  simp only [PhaseSound, hrun]
  exact ⟨hrollback, htask, hstatus⟩

theorem claim_sound (h : PhaseSound s) (hs : next claimable s .claim = some s') :
    PhaseSound s' := by
  simp only [next] at hs
  split at hs
  · rename_i hentered
    have hrun := waiting_of_task h (by simp [hentered]) (by simp [hentered])
    obtain ⟨hrollback, htask, hstatus⟩ := run_sound h hrun
    simp only [TaskSound, hentered] at htask
    obtain ⟨hforward, hrecorded⟩ := htask
    split at hs
    · cases hs
      exact run_phase_sound hrun hrollback ⟨hforward, hrecorded, rfl⟩ fun _ => rfl
    · split at hs
      · cases hs
        refine run_phase_sound hrun hrollback ?_ ?_
        · intro h
          rw [show s.recorded = true from h] at hrecorded
          cases hrecorded
        · simp [hforward, unsuccessful]
      · cases hs
        exact completed_sound hrun rfl (by simp [hforward, unsuccessful]) hrollback
  · cases hs

theorem start_sound (h : PhaseSound s) (hs : next claimable s .start = some s') :
    PhaseSound s' := by
  simp only [next] at hs
  split at hs
  · rename_i hclaimed
    have hrun := waiting_of_task h (by simp [hclaimed]) (by simp [hclaimed])
    obtain ⟨hrollback, htask, -⟩ := run_sound h hrun
    simp only [TaskSound, hclaimed] at htask
    cases hs
    exact run_phase_sound hrun hrollback ⟨htask.2.1, nofun, fun _ => rfl⟩ fun _ => htask.2.2
  · cases hs

variable {ok : Bool} {a : Action}

theorem function_ends_sound (h : PhaseSound s)
    (hs : next claimable s (.functionEnds ok) = some s') : PhaseSound s' := by
  simp only [next] at hs
  split at hs
  · rename_i hcond
    obtain ⟨hstarted, hcode⟩ := hcond
    have hrun := waiting_of_task h (by simp [hstarted]) (by simp [hstarted])
    obtain ⟨hrollback, htask, hstatus⟩ := run_sound h hrun
    simp only [TaskSound, hstarted] at htask
    obtain ⟨hrecorded, -, hrunning⟩ := htask
    have hforward := hrunning (by simpa using hcode)
    split at hs
    · cases hs
      exact run_phase_sound hrun hrollback ⟨rfl, hrecorded⟩ nofun
    · cases hs
      exact caught_sound hrun ⟨rfl, rfl⟩ fun _ => hstatus (by simp [hforward, unsuccessful])
  · cases hs

theorem finish_sound (h : PhaseSound s)
    (hs : next claimable s (.finish ok) = some s') : PhaseSound s' := by
  simp only [next] at hs
  split at hs
  · rename_i hfinishing
    have hrun := waiting_of_task h (by simp [hfinishing]) (by simp [hfinishing])
    obtain ⟨hrollback, htask, hstatus⟩ := run_sound h hrun
    simp only [TaskSound, hfinishing] at htask
    obtain ⟨hforward, -⟩ := htask
    split at hs
    · cases hs
      exact completed_sound hrun rfl (by simp [hforward, unsuccessful]) hrollback
    · cases hs
      exact caught_sound hrun ⟨rfl, by simp [hforward, ended]⟩ hstatus
  · cases hs

theorem record_sound (h : PhaseSound s) (ha : Harmless s (.record ok))
    (hs : next claimable s (.record ok) = some s') : PhaseSound s' := by
  simp only [next] at hs
  split at hs
  · rename_i hcond
    obtain ⟨hstarted, -⟩ := hcond
    have hrun := waiting_of_task h (by simp [hstarted]) (by simp [hstarted])
    obtain ⟨hrollback, htask, hstatus⟩ := run_sound h hrun
    simp only [TaskSound, hstarted] at htask
    cases ok with
    | true =>
      cases hs
      refine run_phase_sound hrun hrollback (fun _ => htask.2.1) fun hunsuccessful => ?_
      simp [recordedStatus, hstatus hunsuccessful]
    | false =>
      cases hs
      exact caught_sound hrun ⟨rfl, ha hrun⟩ hstatus
  · cases hs

theorem crash_sound (h : PhaseSound s) (ha : Harmless s .crash)
    (hs : next claimable s .crash = some s') : PhaseSound s' := by
  simp only [next] at hs
  split at hs
  · cases hs
  · rename_i hgoing
    rw [not_or] at hgoing
    have hrun := waiting_of_task h hgoing.1 hgoing.2
    obtain ⟨hrollback, htask, hstatus⟩ := run_sound h hrun
    split at hs
    · rename_i hcond
      obtain ⟨hstarted, hcode⟩ := hcond
      simp only [TaskSound, hstarted] at htask
      have hforward := htask.2.2 (by simpa using hcode)
      cases hs
      exact caught_sound hrun ⟨rfl, rfl⟩ fun _ => hstatus (by simp [hforward, unsuccessful])
    · rename_i hcond
      cases hs
      refine caught_sound hrun ⟨rfl, ?_⟩ hstatus
      rcases ha hrun with ⟨hstarted, hcode⟩ | hended
      · exact absurd ⟨hstarted, by simp [hcode]⟩ hcond
      · exact hended

/-! ## The automation -/

theorem run_of_forward (h : PhaseSound s) (hforward : s.forward = .running) : s.phase = .run := by
  cases hphase : s.phase <;> simp only [PhaseSound, hphase] at h
  all_goals grind [Untouched, Settled, ended, unsuccessful]

theorem automation_ends_sound (h : PhaseSound s)
    (hs : next claimable s (.automationEnds ok) = some s') : PhaseSound s' := by
  simp only [next] at hs
  split at hs
  · rename_i hcond
    obtain ⟨hautomated, hforward⟩ := hcond
    have hrun := run_of_forward h hforward
    obtain ⟨hrollback, htask, hstatus⟩ := run_sound h hrun
    cases hs
    refine run_phase_sound hrun hrollback ?_ fun _ => hstatus (by simp [hforward, unsuccessful])
    simp only [TaskSound] at htask ⊢
    split <;> rename_i htaskEq <;> simp only [htaskEq] at htask
    all_goals grind [State.automated]
  · cases hs

theorem recorded_sound (h : PhaseSound s) (hrun : s.phase = .run) (hrecorded : s.recorded = true) :
    s.task = .over ∧ s.forward ≠ .notStarted := by
  obtain ⟨-, htask, -⟩ := run_sound h hrun
  simp only [TaskSound] at htask
  split at htask
  all_goals grind

theorem reported_failure_sound (h : PhaseSound s) (hrecorded : s.recorded = true)
    (hended : s.phase = .run → s.forward.ended = true) : PhaseSound s.caught := by
  by_cases hrun : s.phase = .run
  · obtain ⟨-, -, hstatus⟩ := run_sound h hrun
    exact caught_sound hrun ⟨(recorded_sound h hrun hrecorded).1, hended hrun⟩ hstatus
  · rwa [State.caught, if_neg hrun]

theorem resume_sound {reported : Reported} (h : PhaseSound s) (ha : Harmless s (.resume reported))
    (hs : next claimable s (.resume reported) = some s') : PhaseSound s' := by
  simp only [next] at hs
  split at hs
  · rename_i hrecorded
    cases reported with
    | ok =>
      simp only at hs
      split at hs
      · rename_i hforward
        cases hs
        by_cases hrun : s.phase = .run
        · obtain ⟨hrollback, -, -⟩ := run_sound h hrun
          exact completed_sound hrun (recorded_sound h hrun hrecorded).1
            (by simp [hforward, unsuccessful]) hrollback
        · -- a late event finds an execution that no longer waits, and a row that is not running
          rw [State.completed, if_neg hrun]
          cases hphase : s.phase <;> simp only [PhaseSound, hphase] at h ⊢
          all_goals grind [Untouched, Settled, unsuccessful]
      · cases hs
    | bad =>
      simp only at hs
      split at hs
      · rename_i hforward
        cases hs
        exact reported_failure_sound h hrecorded fun _ => by simp [hforward, ended]
      · cases hs
    | other =>
      cases hs
      exact reported_failure_sound h hrecorded ha
  · cases hs

/-! ## The execution -/

theorem approval_sound (h : PhaseSound s) (hs : next claimable s a = some s')
    (hkind : (∃ ok, a = .dryRun ok) ∨ a = .notify ∨ (∃ runtime, a = .approve runtime) ∨
      a = .approvalFails) : PhaseSound s' := by
  rcases hkind with ⟨ok, rfl⟩ | rfl | ⟨runtime, rfl⟩ | rfl <;> simp only [next] at hs <;>
    split at hs
  · rename_i hphase
    simp only [PhaseSound, hphase] at h
    cases hs
    cases ok with
    | true => exact ⟨h.task, h.recorded, h.forward, h.rollback⟩
    | false => exact .inl ⟨h.task, h.recorded, h.forward, h.rollback⟩
  · cases hs
  · rename_i hphase
    simp only [PhaseSound, hphase] at h
    cases hs
    simp only [PhaseSound, hphase]
    exact ⟨h.task, h.recorded, h.forward, h.rollback⟩
  · cases hs
  · rename_i hphase
    simp only [PhaseSound, hphase.1] at h
    cases runtime with
    | none =>
      cases hs
      exact .inl ⟨h.task, h.recorded, h.forward, h.rollback⟩
    | some branch =>
      cases hs
      refine run_phase_sound rfl h.rollback ⟨h.forward, h.recorded⟩ ?_
      simp [h.forward, unsuccessful]
  · cases hs
  · rename_i hphase
    simp only [PhaseSound, hphase] at h
    cases hs
    exact .inl ⟨h.task, h.recorded, h.forward, h.rollback⟩
  · cases hs

theorem timeout_sound (h : PhaseSound s) (ha : Harmless s .timeout)
    (hs : next claimable s .timeout = some s') : PhaseSound s' := by
  simp only [next] at hs
  split at hs
  · rename_i hrun
    obtain ⟨-, -, hstatus⟩ := run_sound h hrun
    cases hs
    exact ⟨⟨ha.1, ha.2⟩, hstatus⟩
  · cases hs

theorem rollback_phase (h : PhaseSound s) (hphase : s.phase = .rollback) :
    Settled s ∧ (s.forward.unsuccessful = true → s.status = .running) := by
  simpa only [PhaseSound, hphase] using h

theorem rollback_phase_sound (h : PhaseSound s) (hs : next claimable s a = some s')
    (hkind : a = .refuseRollback ∨ a = .invokeRollback ∨ (∃ ok, a = .rollbackEnds ok) ∨
      a = .rollbackTimeout) : PhaseSound s' := by
  rcases hkind with rfl | rfl | ⟨ok, rfl⟩ | rfl <;> simp only [next] at hs <;> split at hs
  · rename_i hphase
    obtain ⟨hsettled, hstatus⟩ := rollback_phase h hphase
    cases hs
    exact ⟨⟨hsettled.task, hsettled.ended⟩, hstatus⟩
  · cases hs
  · rename_i hphase
    obtain ⟨hsettled, hstatus⟩ := rollback_phase h hphase
    cases hs
    simp only [PhaseSound, hphase]
    exact ⟨⟨hsettled.task, hsettled.ended⟩, hstatus⟩
  · cases hs
  · rename_i hrunning
    by_cases hphase : s.phase = .rollback
    · obtain ⟨hsettled, hstatus⟩ := rollback_phase h hphase
      cases hs
      simp only [if_pos hphase]
      cases ok with
      | true => exact .inr ⟨⟨hsettled.task, hsettled.ended⟩, rfl, hstatus⟩
      | false => exact ⟨⟨hsettled.task, hsettled.ended⟩, hstatus⟩
    · -- a late return changes nothing but the rollback call, which no earlier phase has made
      cases hs
      simp only [if_neg hphase]
      cases hcase : s.phase <;> simp only [PhaseSound, hcase] at h ⊢
      all_goals grind [Untouched, Settled]
  · cases hs
  · rename_i hphase
    obtain ⟨hsettled, hstatus⟩ := rollback_phase h hphase
    cases hs
    exact ⟨⟨hsettled.task, hsettled.ended⟩, hstatus⟩
  · cases hs

theorem write_status_sound (h : PhaseSound s) (ha : Harmless s (.writeStatus ok))
    (hs : next claimable s (.writeStatus ok) = some s') : PhaseSound s' := by
  simp only [next] at hs
  split at hs
  · rename_i hphase
    simp only [PhaseSound, hphase] at h
    cases ok with
    | true =>
      cases hs
      rcases h with h | ⟨hsettled, hreturned, hstatus⟩
      · exact .inl ⟨h.task, h.recorded, h.forward, h.rollback⟩
      · refine .inr ⟨⟨hsettled.task, hsettled.ended⟩, hreturned, fun hunsuccessful => ?_⟩
        show finishFailed s.status = .failed
        rw [hstatus hunsuccessful]
        rfl
    | false =>
      cases hs
      rcases h with h | ⟨hsettled, -, -⟩
      · exact .inl ⟨h.task, h.recorded, h.forward, h.rollback⟩
      · exact .inr ⟨⟨hsettled.task, hsettled.ended⟩, ha⟩
  · rename_i hphase
    simp only [PhaseSound, hphase] at h
    obtain ⟨hsettled, hstatus⟩ := h
    cases ok with
    | true =>
      cases hs
      refine ⟨⟨hsettled.task, hsettled.ended⟩, fun hunsuccessful => ?_⟩
      show manualStatus s.status = .manualIntervention
      rw [hstatus hunsuccessful]
      rfl
    | false =>
      cases hs
      exact .inr ⟨⟨hsettled.task, hsettled.ended⟩, ha⟩
  · cases hs

theorem reap_sound (h : PhaseSound s) (ha : Harmless s .reap)
    (hs : next claimable s .reap = some s') : PhaseSound s' := by
  obtain ⟨hforward, htask⟩ := ha
  simp only [next] at hs
  split at hs
  · cases hs
    cases hphase : s.phase <;> simp only [PhaseSound, hphase, TaskSound] at h ⊢
    all_goals grind [Untouched, Settled, ended, unsuccessful]
  · cases hs

theorem phase_sound_step (h : PhaseSound s) (ha : Harmless s a)
    (hs : next claimable s a = some s') : PhaseSound s' := by
  cases a with
  | dryRun ok => exact approval_sound h hs (.inl ⟨ok, rfl⟩)
  | notify => exact approval_sound h hs (.inr (.inl rfl))
  | approve runtime => exact approval_sound h hs (.inr (.inr (.inl ⟨runtime, rfl⟩)))
  | approvalFails => exact approval_sound h hs (.inr (.inr (.inr rfl)))
  | refuse =>
    simp only [next] at hs
    split at hs
    · rename_i hentered
      exact absurd (waiting_of_task h (by simp [hentered]) (by simp [hentered])) ha
    · cases hs
  | claim => exact claim_sound h hs
  | failToStart =>
    simp only [next] at hs
    split at hs
    · rename_i hclaimed
      exact absurd (waiting_of_task h (by simp [hclaimed]) (by simp [hclaimed])) ha
    · cases hs
  | start => exact start_sound h hs
  | functionEnds ok => exact function_ends_sound h hs
  | finish ok => exact finish_sound h hs
  | record ok => exact record_sound h ha hs
  | crash => exact crash_sound h ha hs
  | timeout => exact timeout_sound h ha hs
  | automationEnds ok => exact automation_ends_sound h hs
  | resume reported => exact resume_sound h ha hs
  | refuseRollback => exact rollback_phase_sound h hs (.inl rfl)
  | invokeRollback => exact rollback_phase_sound h hs (.inr (.inl rfl))
  | rollbackEnds ok => exact rollback_phase_sound h hs (.inr (.inr (.inl ⟨ok, rfl⟩)))
  | rollbackTimeout => exact rollback_phase_sound h hs (.inr (.inr (.inr rfl)))
  | writeStatus ok => exact write_status_sound h ha hs
  | reap => exact reap_sound h ha hs

/-- In every run of harmless steps, whatever statuses a claim accepts, the rollback function only
follows an action that was started and has ended, and an unsuccessful action ends as failed only
behind a rollback that returned. -/
theorem rollback_sound (claimable : JobStatus → Bool) (s : State)
    (h : Reached claimable Harmless s) : Sound s := by
  have hphase : PhaseSound s := by
    induction h with
    | initial => exact ⟨rfl, rfl, rfl, rfl⟩
    | step _ ha hs ih => exact phase_sound_step ih ha hs
  exact sound_of_phase hphase

/-- With a claim that accepts an approved job, an action that fails is rolled back and ends as
failed. -/
theorem rollback_sound_failed_action :
    Sound ⟨.jobFailed, .failed, true, some .lambda, .over, false, .failed, .returned⟩ := by
  refine rollback_sound (fun status => !status.terminal) _ ?_
  have hstart : Reached (fun status => !status.terminal) Harmless
      ⟨.run, .running, true, some .lambda, .started, false, .running, .notInvoked⟩ :=
    .step (a := .start) (.step (a := .claim) (.step (a := .approve (some .lambda))
      (.step (a := .notify) (.step (a := .dryRun true) .initial trivial rfl) trivial rfl)
      trivial rfl) trivial rfl) trivial rfl
  exact .step (a := .writeStatus true) (.step (a := .rollbackEnds true)
    (.step (a := .invokeRollback) (.step (a := .functionEnds false) hstart trivial rfl)
    trivial rfl) trivial rfl) trivial rfl

/-- The gate refuses the action of an approved job and lets the rollback pass, so the rollback
function is invoked for an action that was never started. -/
theorem rollback_without_action :
    ∃ s, Reached claimableStatus (fun _ _ => True) s ∧ s.branch = some .lambda ∧ ¬ Sound s := by
  refine ⟨⟨.rollback, .awaitingApproval, true, some .lambda, .over, false, .notStarted,
    .running⟩, ?_, rfl, ?_⟩
  · have happroved : Reached claimableStatus (fun _ _ => True)
        ⟨.run, .awaitingApproval, true, some .lambda, .entered, false, .notStarted, .notInvoked⟩ :=
      .step (a := .approve (some .lambda)) (.step (a := .notify)
        (.step (a := .dryRun true) .initial trivial rfl) trivial rfl) trivial rfl
    exact .step (a := .invokeRollback) (.step (a := .refuse) happroved trivial rfl) trivial rfl
  · intro hsound
    cases hsound.after_action nofun

end AwsOps.Remediation

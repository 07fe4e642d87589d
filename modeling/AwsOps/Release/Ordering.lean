import AwsOps.Release.Journal

/-!
# The order of a release

Each stage keeps the order: the rollout is requested after the journal has been saved in the file,
and nothing that the file leads to requests it again. So the order holds after any invocations.
-/

namespace AwsOps.Release

open List Controller Keeps

open Py (Fields find get isText isOneOf)
open Process

variable {env : Surroundings} {log : Log} {m : Manifest} {file : Option Manifest} {k : Controller}

/-- What a stage has to do: from any file, it keeps the order. -/
abbrev Orderly (env : Surroundings) (log : Log) (p : Task Manifest) : Prop :=
  Keeps env log p fun _ log' => ∃ file, At env file log'

/-! ## Reads of several rounds -/

variable {rounds : Nat}

theorem quiet_snapshot : Task.Quiet env (k.snapshot rounds) := by
  refine quiet_wait (fun deadline _ => ?_) none _ _ rounds
  unfold readSnapshot
  refine quiet_bind quiet_service fun service => ?_
  refine quiet_bind (quiet_call ⟨rfl, rfl, rfl⟩) fun image => ?_
  refine reads_lift_bind fun _ _ => ?_
  refine quiet_bind (quiet_call ⟨rfl, rfl, rfl⟩) fun _ => ?_
  refine quiet_bind quiet_service fun after => ?_
  refine reads_lift_bind fun _ _ => ?_
  exact Reads.pure trivial

variable {supplied : Option Py} {reply : Response Failure Fields}

theorem quiet_new_deployment {intent : Intent} {deadline : Int} {first : Bool} :
    Task.Quiet env (k.newDeployment m intent supplied deadline first) := by
  unfold newDeployment
  refine quiet_bind reads_build_proof.quiet fun _ => ?_
  refine quiet_bind reads_ecr_image.quiet fun latest => ?_
  refine reads_lift_bind fun _ _ => ?_
  refine quiet_bind quiet_service fun service => ?_
  refine reads_lift_bind fun _ _ => ?_
  refine reads_lift_bind fun _ _ => ?_
  refine reads_lift_bind fun _ _ => ?_
  refine quiet_bind (quiet_call ⟨rfl, rfl, rfl⟩) fun _ => ?_
  exact Reads.pure trivial

theorem quiet_stable_wait {roll : Roll} (hroll : m.roll = some roll) :
    Task.Quiet env (waitForReads none (fun deadline _ => k.stableDeployment deadline m)
      (120 * 1000) (5 * 1000) rounds) :=
  quiet_wait (fun _ _ => (reads_stable_deployment hroll).quiet) none _ _ rounds

/-! ## The stages -/

theorem preflight_keeps (h : At env file log) : Orderly env log (k.preflight rounds) := by
  unfold preflight
  refine (keeps_file h).bind ?_
  rintro found log ⟨rfl, h⟩
  refine keeps_lift_bind h fun _ hnone => ?_
  have hnone := Option.isNone_iff_eq_none.mp (require_ok.mp hnone)
  refine keeps_reads_bind h (quiet_call ⟨rfl, rfl, rfl⟩) fun database l _ h => ?_
  refine keeps_reads_bind h (quiet_call ⟨rfl, rfl, rfl⟩) fun target l _ h => ?_
  refine keeps_lift_bind h fun _ _ => ?_
  refine keeps_reads_bind h (quiet_call ⟨rfl, rfl, rfl⟩) fun _ l _ h => ?_
  refine keeps_reads_bind h quiet_snapshot fun snapshot l _ h => ?_
  subst hnone
  refine (keeps_save h fun reply => h.sound.first h.file rfl).bind ?_
  rintro _ log ⟨h, -⟩
  refine keeps_reads_bind h (quiet_call ⟨rfl, rfl, rfl⟩) fun _ l _ h => ?_
  exact pure h ⟨_, h⟩

theorem save_keeps {m' : Manifest} (h : At env (some m) log) (hfollows : Follows m m')
    (hverified : 5 ≤ m'.stage.rank → Within (Pass m'.context m') log) :
    Orderly env log (do
      call (.save m')
      pure m') := by
  refine (keeps_save_next h hfollows hverified).bind ?_
  rintro _ log ⟨h, -⟩
  exact pure h ⟨_, h⟩

theorem record_build_keeps {digest : String} (h : At env file log) :
    Orderly env log (k.recordBuild digest) := by
  unfold recordBuild
  refine (keeps_load h).bind ?_
  rintro m log ⟨-, hstage, h⟩
  have hstage := mem_singleton.mp hstage
  refine keeps_reads_bind h reads_resolve_build fun found l _ h => ?_
  refine save_keeps h ⟨?_, rfl, ?_⟩ ?_
  · rw [hstage]
    rfl
  · rw [hstage]
    intro hrank
    exact absurd hrank (by decide)
  · intro hrank
    exact absurd (show 5 ≤ 1 from hrank) (by decide)

theorem migrate_keeps (h : At env file log) : Orderly env log k.migrate := by
  unfold migrate
  refine (keeps_load h).bind ?_
  rintro m log ⟨-, hstage, h⟩
  have hstage := mem_singleton.mp hstage
  refine keeps_reads_bind h reads_build_proof fun found l _ h => ?_
  refine keeps_reads_bind h (quiet_call ⟨rfl, rfl, rfl⟩) fun _ l _ h => ?_
  refine keeps_reads_bind h (quiet_call ⟨rfl, rfl, rfl⟩) fun _ l _ h => ?_
  refine save_keeps h ⟨?_, rfl, fun _ => rfl⟩ ?_
  · rw [hstage]
    rfl
  · intro hrank
    exact absurd (show 5 ≤ 2 from hrank) (by decide)

theorem reconcile_keeps (h : At env (some m) log)
    (hstage : m.stage = .rolling) : Orderly env log (k.reconcileRoll m supplied rounds) := by
  unfold reconcileRoll
  refine keeps_lift_bind h fun build _ => ?_
  refine keeps_lift_bind h fun intent _ => ?_
  refine keeps_reads_bind h
    (quiet_wait (fun deadline first => quiet_new_deployment) none _ _ rounds)
    fun deployment l _ h => ?_
  refine save_keeps h ⟨?_, rfl, fun _ => rfl⟩ ?_
  · rw [hstage]
    rfl
  · intro hrank
    exact absurd (show 5 ≤ 4 from hrank) (by decide)

theorem sound_put_image {build : Build} {raw : String} (h : At env (some m) log)
    (hrank : 2 ≤ m.stage.rank) (hcontext : m.context = k.context) (hbuild : m.build = some build)
    (hraw : contentDigest raw = build.digest) :
    Sound env (log ++ [⟨.aws (k.context.putImage build raw ++ k.context.options), reply⟩]) := by
  refine h.sound.snoc (saved_none rfl) nofun ?_
  intro _
  exact ⟨m, build, raw, h.file, hrank, hbuild, hraw, by rw [hcontext]⟩

theorem sound_update_service (h : At env (some m) log) (hstage : m.stage = .rolling)
    (hnone : log.countP (·.command.isUpdate) = 0) :
    Sound env (log ++ [⟨.aws (k.context.updateService ++ k.context.options), reply⟩]) := by
  refine h.sound.snoc (saved_none rfl) (fun _ => ⟨hnone, m, h.file, ?_⟩) nofun
  rw [hstage]
  decide

theorem promote_keeps {build : Build} {raw : String} (h : At env (some m) log)
    (hrank : 2 ≤ m.stage.rank) (hcontext : m.context = k.context) (hbuild : m.build = some build)
    (hraw : contentDigest raw = build.digest) :
    Keeps env log (k.promote build raw) fun _ log' => At env (some m) log' := by
  unfold promote
  refine keeps_reads_bind h reads_ecr_image fun latest l _ h => ?_
  split
  · refine (keeps_aws h fun reply => sound_put_image h hrank hcontext hbuild hraw).bind ?_
    intro response log h
    refine keeps_lift_bind h fun promoted _ => ?_
    cases require (isText build.digest promoted) "image_promotion_failed" with
    | ok u => exact pure h h
    | error e => exact throw h
  · exact pure h h

theorem roll_web_keeps (h : At env file log) : Orderly env log (k.rollWeb rounds) := by
  unfold rollWeb
  refine (keeps_load h).bind ?_
  rintro m log ⟨hcontext, hstage, h⟩
  refine keeps_lift_bind h fun _ _ => ?_
  split
  · next hrolling => exact reconcile_keeps h hrolling
  next hrolling =>
  have hmigrated : m.stage = .migrated := by
    rcases mem_cons.mp hstage with hstage | hstage
    · exact hstage
    · exact absurd (mem_singleton.mp hstage) hrolling
  have hrank : m.stage.rank = 2 := by
    rw [hmigrated]
    rfl
  refine keeps_reads_bind h quiet_snapshot fun snapshot l _ h => ?_
  refine keeps_lift_bind h fun _ _ => ?_
  refine keeps_reads_bind h reads_build_proof fun found l hfound h => ?_
  obtain ⟨hbuild, hraw⟩ := hfound
  refine (promote_keeps h (by omega) hcontext hbuild hraw).bind ?_
  intro _ log h
  refine keeps_reads_bind h reads_ecr_image fun latest l _ h => ?_
  refine keeps_lift_bind h fun _ _ => ?_
  refine keeps_reads_bind h reads_build_proof fun again l _ h => ?_
  refine keeps_reads_bind h quiet_snapshot fun snapshot l _ h => ?_
  refine keeps_lift_bind h fun _ _ => ?_
  refine keeps_reads_bind h (quiet_call ⟨rfl, rfl, rfl⟩) fun _ l _ h => ?_
  -- nothing has requested the rollout before the journal is saved
  have hnone := h.no_update (by omega)
  refine bind (keeps_save_next h ?_ ?_) ?_
  · refine ⟨?_, rfl, fun _ => rfl⟩
    rw [hmigrated]
    rfl
  · intro hverified
    exact absurd (show 5 ≤ 3 from hverified) (by decide)
  · rintro _ log ⟨h, rfl⟩
    refine (keeps_aws h fun reply => sound_update_service h rfl ?_).bind ?_
    · rw [countP_append, hnone]
      rfl
    · intro result log h
      exact reconcile_keeps h rfl

theorem verify_web_keeps {timeout poll : Int} (h : At env file log) :
    Orderly env log (k.verifyWeb timeout poll rounds) := by
  unfold verifyWeb
  refine (keeps_load h).bind ?_
  rintro m log ⟨hcontext, hstage, h⟩
  have hstage := mem_singleton.mp hstage
  refine keeps_reads_bind h (reads_wait (fun deadline _ => reads_verify deadline) none timeout poll
    rounds) fun tasks l hpass h => ?_
  refine keeps_reads_bind h (quiet_call ⟨rfl, rfl, rfl⟩) fun _ l' _ h => ?_
  refine keeps_lift_bind h fun roll _ => ?_
  refine save_keeps h ⟨?_, rfl, fun _ => rfl⟩ ?_
  · rw [hstage]
    rfl
  · intro _
    have hwithin := within_append log l' hpass
    rw [← append_assoc] at hwithin
    rw [← hcontext] at hwithin
    exact hwithin

theorem smoke_keeps (h : At env file log) : Orderly env log (k.smoke rounds) := by
  unfold smoke
  refine (keeps_load h).bind ?_
  rintro m log ⟨-, hstage, h⟩
  have hstage := mem_singleton.mp hstage
  refine keeps_reads_bind h reads_roll_proof fun roll l hroll h => ?_
  refine keeps_lift_bind h fun build _ => ?_
  refine keeps_lift_bind h fun _ _ => ?_
  refine keeps_reads_bind h (quiet_stable_wait hroll.1) fun _ l _ h => ?_
  refine keeps_reads_bind h (quiet_call ⟨rfl, rfl, rfl⟩) fun checks l _ h => ?_
  refine keeps_reads_bind h (quiet_stable_wait hroll.1) fun _ l _ h => ?_
  refine keeps_reads_bind h (quiet_call ⟨rfl, rfl, rfl⟩) fun _ l _ h => ?_
  refine save_keeps h ⟨?_, rfl, fun _ => rfl⟩ ?_
  · rw [hstage]
    rfl
  · intro _
    refine h.sound.verified m h.file ?_
    rw [hstage]
    decide

theorem check_executor_keeps (h : At env file log) : Orderly env log k.checkExecutor := by
  unfold checkExecutor
  refine (keeps_load h).bind ?_
  rintro m log ⟨-, -, h⟩
  refine keeps_reads_bind h (quiet_call ⟨rfl, rfl, rfl⟩) fun target l _ h => ?_
  refine keeps_lift_bind h fun _ _ => ?_
  refine keeps_reads_bind h (quiet_call ⟨rfl, rfl, rfl⟩) fun _ l _ h => ?_
  exact pure h ⟨_, h⟩

theorem preview_migrations_keeps (h : At env file log) : Orderly env log k.previewMigrations := by
  unfold previewMigrations
  refine (keeps_load h).bind ?_
  rintro m log ⟨-, -, h⟩
  refine keeps_reads_bind h (quiet_call ⟨rfl, rfl, rfl⟩) fun _ l _ h => ?_
  refine keeps_reads_bind h (quiet_call ⟨rfl, rfl, rfl⟩) fun _ l _ h => ?_
  exact pure h ⟨_, h⟩

theorem check_smoke_keeps (h : At env file log) : Orderly env log k.checkSmoke := by
  unfold checkSmoke
  refine (keeps_load h).bind ?_
  rintro m log ⟨-, -, h⟩
  refine keeps_reads_bind h (quiet_call ⟨rfl, rfl, rfl⟩) fun _ l _ h => ?_
  exact pure h ⟨_, h⟩

/-! ## All invocations -/

theorem main_keeps {invocation : Invocation} (h : At env file log) :
    Orderly env log (k.main rounds invocation) := by
  unfold main
  refine keeps_reads_bind h (quiet_call ⟨rfl, rfl, rfl⟩) fun _ l _ h => ?_
  cases invocation with
  | preflight => exact preflight_keeps h
  | checkSmoke => exact check_smoke_keeps h
  | checkExecutor => exact check_executor_keeps h
  | previewMigrations => exact preview_migrations_keeps h
  | recordBuild digest => exact record_build_keeps h
  | migrate => exact migrate_keeps h
  | rollWeb => exact roll_web_keeps h
  | verifyWeb timeoutSeconds pollSeconds => exact verify_web_keeps h
  | smoke => exact smoke_keeps h

theorem at_start (env : Surroundings) : At env none [] where
  ordered := by
    intro log' hlog'
    rw [prefix_nil.mp hlog']
    exact
      { stages := nil_prefix
        once := Nat.zero_le 1
        journaled := fun _ he => by cases he
        promoted := fun _ he => by cases he
        verified := fun _ hm => by cases hm }
  file := rfl

/-- The order of a release, after any invocations of its stages on one manifest: whatever the
commands meet, wherever a process dies, and at every point of the log. -/
theorem release_ordered (env : Surroundings) (invocations : List (Controller × Nat × Invocation)) :
    Ordered env (logOf env invocations) := by
  have hall : ∃ file, At env file (logOf env invocations) := by
    refine World.run_all_keeps (I := fun log => ∃ file, At env file log) ?_ ⟨none, at_start env⟩
    intro p hp s hs
    obtain ⟨⟨k, rounds, invocation⟩, -, rfl⟩ := mem_map.mp hp
    obtain ⟨file, hat⟩ := hs
    exact (main_keeps hat).mono (fun _ _ hr => hr.1) fun _ hI => hI
  obtain ⟨file, hat⟩ := hall
  exact hat.ordered

end AwsOps.Release

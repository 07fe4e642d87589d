import AwsOps.Foundation.Fallible
import AwsOps.Release.Stages

/-!
# What a pass of reads shows

A read of the controller leaves its responses in the log. From what it returns one can tell what
the log holds: the description of a stable service, the pages of a listing, the descriptions of the
tasks.
-/

namespace AwsOps.Release

open List Bool Controller

open Py (Fields find get isText isOneOf)
open Process

/-! ## Commands that change nothing -/

/-- The call starts a rollout. -/
def Command.isUpdate : Command → Bool
  | .aws ("ecs" :: "update-service" :: _) => true
  | _ => false

/-- The call tags an image. -/
def Command.isPutImage : Command → Bool
  | .aws ("ecr" :: "put-image" :: _) => true
  | _ => false

/-- The command saves the manifest. -/
def Command.isSave : Command → Bool
  | .save _ => true
  | _ => false

/-- The command changes neither the file nor anything outside that matters. -/
def Command.Quiet (c : Command) : Prop :=
  c.isUpdate = false ∧ c.isPutImage = false ∧ c.isSave = false

variable {env : Surroundings} {α β : Type}

/-- The task only reads, and its value and what it adds to the log satisfy the assertion. -/
abbrev Task.Reads (env : Surroundings) (p : Task α) (Q : α → Log → Prop) : Prop :=
  Process.Reads env.answer Command.Quiet p Q

/-- The task only reads. -/
abbrev Task.Quiet (env : Surroundings) (p : Task α) : Prop :=
  Task.Reads env p fun _ _ => True

theorem reads_lift {x : Except Failure α} {Q : α → Log → Prop} (h : ∀ a, x = .ok a → Q a []) :
    Task.Reads env (lift x) Q := by
  cases x with
  | ok a => exact Reads.pure (h a rfl)
  | error e => exact Reads.throw

variable {f : α → Task β} {p : Task α} {k : Controller} {deadline : Option Int}
  {read : Int → Bool → Task α} {code : String}

variable {Q : β → Log → Prop} {args : List String} {P : α → Log → Prop} {condition : Bool}

theorem reads_lift_bind {x : Except Failure α}
    (h : ∀ a, x = .ok a → Task.Reads env (f a) Q) : Task.Reads env (lift x >>= f) Q := by
  refine Reads.bind (Q := fun a l => x = .ok a ∧ l = []) (reads_lift fun a ha => ⟨ha, rfl⟩) ?_
  rintro a l ⟨ha, rfl⟩
  exact h a ha

theorem reads_quiet_bind (hp : Task.Quiet env p) (hf : ∀ a, Task.Reads env (f a) Q)
    (hQ : ∀ b l l', Q b l' → Q b (l ++ l')) : Task.Reads env (p >>= f) Q := by
  refine Reads.bind hp ?_
  intro a l _
  exact (hf a).mono fun b l' => hQ b l l'

theorem quiet_bind (hp : Task.Quiet env p)
    (hf : ∀ a, Task.Quiet env (f a)) : Task.Quiet env (p >>= f) :=
  reads_quiet_bind hp hf fun _ _ _ h => h

theorem quiet_call {c : Command} (h : c.Quiet) : Task.Quiet env (call c) :=
  Reads.command h fun _ => trivial

theorem Task.Reads.quiet {Q : α → Log → Prop} (h : Task.Reads env p Q) : Task.Quiet env p :=
  Reads.mono h fun _ _ _ => trivial

/-! ## The responses -/

/-- The end of the arguments of each call. -/
def Context.options (c : Context) : List String :=
  ["--region", c.region, "--output", "json", "--no-cli-pager", "--cli-connect-timeout", "10",
    "--cli-read-timeout", "30"]

/-- The pages of `list-tasks` in the log, each with its arguments. -/
def Log.pages (l : Log) : List (List String × Fields) :=
  l.filterMap fun e =>
    match e with
    | ⟨.aws ("ecs" :: "list-tasks" :: rest), .ok page⟩ => some ("ecs" :: "list-tasks" :: rest, page)
    | _ => none

theorem pages_append (l l' : Log) : Log.pages (l ++ l') = Log.pages l ++ Log.pages l' :=
  filterMap_append

theorem reads_aws (hquiet : (Command.aws (args ++ k.context.options)).Quiet) :
    Task.Reads env (k.aws deadline args) fun result l =>
      ∃ l', l = l' ++ [⟨.aws (args ++ k.context.options), .ok result⟩] ∧ Log.pages l' = [] := by
  have hlast : Task.Reads env (call (.aws (args ++ k.context.options))) fun result l =>
      l = [⟨.aws (args ++ k.context.options), .ok result⟩] :=
    Reads.command hquiet fun _ => rfl
  unfold aws
  cases deadline with
  | none => exact hlast.mono fun result l hl => ⟨[], hl, rfl⟩
  | some deadline =>
    refine Reads.bind (Q := fun (_ : Int) l => Log.pages l = []) ?_ ?_
    · exact Reads.command ⟨rfl, rfl, rfl⟩ fun _ => rfl
    · intro now l hl
      refine reads_lift_bind fun _ _ => ?_
      exact hlast.mono fun result l' hl' => ⟨l, by rw [hl'], hl⟩

theorem quiet_aws (hquiet : (Command.aws (args ++ k.context.options)).Quiet) :
    Task.Quiet env (k.aws deadline args) :=
  (reads_aws hquiet).quiet

/-! ## Waiting -/

/-- What is shown by a part of the log is shown by the log. -/
def Within (P : Log → Prop) (l : Log) : Prop :=
  ∃ before mid after, l = before ++ (mid ++ after) ∧ P mid

theorem within_self {P : Log → Prop} {l : Log} (h : P l) : Within P l :=
  ⟨[], l, [], by simp, h⟩

theorem within_append {P : Log → Prop} {l : Log} (before after : Log) (h : Within P l) :
    Within P (before ++ (l ++ after)) := by
  obtain ⟨before', mid, after', rfl, hmid⟩ := h
  exact ⟨before ++ before', mid, after' ++ after, by simp, hmid⟩

theorem reads_wait_loop
    (hread : ∀ limit first, Task.Reads env (read limit first) fun a l => Within (P a) l)
    (limit poll : Int) (first : Bool) (rounds : Nat) :
    Task.Reads env (waitForReads.loop read limit poll first rounds) fun a l => Within (P a) l := by
  have hbefore : ∀ (a : α) (l l' : Log), Within (P a) l' → Within (P a) (l ++ l') := by
    intro a l l' h
    have := within_append l [] h
    rwa [append_nil] at this
  induction rounds generalizing first with
  | zero => exact Reads.throw
  | succ rounds ih =>
    unfold waitForReads.loop
    refine reads_quiet_bind (quiet_call ⟨rfl, rfl, rfl⟩) (fun start => ?_) hbefore
    refine reads_lift_bind fun _ _ => ?_
    refine Reads.tryCatch ?_ (fun e => ?_) hbefore
    · refine Reads.bind (hread limit first) ?_
      intro a l hl
      refine Reads.bind (Q := fun _ _ => True) (quiet_call ⟨rfl, rfl, rfl⟩) ?_
      intro now l' _
      refine reads_lift_bind fun _ _ => Reads.pure ?_
      rw [append_nil]
      exact within_append [] l' hl
    · split
      · refine reads_quiet_bind (quiet_call ⟨rfl, rfl, rfl⟩) (fun now => ?_) hbefore
        refine reads_lift_bind fun _ _ => ?_
        refine reads_quiet_bind (quiet_call ⟨rfl, rfl, rfl⟩) (fun _ => ?_) hbefore
        exact ih false
      · exact Reads.throw

theorem reads_wait
    (hread : ∀ limit first, Task.Reads env (read limit first) fun a l => Within (P a) l)
    (deadline : Option Int) (timeout poll : Int) (rounds : Nat) :
    Task.Reads env (waitForReads deadline read timeout poll rounds)
      fun a l => Within (P a) l := by
  unfold waitForReads
  refine reads_lift_bind fun _ _ => ?_
  refine reads_quiet_bind (quiet_call ⟨rfl, rfl, rfl⟩) (fun now => ?_) ?_
  · exact reads_wait_loop hread _ poll true rounds
  · intro a l l' h
    have := within_append l [] h
    rwa [append_nil] at this

theorem quiet_wait (hread : ∀ limit first, Task.Quiet env (read limit first))
    (deadline : Option Int) (timeout poll : Int) (rounds : Nat) :
    Task.Quiet env (waitForReads deadline read timeout poll rounds) := by
  refine Task.Reads.quiet (reads_wait (P := fun _ _ => True) ?_ deadline timeout poll rounds)
  intro limit first
  exact (hread limit first).mono fun a l _ => within_self trivial

/-! ## Images -/

theorem require_ok {u : Unit} : require condition code = .ok u ↔ condition = true := by
  unfold require
  split <;> simp_all

theorem ready_ok {u : Unit} : ready condition code = .ok u ↔ condition = true := by
  unfold ready
  split <;> simp_all

theorem expect_ok {value : Option α} {a : α} : expect value code = .ok a ↔ value = some a := by
  unfold expect
  split <;> simp_all

theorem recorded_ok {part : Option α} {a : α} : recorded part = .ok a ↔ part = some a := by
  unfold recorded
  split <;> simp_all

theorem expect_all {decode : Py → Option α} {encode : α → Py} {items : List Py} {results : List α}
    (hdecode : ∀ item a, decode item = some a → item = encode a)
    (h : items.mapM (fun item => expect (decode item) code) = .ok results) :
    items = results.map encode := by
  have heach := mapM_ok h
  clear h
  induction heach with
  | nil => rfl
  | cons hitem _ ih => rw [map_cons, ← ih, ← hdecode _ _ (expect_ok.mp hitem)]

theorem str_of_some {value : Py} {text : String} (h : value.asStr = some text) :
    value = .str text := by
  cases value <;> simp_all [Py.asStr]

theorem dict_of_some {value : Py} {fields : Fields} (h : value.asDict = some fields) :
    value = .dict fields := by
  cases value <;> simp_all [Py.asDict]

theorem read_image_digest {key value : String} {response : Fields} {image : Image}
    (h : k.readImage key value response = .ok image) : contentDigest image.raw = image.digest := by
  simp only [readImage, bind_eq_ok, require_ok, pure_eq_ok] at h
  obtain ⟨data, -, imageId, -, -, -, digest, -, raw, -, -, -, -, hcontent, manifest, -, fields, -,
    mediaType, -, -, -, -, -, rfl⟩ := h
  exact eq_of_beq hcontent

theorem reads_ecr_image {key value : String} :
    Task.Reads env (k.ecrImage deadline key value) fun image _ =>
      contentDigest image.raw = image.digest := by
  unfold ecrImage
  refine reads_quiet_bind (quiet_aws ⟨rfl, rfl, rfl⟩) (fun response => ?_) fun _ _ _ h => h
  exact reads_lift fun image h => read_image_digest h

theorem reads_resolve_build {expected : Option String} :
    Task.Reads env (k.resolveBuild deadline expected) fun found _ =>
      contentDigest found.2 = found.1.digest := by
  unfold resolveBuild
  refine reads_lift_bind fun expected _ => ?_
  refine Reads.bind reads_ecr_image ?_
  intro image l himage
  refine reads_lift_bind fun _ _ => ?_
  refine reads_lift_bind fun mediaType _ => ?_
  split
  · refine reads_lift_bind fun children _ => ?_
    refine reads_lift_bind fun _ _ => ?_
    refine reads_lift_bind fun fields _ => ?_
    refine reads_lift_bind fun marked _ => ?_
    split
    · refine reads_lift_bind fun arm _ => ?_
      refine reads_lift_bind fun _ _ => ?_
      refine reads_quiet_bind reads_ecr_image.quiet (fun armImage => ?_) fun _ _ _ h => h
      refine reads_lift_bind fun _ _ => ?_
      refine reads_lift_bind fun _ _ => ?_
      exact Reads.pure himage
    · exact Reads.throw
  · refine reads_lift_bind fun _ _ => ?_
    exact Reads.pure himage

theorem reads_build_proof {m : Manifest} : Task.Reads env (k.buildProof deadline m) fun found _ =>
      m.build = some found.1 ∧ contentDigest found.2 = found.1.digest := by
  unfold buildProof
  refine Reads.bind reads_resolve_build ?_
  rintro ⟨actual, raw⟩ l hdigest
  refine reads_lift_bind fun _ hsame => ?_
  exact Reads.pure ⟨eq_of_beq (require_ok.mp hsame), hdigest⟩

/-! ## The service -/

def ShowsService (c : Context) (P : Service → Prop) (e : Entry Command Answer Failure) : Prop :=
  ∃ result data service, e = ⟨.aws (c.describeServices ++ c.options), .ok result⟩ ∧
    describedService result = .ok data ∧ Service.read c data = .ok service ∧ P service

/-- The last entry of the log shows the service, and the rest lists no tasks. -/
def EndsWithService (c : Context) (P : Service → Prop) (l : Log) : Prop :=
  ∃ l' e, l = l' ++ [e] ∧ Log.pages l' = [] ∧ ShowsService c P e

theorem reads_service : Task.Reads env (k.service deadline none) fun service l =>
      EndsWithService k.context (· = service) l := by
  unfold service
  refine Reads.bind (reads_aws ⟨rfl, rfl, rfl⟩) ?_
  rintro result l ⟨l', rfl, hpages⟩
  refine reads_lift_bind fun data hdata => ?_
  refine reads_lift fun service hservice => ?_
  rw [append_nil]
  exact ⟨l', _, rfl, hpages, result, data, service, rfl, hdata, hservice, rfl⟩

theorem quiet_service {data : Option Py} : Task.Quiet env (k.service deadline data) := by
  unfold service
  cases data with
  | none =>
    refine quiet_bind (quiet_aws ⟨rfl, rfl, rfl⟩) fun result => ?_
    refine reads_lift_bind fun data _ => ?_
    exact reads_lift fun _ _ => trivial
  | some data => exact reads_lift fun _ _ => trivial

/-- What a stable read of a deployment shows: it is the primary one, its rollout has completed, and
the service runs nothing else. -/
structure StableDeployment (snapshot : Snapshot) (deployment : String) (s : Service) : Prop where
  primary : s.primary.id = deployment
  desired : s.desiredCount = snapshot.desiredCount
  completed : s.primary.rolloutState = .str "COMPLETED"
  running : s.primary.runningCount = s.desiredCount
  total : s.runningCount = s.desiredCount
  others : ∀ d ∈ s.deployments, d.id ≠ s.primary.id → d.runningCount = 0 ∧ d.pendingCount = 0

theorem text_eq {text : String} {value : Py} (h : isText text value = true) : value = .str text :=
  str_of_some (eq_of_beq h)

theorem reads_stable_deployment {m : Manifest} {roll : Roll} (hroll : m.roll = some roll) :
    Task.Reads env (k.stableDeployment deadline m) fun _ l =>
      EndsWithService k.context (StableDeployment m.snapshot roll.deploymentId) l := by
  unfold stableDeployment currentDeployment
  refine Reads.bind (Q := fun service l => EndsWithService k.context (· = service) l ∧
    service.desiredCount = m.snapshot.desiredCount ∧ service.primary.id = roll.deploymentId) ?_ ?_
  · refine Reads.bind reads_service ?_
    intro service l hservice
    refine reads_lift_bind fun _ hsnapshot => ?_
    refine reads_lift_bind fun found hfound => ?_
    refine reads_lift_bind fun _ hprimary => ?_
    refine reads_lift_bind fun _ _ => ?_
    refine Reads.pure ?_
    simp only [require_ok, and_eq_true, decide_eq_true_eq] at hsnapshot
    rw [recorded_ok, hroll, Option.some.injEq] at hfound
    rw [ready_ok, beq_iff_eq, ← hfound] at hprimary
    rw [append_nil]
    exact ⟨hservice, hsnapshot.2, hprimary⟩
  · rintro service l ⟨⟨l', e, rfl, hpages, hshows⟩, hdesired, hprimary⟩
    refine reads_lift fun _ hstable => ?_
    simp only [Service.stable, bind_eq_ok, require_ok, ready_ok, decide_eq_true_eq,
      all_eq_true, or_eq_true, beq_iff_eq, and_eq_true] at hstable
    obtain ⟨-, -, -, hcompleted, -, ⟨htotal, -, -, hrunning, -⟩, hothers⟩ := hstable
    obtain ⟨result, data, service', he, hdata, hread, rfl⟩ := hshows
    rw [append_nil]
    refine ⟨l', e, rfl, hpages, result, data, service', he, hdata, hread, ?_⟩
    exact
      { primary := hprimary
        desired := hdesired
        completed := text_eq hcompleted
        running := hrunning
        total := htotal
        others := fun d hd hne => (hothers d hd).resolve_left hne }

/-! ## The running tasks -/

/-- A complete listing: each page is asked for with the token of the page before, and the last page
has none. -/
inductive Listing (c : Context) : Option String → List (List String × Fields) → List Py → Prop
  | last {token : Option String} {page : Fields} {items : List Py}
      (hitems : (get page "taskArns").asList = some items)
      (hnone : (get page "nextToken").truthy = false) :
      Listing c token [(c.listTasks token ++ c.options, page)] items
  | more {token : Option String} {page : Fields} {items rest : List Py} {next : String}
      {pages : List (List String × Fields)} (hitems : (get page "taskArns").asList = some items)
      (hnext : (get page "nextToken").asStr = some next) (hrest : Listing c (some next) pages rest) :
      Listing c token ((c.listTasks token ++ c.options, page) :: pages) (items ++ rest)

theorem reads_list_tasks (pages : Nat) (arns : List Py) (token : Option String) :
    Task.Reads env (k.listTasks deadline pages arns token) fun listed l =>
      listed.2 = false → ∃ items, listed.1 = arns ++ items ∧
        Listing k.context token (Log.pages l) items := by
  induction pages generalizing arns token with
  | zero => exact Reads.pure nofun
  | succ pages ih =>
    unfold listTasks
    refine Reads.bind (reads_aws ⟨rfl, rfl, rfl⟩) ?_
    rintro page l ⟨l', rfl, hpages⟩
    have hpage : Log.pages (l' ++
        [⟨.aws (k.context.listTasks token ++ k.context.options), .ok page⟩]) =
        [(k.context.listTasks token ++ k.context.options, page)] := by
      rw [pages_append, hpages]
      rfl
    refine reads_lift_bind fun items hitems => ?_
    have hitems := expect_ok.mp hitems
    split
    · refine reads_lift_bind fun next hnext => ?_
      have hnext := expect_ok.mp hnext
      refine (ih (arns ++ items) (some next)).mono ?_
      intro listed l'' h hall
      obtain ⟨rest, hlisted, hrest⟩ := h hall
      refine ⟨items ++ rest, by rw [hlisted, append_assoc], ?_⟩
      rw [pages_append, hpage]
      exact .more hitems hnext hrest
    · next hnone =>
      refine Reads.pure fun _ => ⟨items, rfl, ?_⟩
      rw [append_nil, hpage]
      exact .last hitems (not_eq_true _ ▸ hnone)

structure RunsTask (roll : Roll) (build : Build) (arn : String) (task : Fields) : Prop where
  arn : get task "taskArn" = .str arn
  deployment : get task "startedBy" = .str roll.deploymentId
  status : get task "lastStatus" = .str "RUNNING"
  health : get task "healthStatus" = .str "HEALTHY"
  web : ∃ web digest, webContainer task = .ok web ∧ get web "lastStatus" = .str "RUNNING" ∧
    get web "healthStatus" = .str "HEALTHY" ∧ get web "imageDigest" = .str digest ∧
    digest ∈ [build.digest, build.arm64Digest]

theorem one_of_eq {texts : List String} {value : Py} (h : isOneOf texts value = true) :
    ∃ text ∈ texts, value = .str text := by
  cases value <;> simp_all [isOneOf, Py.asStr]

variable {m : Manifest} {roll : Roll} {build : Build} {batch : List String}

theorem check_task_ok {c : Context} {checked : List String} {task : Fields}
    {result : String × String} (hroll : m.roll = some roll) (hbuild : m.build = some build)
    (h : checkTask c m batch checked task = .ok result) : RunsTask roll build result.1 task := by
  simp only [checkTask, bind_eq_ok, require_ok, ready_ok, expect_ok, recorded_ok, pure_eq_ok,
    hroll, hbuild, Option.some.injEq, and_eq_true] at h
  obtain ⟨_, rfl, _, rfl, arn, harn, -, -, -, ⟨hdeployment, -⟩, -, ⟨⟨hstatus, -⟩, hhealth⟩, web, hweb,
    -, -, -, ⟨⟨hwebStatus, hwebHealth⟩, hdigest⟩, rfl⟩ := h
  obtain ⟨digest, hmem, hdigest⟩ := one_of_eq hdigest
  exact
    { arn := str_of_some (Option.filter_eq_some_iff.mp harn).1
      deployment := text_eq hdeployment
      status := text_eq hstatus
      health := text_eq hhealth
      web := ⟨web, digest, hweb, text_eq hwebStatus, text_eq hwebHealth, hdigest, hmem⟩ }

theorem check_tasks_ok {c : Context} {seen seen' : List String × List String} {tasks : List Fields}
    (hroll : m.roll = some roll) (hbuild : m.build = some build)
    (h : checkTasks c m batch seen tasks = .ok seen') :
    ∀ arn ∈ seen'.1, arn ∈ seen.1 ∨ ∃ task ∈ tasks, RunsTask roll build arn task := by
  induction tasks generalizing seen with
  | nil =>
    cases h
    exact fun arn harn => .inl harn
  | cons task rest ih =>
    obtain ⟨⟨arn, digest⟩, htask, h⟩ := bind_eq_ok.mp h
    intro a ha
    rcases ih h a ha with hseen | ⟨task', hmem, hruns⟩
    · rcases mem_append.mp hseen with hseen | hnew
      · exact .inl hseen
      · rw [mem_singleton.mp hnew]
        exact .inr ⟨task, mem_cons_self, check_task_ok hroll hbuild htask⟩
    · exact .inr ⟨task', mem_cons_of_mem _ hmem, hruns⟩

/-- The entry shows the task to run the build, for the deployment. -/
def ShowsTask (c : Context) (roll : Roll) (build : Build) (arn : String)
    (e : Entry Command Answer Failure) : Prop :=
  ∃ batch result items task, e = ⟨.aws (c.describeTasks batch ++ c.options), .ok result⟩ ∧
    (get result "tasks").asList = some items ∧ .dict task ∈ items ∧ RunsTask roll build arn task

theorem described_tasks_ok {result : Fields} {tasks : List Fields}
    (h : describedTasks batch result = .ok tasks) :
    ∃ items, (get result "tasks").asList = some items ∧ ∀ task ∈ tasks, .dict task ∈ items := by
  simp only [describedTasks, bind_eq_ok, require_ok, ready_ok, expect_ok, pure_eq_ok] at h
  obtain ⟨items, hitems, found, hfound, -, -, -, -, -, -, rfl⟩ := h
  refine ⟨items, hitems, ?_⟩
  intro task htask
  rw [expect_all (fun _ _ => dict_of_some) hfound]
  exact mem_map_of_mem htask

theorem reads_describe_tasks (hroll : m.roll = some roll) (hbuild : m.build = some build)
    (batches : List (List String)) (seen : List String × List String) :
    Task.Reads env (k.describeTasks deadline m batches seen) fun seen' l =>
      Log.pages l = [] ∧ ∀ arn ∈ seen'.1, arn ∈ seen.1 ∨
        ∃ e ∈ l, ShowsTask k.context roll build arn e := by
  induction batches generalizing seen with
  | nil => exact Reads.pure ⟨rfl, fun arn h => .inl h⟩
  | cons batch rest ih =>
    unfold describeTasks
    refine Reads.bind (reads_aws ⟨rfl, rfl, rfl⟩) ?_
    rintro result l ⟨l', rfl, hpages⟩
    refine reads_lift_bind fun tasks htasks => ?_
    refine reads_lift_bind fun seen' hseen' => ?_
    refine (ih seen').mono ?_
    rintro seen'' l'' ⟨hpages', hall⟩
    refine ⟨?_, ?_⟩
    · rw [pages_append, pages_append, hpages, hpages']
      rfl
    · intro arn harn
      rcases hall arn harn with harn | ⟨e, he, hshows⟩
      · rcases check_tasks_ok hroll hbuild hseen' arn harn with harn | ⟨task, htask, hruns⟩
        · exact .inl harn
        · obtain ⟨items, hitems, hmem⟩ := described_tasks_ok htasks
          refine .inr ⟨⟨.aws (k.context.describeTasks batch ++ k.context.options), .ok result⟩, ?_,
            batch, result, items, task, rfl, hitems, hmem task htask, hruns⟩
          exact mem_append_left _ (mem_append_right _ (mem_singleton.mpr rfl))
      · exact .inr ⟨e, mem_append_right _ he, hshows⟩

/-- The log lists the desired number of distinct tasks, and shows each to run the build. -/
def RunsBuild (c : Context) (snapshot : Snapshot) (roll : Roll) (build : Build) (l : Log) : Prop :=
  ∃ arns : List String, Listing c none (Log.pages l) (arns.map .str) ∧
    (arns.length : Int) = snapshot.desiredCount ∧ arns.Nodup ∧
    ∀ arn ∈ arns, ∃ e ∈ l, ShowsTask c roll build arn e

theorem reads_running_tasks (hroll : m.roll = some roll) (hbuild : m.build = some build) :
    Task.Reads env (k.runningTasks deadline m) fun _ l =>
      RunsBuild k.context m.snapshot roll build l := by
  unfold runningTasks
  refine Reads.bind (reads_list_tasks 10 [] none) ?_
  rintro ⟨listed, more⟩ l hlisted
  refine reads_lift_bind fun arns harns => ?_
  refine reads_lift_bind fun _ hready => ?_
  refine Reads.bind (reads_describe_tasks hroll hbuild (batches arns) ([], [])) ?_
  rintro ⟨checked, digests⟩ l' ⟨hpages, hchecked⟩
  refine reads_lift_bind fun _ hall => ?_
  refine Reads.pure ?_
  simp only [ready_ok, and_eq_true, not_eq_true', decide_eq_true_eq] at hready
  obtain ⟨⟨hmore, hlength⟩, hnodup⟩ := hready
  simp only [require_ok, and_eq_true, all_eq_true, contains_iff_mem] at hall
  obtain ⟨items, hitems, hlisting⟩ := hlisted hmore
  have hmap : listed = arns.map .str :=
    expect_all (fun _ _ h => str_of_some (Option.filter_eq_some_iff.mp h).1) harns
  refine ⟨arns, ?_, hlength, hnodup, ?_⟩
  · have hlisted : listed = items := hitems
    rw [append_nil, pages_append, hpages, append_nil, ← hmap, hlisted]
    exact hlisting
  · intro arn harn
    rcases hchecked arn (hall.2 arn harn) with hnil | ⟨e, he, hshows⟩
    · cases hnil
    · exact ⟨e, mem_append_right _ (mem_append_left _ he), hshows⟩

/-! ## The pass -/

/-- Between two stable reads of the new deployment, its tasks run the recorded build. -/
def Pass (c : Context) (m : Manifest) (l : Log) : Prop :=
  ∃ roll build first tasks last, l = first :: (tasks ++ [last]) ∧ m.roll = some roll ∧
    m.build = some build ∧ roll.deploymentId ≠ m.snapshot.primaryId ∧
    ShowsService c (StableDeployment m.snapshot roll.deploymentId) first ∧
    RunsBuild c m.snapshot roll build tasks ∧
    ShowsService c (StableDeployment m.snapshot roll.deploymentId) last

theorem reads_roll_proof : Task.Reads env (k.rollProof deadline m) fun roll _ =>
      m.roll = some roll ∧ roll.deploymentId ≠ m.snapshot.primaryId ∧ ∃ build, m.build = some build := by
  unfold rollProof
  refine reads_lift_bind fun _ _ => ?_
  refine reads_lift_bind fun roll hroll => ?_
  obtain ⟨hroll, hchecks⟩ := Option.filter_eq_some_iff.mp (expect_ok.mp hroll)
  have hnew : roll.deploymentId ≠ m.snapshot.primaryId := by
    simp only [and_eq_true, bne_iff_ne] at hchecks
    exact hchecks.2
  refine Reads.bind reads_build_proof ?_
  rintro ⟨build, raw⟩ l ⟨hbuild, -⟩
  refine reads_quiet_bind reads_ecr_image.quiet (fun latest => ?_) fun _ _ _ h => h
  refine reads_lift_bind fun _ _ => ?_
  exact Reads.pure ⟨hroll, hnew, build, hbuild⟩

theorem reads_verify (deadline : Int) :
    Task.Reads env (k.verifyRead m deadline) fun _ l => Within (Pass k.context m) l := by
  unfold verifyRead
  refine Reads.bind reads_roll_proof ?_
  rintro roll proof ⟨hroll, hnew, build, hbuild⟩
  refine Reads.bind (reads_stable_deployment hroll) ?_
  rintro _ _ ⟨before, first, rfl, -, hfirst⟩
  refine Reads.bind (reads_running_tasks hroll hbuild) ?_
  rintro tasks listing ⟨arns, hlisting, hlength, hnodup, htasks⟩
  refine Reads.bind (reads_stable_deployment hroll) ?_
  rintro _ _ ⟨between, last, rfl, hpages, hlast⟩
  refine Reads.pure ⟨proof ++ before, first :: ((listing ++ between) ++ [last]), [], ?_, ?_⟩
  · simp
  · refine ⟨roll, build, first, listing ++ between, last, rfl, hroll, hbuild, hnew, hfirst, ?_, hlast⟩
    refine ⟨arns, ?_, hlength, hnodup, ?_⟩
    · rw [pages_append, hpages, append_nil]
      exact hlisting
    · intro arn harn
      obtain ⟨e, he, hshows⟩ := htasks arn harn
      exact ⟨e, mem_append_left _ he, hshows⟩

end AwsOps.Release

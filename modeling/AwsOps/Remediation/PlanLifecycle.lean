import AwsOps.Remediation.Approval

/-!
# The life of a plan

Approving a plan is guarded by one conditional update, so a plan has at most one ledger row and
one queue message, and both only behind an approval by somebody else in time. Two gaps are left:
canceling answers `canceled` whatever its update finds, and the ledger row follows the approving
update as a statement of its own. `plan_lifecycle` says that these are the only ones: when every
cancel finds its plan open or canceled, the rest of the law fails in exactly those states in which
an approval is in and its ledger row is not.
-/

namespace AwsOps.Remediation

open List Bool Follows

/-- How far a request has come. -/
inductive Stage where
  | start
  | read (planId : Uuid) (plan : Plan)
  | approved (planId jobId : Uuid)
  | inserted (planId jobId : Uuid)
  | canceled (planId : Uuid)
  | ended

/-- The statements that a request may issue at each stage, and the stage after their answers. -/
def protocol : Protocol Statement Statement.Answer Stage where
  initial := .start
  allowed stage c :=
    match stage, c with
    | .start, .getPlan _ | .start, .createPlan .. => True
    | .read .., .getAction _ | .read .., .killSwitchOn _ | .read .., .recordAudit _ => True
    | .read planId _, .cancel other => other = planId
    | .read planId plan, .setApprovedAndExecuting other _ =>
      other = planId ∧ '@' ∉ plan.createdBy.toList
    | .approved planId jobId, .insertJob job => job.planId = planId ∧ job.jobId = jobId
    | .inserted planId jobId, .sendMessage message =>
      message.planId = planId ∧ message.jobId = jobId
    | .inserted .., .recordAudit _ | .canceled _, .recordAudit _ | .ended, .recordAudit _ => True
    | _, _ => False
  after stage c answer :=
    match stage, c, answer with
    | .start, .getPlan planId, some (plan, _) => .read planId plan
    | .start, .getPlan _, none => .ended
    | .start, .createPlan .., _ => .ended
    | .read .., .cancel planId, _ => .canceled planId
    | .read .., .setApprovedAndExecuting planId _, some jobId => .approved planId jobId
    | .read .., .setApprovedAndExecuting .., none => .ended
    | .approved planId jobId, .insertJob _, _ => .inserted planId jobId
    | .inserted .., .sendMessage _, _ => .ended
    | stage, _, _ => stage

/-- A request that answers `canceled` has executed the cancel of that plan. -/
def Answers (response : Response) (stage : Stage) : Prop :=
  ∀ planId, response = .canceled planId → stage = .canceled planId

/-! ## Requests keep to the protocol -/

theorem answers_of_ne {response : Response} {stage : Stage}
    (h : ∀ planId, response ≠ .canceled planId) : Answers response stage :=
  fun planId heq => absurd heq (h planId)

theorem deny_follows (planId : Uuid) (plan : Plan) (decision : String) (status : Nat)
    (message : String) :
    Follows protocol (.read planId plan) (deny decision status message) Answers :=
  command_bind trivial fun _ => answers_of_ne nofun

theorem enqueue_follows (config : Config) (action : CatalogRow) (planId : Uuid) (plan : Plan)
    (jobId : Uuid) :
    Follows protocol (.approved planId jobId) (enqueue config action planId plan jobId)
      Answers := by
  refine command_bind ⟨rfl, rfl⟩ fun _ => ?_
  cases config.queueConfigured with
  | true =>
    refine command_bind ⟨rfl, rfl⟩ fun _ => ?_
    exact command_bind trivial fun _ => answers_of_ne nofun
  | false => exact command_bind trivial fun _ => answers_of_ne nofun

theorem approve_plan_follows (config : Config) (token : Token) (planId : Uuid) (plan : Plan)
    (expired : Bool) (action : Option CatalogEntry) :
    Follows protocol (.read planId plan) (approvePlan config token planId plan expired action)
      Answers := by
  unfold approvePlan
  split
  · exact answers_of_ne nofun
  · split
    · exact deny_follows ..
    · split
      · exact deny_follows ..
      · rename_i hemail
        cases action with
        | none => exact answers_of_ne nofun
        | some entry =>
          dsimp only
          split
          · refine command_bind ⟨rfl, hemail⟩ fun answer => ?_
            cases answer with
            | none => exact answers_of_ne nofun
            | some jobId => exact enqueue_follows ..
          · exact answers_of_ne nofun

theorem execute_follows (config : Config) (token : Token) (planId : Uuid) (plan : Plan)
    (expired : Bool) :
    Follows protocol (.read planId plan) (execute config token planId plan expired) Answers := by
  refine command_bind trivial fun action => ?_
  dsimp only
  split
  · exact deny_follows planId plan _ _ _
  · show Follows protocol (.read planId plan) _ Answers
    refine command_bind trivial fun on => ?_
    cases on with
    | true => exact approve_plan_follows config token planId plan expired action
    | false => exact deny_follows planId plan _ _ _

theorem handle_follows (config : Config) (request : Request) :
    Follows protocol .start (handle config request) Answers := by
  cases request with
  | plan token actionName inputs rollbackPlan =>
    refine command_bind trivial fun _ => ?_
    exact command_bind trivial fun _ => answers_of_ne nofun
  | post token planId op =>
    refine command_bind trivial fun answer => ?_
    cases answer with
    | none => exact answers_of_ne nofun
    | some found =>
      obtain ⟨plan, expired⟩ := found
      cases op with
      | cancel =>
        show Follows protocol (.read planId plan) _ Answers
        refine command_bind rfl fun _ => ?_
        show Follows protocol (.canceled planId) _ Answers
        refine command_bind trivial fun _ => ?_
        intro other heq
        cases heq
        rfl
      | execute => exact execute_follows config token planId plan expired
      | other => exact answers_of_ne nofun

/-! ## The tables -/

def Plan.Names (plan : Plan) (jobId : Uuid) : Prop :=
  plan.status = .executing ∧ plan.jobId = some jobId

/-- The plan was approved by somebody else than its creator, in time, and not canceled. -/
def Plan.ByOther (plan : Plan) : Prop :=
  ∃ approval, plan.approval = some approval ∧ approval.token.sub ≠ plan.createdBy ∧
    (∀ email, approval.token.email = some email → email.text ≠ plan.createdBy) ∧
    approval.time < plan.expiresAt ∧ approval.status ≠ .canceled

/-- No plan has the identifier of the request, or names its job. -/
def Unused (i : Nat) (s : Store) : Prop :=
  ∀ plan ∈ s.plans, plan.id ≠ .drawn i ∧ plan.jobId ≠ some (.drawn i)

/-- The tables and the queue after some requests have started. -/
structure Consistent (n : Nat) (s : Store) : Prop where
  ids : (s.plans.map Plan.id).Nodup
  unused : ∀ i, n ≤ i → Unused i s
  jobs_plan : ∀ job ∈ s.jobs, ∃ plan ∈ s.plans, plan.id = job.planId ∧ plan.Names job.jobId
  jobs_nodup : (s.jobs.map ActionJob.jobId).Nodup
  messages_job : ∀ message ∈ s.messages, ∃ job ∈ s.jobs,
    job.jobId = message.jobId ∧ job.planId = message.planId
  messages_nodup : (s.messages.map Message.jobId).Nodup
  pending_plan : ∀ jobId ∈ s.pending, ∃ plan ∈ s.plans, plan.Names jobId
  pending_row : ∀ jobId ∈ s.pending, ∀ job ∈ s.jobs, job.jobId ≠ jobId
  executing : ∀ plan ∈ s.plans, plan.status = .executing → plan.ByOther ∧
    ∃ jobId, plan.jobId = some jobId ∧ (jobId ∈ s.pending ∨ ∃ job ∈ s.jobs, job.jobId = jobId)

def Knows (i : Nat) (stage : Stage) (s : Store) : Prop :=
  match stage with
  | .start => Unused i s
  | .read planId view =>
    Unused i s ∧ ∃ plan ∈ s.plans, plan.id = planId ∧ plan.createdBy = view.createdBy
  | .approved planId jobId =>
    jobId = .drawn i ∧ jobId ∈ s.pending ∧ ∃ plan ∈ s.plans, plan.id = planId ∧ plan.Names jobId
  | .inserted planId jobId =>
    jobId = .drawn i ∧ (∃ job ∈ s.jobs, job.jobId = jobId ∧ job.planId = planId) ∧
      ∀ message ∈ s.messages, message.jobId ≠ jobId
  | .canceled planId =>
    planId ∈ s.missed ∨ ∃ plan ∈ s.plans, plan.id = planId ∧ plan.status = .canceled
  | .ended => True

theorem cancel_of_not_open {plan : Plan} (planId : Uuid) (h : plan.open = false) :
    plan.cancel planId = plan := by
  rw [Plan.cancel, if_neg fun hcond => by simp [h] at hcond]

theorem approve_of_not_planned {plan : Plan} (planId jobId : Uuid) (now : Int) (approver : Token)
    (h : plan.status ≠ .planned) : plan.approve planId jobId now approver = plan := by
  rw [Plan.approve, if_neg]
  intro hcond
  simp only [Plan.approvable, and_eq_true, beq_iff_eq] at hcond
  exact h hcond.2.1.1

/-- What an update of plans may do: it keeps identifiers and creators, and leaves alone the plans
that are executing or canceled. -/
structure Keeps (f : Plan → Plan) : Prop where
  id : ∀ plan, (f plan).id = plan.id
  createdBy : ∀ plan, (f plan).createdBy = plan.createdBy
  settled : ∀ plan, plan.status = .executing ∨ plan.status = .canceled → f plan = plan

theorem cancel_keeps (planId : Uuid) : Keeps (Plan.cancel planId) where
  id plan := by
    unfold Plan.cancel
    split <;> rfl
  createdBy plan := by
    unfold Plan.cancel
    split <;> rfl
  settled plan h := by
    refine cancel_of_not_open planId ?_
    rcases h with h | h <;> simp [Plan.open, h]

theorem approve_keeps (planId jobId : Uuid) (now : Int) (approver : Token) :
    Keeps (Plan.approve planId jobId now approver) where
  id plan := by
    unfold Plan.approve
    split <;> rfl
  createdBy plan := by
    unfold Plan.approve
    split <;> rfl
  settled plan h := by
    refine approve_of_not_planned planId jobId now approver ?_
    rcases h with h | h <;> simp [h]

variable {s : Store} {f : Plan → Plan}

theorem Keeps.ids (hf : Keeps f) : (s.plans.map f).map Plan.id = s.plans.map Plan.id := by
  rw [map_map]
  exact map_congr_left fun plan _ => hf.id plan

variable {plan : Plan} {s' : Store} {stage : Stage} {n : Nat} {planId : Uuid}

theorem Keeps.mem (hf : Keeps f) (hplan : plan ∈ s.plans)
    (h : plan.status = .executing ∨ plan.status = .canceled) : plan ∈ s.plans.map f :=
  mem_map.mpr ⟨plan, hplan, hf.settled plan h⟩

/-- What other requests know survives an update that draws no identifier of theirs. -/
theorem Keeps.knows (hf : Keeps f) {k : Nat} (hplans : s'.plans = s.plans.map f)
    (hjobs : s'.jobs = s.jobs) (hmessages : s'.messages = s.messages)
    (hpending : ∀ jobId ∈ s.pending, jobId ∈ s'.pending)
    (hmissed : ∀ planId ∈ s.missed, planId ∈ s'.missed)
    (hdrawn : ∀ plan ∈ s.plans, plan.jobId ≠ some (.drawn k) →
      (f plan).jobId ≠ some (.drawn k)) (h : Knows k stage s) : Knows k stage s' := by
  have hunused : Unused k s → Unused k s' := by
    intro hunused plan hplan
    rw [hplans] at hplan
    obtain ⟨old, hold, rfl⟩ := mem_map.mp hplan
    obtain ⟨hid, hjob⟩ := hunused old hold
    exact ⟨(hf.id old) ▸ hid, hdrawn old hold hjob⟩
  cases stage with
  | start => exact hunused h
  | read planId view =>
    obtain ⟨hk, plan, hplan, hid, hcreated⟩ := h
    refine ⟨hunused hk, f plan, ?_, (hf.id plan).trans hid, (hf.createdBy plan).trans hcreated⟩
    rw [hplans]
    exact mem_map_of_mem hplan
  | approved planId jobId =>
    obtain ⟨hown, hmem, plan, hplan, hid, hnames⟩ := h
    refine ⟨hown, hpending _ hmem, plan, ?_, hid, hnames⟩
    rw [hplans]
    exact hf.mem hplan (.inl hnames.1)
  | inserted planId jobId =>
    simpa only [Knows, hjobs, hmessages] using h
  | canceled planId =>
    refine h.imp (hmissed planId) ?_
    intro ⟨plan, hplan, hid, hcanceled⟩
    refine ⟨plan, ?_, hid, hcanceled⟩
    rw [hplans]
    exact hf.mem hplan (.inr hcanceled)
  | ended => trivial

theorem Consistent.plan_unique (h : Consistent n s) {a b : Plan} (ha : a ∈ s.plans)
    (hb : b ∈ s.plans) (hid : a.id = b.id) : a = b :=
  inj_on_of_nodup_map h.ids ha hb hid

theorem mem_of_executing (hcancel : ∀ plan, (f plan).status = .executing → f plan = plan)
    (hplan : plan ∈ s.plans.map f) (h : plan.status = .executing) :
    plan ∈ s.plans := by
  obtain ⟨old, hold, rfl⟩ := mem_map.mp hplan
  rwa [hcancel old h]

theorem cancel_executing (planId : Uuid) (plan : Plan)
    (h : (plan.cancel planId).status = .executing) : plan.cancel planId = plan := by
  unfold Plan.cancel at h ⊢
  split at h
  · cases h
  · rename_i hcond
    rw [if_neg hcond]

theorem cancel_job_id (planId : Uuid) (plan : Plan) : (plan.cancel planId).jobId = plan.jobId := by
  unfold Plan.cancel
  split <;> rfl

theorem Consistent.cancel (h : Consistent n s) (planId : Uuid) (missed : List Uuid) :
    Consistent n { s with plans := s.plans.map (Plan.cancel planId), missed } where
  ids := by
    show ((s.plans.map (Plan.cancel planId)).map Plan.id).Nodup
    rw [(cancel_keeps planId).ids]
    exact h.ids
  unused i hi plan hplan := by
    obtain ⟨old, hold, rfl⟩ := mem_map.mp hplan
    rw [(cancel_keeps planId).id, cancel_job_id]
    exact h.unused i hi old hold
  jobs_plan job hjob := by
    obtain ⟨plan, hplan, hid, hnames⟩ := h.jobs_plan job hjob
    exact ⟨plan, (cancel_keeps planId).mem hplan (.inl hnames.1), hid, hnames⟩
  jobs_nodup := h.jobs_nodup
  messages_job := h.messages_job
  messages_nodup := h.messages_nodup
  pending_plan jobId hjob := by
    obtain ⟨plan, hplan, hnames⟩ := h.pending_plan jobId hjob
    exact ⟨plan, (cancel_keeps planId).mem hplan (.inl hnames.1), hnames⟩
  pending_row := h.pending_row
  executing plan hplan hexecuting :=
    h.executing plan (mem_of_executing (cancel_executing planId) hplan hexecuting) hexecuting

variable {i : Nat} {job : ActionJob} {message : Message}

theorem Consistent.create (h : Consistent n s) (hi : i < n) (hunused : Unused i s)
    (hid : plan.id = .drawn i) (hjob : plan.jobId = none) (hstatus : plan.status = .planned) :
    Consistent n { s with plans := s.plans ++ [plan] } where
  ids := by
    show ((s.plans ++ [plan]).map Plan.id).Nodup
    rw [map_append]
    refine nodup_append.mpr ⟨h.ids, nodup_singleton _, ?_⟩
    intro a ha b hb hab
    obtain ⟨old, hold, rfl⟩ := mem_map.mp ha
    rw [map_singleton, mem_singleton] at hb
    exact (hunused old hold).1 (by rw [hab, hb, hid])
  unused k hk other hother := by
    rcases mem_append.mp hother with hother | hother
    · exact h.unused k hk other hother
    · rw [mem_singleton.mp hother, hid, hjob]
      refine ⟨?_, nofun⟩
      intro heq
      rw [Uuid.drawn.injEq] at heq
      omega
  jobs_plan job hmem := by
    obtain ⟨old, hold, hnames⟩ := h.jobs_plan job hmem
    exact ⟨old, mem_append_left _ hold, hnames⟩
  jobs_nodup := h.jobs_nodup
  messages_job := h.messages_job
  messages_nodup := h.messages_nodup
  pending_plan jobId hmem := by
    obtain ⟨old, hold, hnames⟩ := h.pending_plan jobId hmem
    exact ⟨old, mem_append_left _ hold, hnames⟩
  pending_row := h.pending_row
  executing other hother hexecuting := by
    rcases mem_append.mp hother with hother | hother
    · exact h.executing other hother hexecuting
    · rw [mem_singleton.mp hother, hstatus] at hexecuting
      cases hexecuting

/-- An approver whose keys do not contain the creator, and a creator that is no e-mail address,
are different people. -/
theorem by_other_of_approvable {jobId : Uuid} {now : Int} {approver : Token}
    (hid : plan.id = planId) (happrovable : plan.approvable now approver = true)
    (hemail : '@' ∉ plan.createdBy.toList) :
    (plan.approve planId jobId now approver).ByOther := by
  rw [Plan.approve, if_pos ⟨hid, happrovable⟩]
  simp only [Plan.approvable, and_eq_true, beq_iff_eq, decide_eq_true_eq,
    not_eq_true', contains_eq_mem, decide_eq_false_iff_not] at happrovable
  obtain ⟨⟨hplanned, htime⟩, hkeys⟩ := happrovable
  refine ⟨⟨approver, now, plan.status⟩, rfl, ?_, ?_, htime, by simp [hplanned]⟩
  · intro hsub
    have hsub : approver.sub = plan.createdBy := hsub
    apply hkeys
    unfold identityKeys
    split
    · split <;> simp [Token.user, hsub]
    · simp [Token.user, hsub]
  · -- an e-mail that the token does not carry as verified is no key, but it is an address
    intro email _ heq
    exact hemail (heq ▸ email.address)

theorem Consistent.approve (h : Consistent n s) (hi : i < n) (hunused : Unused i s)
    {approver : Token} (hemail : ∀ plan ∈ s.plans, plan.id = planId → '@' ∉ plan.createdBy.toList)
    (hfound : ∃ plan ∈ s.plans, plan.id = planId ∧ plan.approvable s.now approver = true) :
    Consistent n { s with
      plans := s.plans.map (Plan.approve planId (.drawn i) s.now approver)
      pending := .drawn i :: s.pending } := by
  have hkeeps := approve_keeps planId (.drawn i) s.now approver
  obtain ⟨target, htarget, hid, happrovable⟩ := hfound
  have hsplit : ∀ plan ∈ s.plans, plan.approve planId (.drawn i) s.now approver = plan ∨
      plan.id = planId ∧ plan.approvable s.now approver = true := by
    intro plan _
    unfold Plan.approve
    split
    · rename_i hcond
      exact .inr hcond
    · exact .inl rfl
  have hnorow : ∀ job ∈ s.jobs, job.jobId ≠ .drawn i := by
    intro job hjob heq
    obtain ⟨plan, hplan, -, -, hnames⟩ := h.jobs_plan job hjob
    exact (hunused plan hplan).2 (heq ▸ hnames)
  constructor
  · show ((s.plans.map _).map Plan.id).Nodup
    rw [hkeeps.ids]
    exact h.ids
  · intro k hk plan hplan
    obtain ⟨old, hold, rfl⟩ := mem_map.mp hplan
    refine ⟨(hkeeps.id old).symm ▸ (h.unused k hk old hold).1, ?_⟩
    unfold Plan.approve
    split
    · intro heq
      rw [Option.some.injEq, Uuid.drawn.injEq] at heq
      omega
    · exact (h.unused k hk old hold).2
  · intro job hjob
    obtain ⟨plan, hplan, hjobid, hnames⟩ := h.jobs_plan job hjob
    exact ⟨plan, hkeeps.mem hplan (.inl hnames.1), hjobid, hnames⟩
  · exact h.jobs_nodup
  · exact h.messages_job
  · exact h.messages_nodup
  · intro jobId hmem
    rcases mem_cons.mp hmem with rfl | hmem
    · refine ⟨_, mem_map_of_mem htarget, ?_⟩
      rw [Plan.approve, if_pos ⟨hid, happrovable⟩]
      exact ⟨rfl, rfl⟩
    · obtain ⟨plan, hplan, hnames⟩ := h.pending_plan jobId hmem
      exact ⟨plan, hkeeps.mem hplan (.inl hnames.1), hnames⟩
  · intro jobId hmem job hjob
    rcases mem_cons.mp hmem with rfl | hmem
    · exact hnorow job hjob
    · exact h.pending_row jobId hmem job hjob
  · intro plan hplan hexecuting
    obtain ⟨old, hold, rfl⟩ := mem_map.mp hplan
    rcases hsplit old hold with hsame | ⟨hplanid, happ⟩
    · rw [hsame] at hexecuting ⊢
      obtain ⟨hother, jobId, hjob, hrow⟩ := h.executing old hold hexecuting
      exact ⟨hother, jobId, hjob, hrow.imp (mem_cons_of_mem _) id⟩
    · refine ⟨by_other_of_approvable hplanid happ (hemail old hold hplanid), .drawn i, ?_,
        .inl mem_cons_self⟩
      rw [Plan.approve, if_pos ⟨hplanid, happ⟩]

theorem Consistent.insert (h : Consistent n s) (hpending : job.jobId ∈ s.pending)
    (hplan : ∃ plan ∈ s.plans, plan.id = job.planId ∧ plan.Names job.jobId) :
    Consistent n { s with
      jobs := s.jobs ++ [job]
      pending := s.pending.filter fun jobId => jobId ≠ job.jobId } where
  ids := h.ids
  unused := h.unused
  jobs_plan other hother := by
    rcases mem_append.mp hother with hother | hother
    · exact h.jobs_plan other hother
    · rw [mem_singleton.mp hother]
      exact hplan
  jobs_nodup := by
    show ((s.jobs ++ [job]).map ActionJob.jobId).Nodup
    rw [map_append]
    refine nodup_append.mpr ⟨h.jobs_nodup, nodup_singleton _, ?_⟩
    intro a ha b hb hab
    obtain ⟨old, hold, rfl⟩ := mem_map.mp ha
    rw [map_singleton, mem_singleton] at hb
    exact h.pending_row _ hpending old hold (hab.trans hb)
  messages_job message hmessage := by
    obtain ⟨old, hold, hids⟩ := h.messages_job message hmessage
    exact ⟨old, mem_append_left _ hold, hids⟩
  messages_nodup := h.messages_nodup
  pending_plan jobId hmem := h.pending_plan jobId (mem_filter.mp hmem).1
  pending_row jobId hmem other hother := by
    obtain ⟨hmem, hne⟩ := mem_filter.mp hmem
    rcases mem_append.mp hother with hother | hother
    · exact h.pending_row jobId hmem other hother
    · rw [mem_singleton.mp hother]
      intro heq
      simp [heq] at hne
  executing plan hmem hexecuting := by
    obtain ⟨hother, jobId, hjob, hrow⟩ := h.executing plan hmem hexecuting
    refine ⟨hother, jobId, hjob, ?_⟩
    by_cases hsame : jobId = job.jobId
    · exact .inr ⟨job, mem_append_right _ (mem_singleton_self job), hsame.symm⟩
    · refine hrow.imp (fun hmem => mem_filter.mpr ⟨hmem, by simpa using hsame⟩) ?_
      intro ⟨old, hold, heq⟩
      exact ⟨old, mem_append_left _ hold, heq⟩

theorem Consistent.send (h : Consistent n s)
    (hjob : ∃ job ∈ s.jobs, job.jobId = message.jobId ∧ job.planId = message.planId)
    (hnew : ∀ other ∈ s.messages, other.jobId ≠ message.jobId) :
    Consistent n { s with messages := s.messages ++ [message] } where
  ids := h.ids
  unused := h.unused
  jobs_plan := h.jobs_plan
  jobs_nodup := h.jobs_nodup
  messages_job other hother := by
    rcases mem_append.mp hother with hother | hother
    · exact h.messages_job other hother
    · rw [mem_singleton.mp hother]
      exact hjob
  messages_nodup := by
    show ((s.messages ++ [message]).map Message.jobId).Nodup
    rw [map_append]
    refine nodup_append.mpr ⟨h.messages_nodup, nodup_singleton _, ?_⟩
    intro a ha b hb hab
    obtain ⟨old, hold, rfl⟩ := mem_map.mp ha
    rw [map_singleton, mem_singleton] at hb
    exact hnew old hold (hab.trans hb)
  pending_plan := h.pending_plan
  pending_row := h.pending_row
  executing := h.executing

/-! ## The stages -/

theorem Knows.create {k : Nat} (hne : k ≠ i) (hid : plan.id = .drawn i) (hjob : plan.jobId = none)
    (h : Knows k stage s) :
    Knows k stage { s with plans := s.plans ++ [plan] } := by
  have hunused : Unused k s → Unused k { s with plans := s.plans ++ [plan] } := by
    intro hunused other hother
    rcases mem_append.mp hother with hother | hother
    · exact hunused other hother
    · rw [mem_singleton.mp hother, hid, hjob]
      refine ⟨?_, nofun⟩
      intro heq
      exact hne (Uuid.drawn.inj heq).symm
  have hmem : ∀ other ∈ s.plans, other ∈ s.plans ++ [plan] :=
    fun _ hother => mem_append_left _ hother
  cases stage with
  | start => exact hunused h
  | read planId view =>
    obtain ⟨hk, other, hother, hrest⟩ := h
    exact ⟨hunused hk, other, hmem other hother, hrest⟩
  | approved planId jobId =>
    obtain ⟨hown, hpending, other, hother, hrest⟩ := h
    exact ⟨hown, hpending, other, hmem other hother, hrest⟩
  | inserted planId jobId => exact h
  | canceled planId =>
    refine h.imp id ?_
    intro ⟨other, hother, hrest⟩
    exact ⟨other, hmem other hother, hrest⟩
  | ended => trivial

theorem Knows.insert {k : Nat} (hne : k ≠ i) (hjob : job.jobId = .drawn i) (h : Knows k stage s) :
    Knows k stage { s with
      jobs := s.jobs ++ [job]
      pending := s.pending.filter fun jobId => jobId ≠ job.jobId } := by
  cases stage with
  | approved planId jobId =>
    obtain ⟨hown, hpending, hplan⟩ := h
    refine ⟨hown, mem_filter.mpr ⟨hpending, ?_⟩, hplan⟩
    rw [hown, hjob]
    simpa using hne
  | inserted planId jobId =>
    obtain ⟨hown, ⟨row, hrow, hids⟩, hnone⟩ := h
    exact ⟨hown, ⟨row, mem_append_left _ hrow, hids⟩, hnone⟩
  | _ => exact h

theorem Knows.send {k : Nat} (hne : k ≠ i) (hjob : message.jobId = .drawn i) (h : Knows k stage s) :
    Knows k stage { s with messages := s.messages ++ [message] } := by
  cases stage with
  | inserted planId jobId =>
    obtain ⟨hown, hrow, hnone⟩ := h
    refine ⟨hown, hrow, ?_⟩
    intro other hother
    rcases mem_append.mp hother with hother | hother
    · exact hnone other hother
    · rw [mem_singleton.mp hother, hjob, hown]
      intro heq
      exact hne (Uuid.drawn.inj heq).symm
  | _ => exact h

/-- A cancel finds the plan open or canceled. -/
def CancelsInTime (_ : Nat) (c : Statement) (s : Store) : Prop :=
  match c with
  | .cancel planId => s.cancelable planId = true
  | _ => True

instance (i : Nat) (s : Store) : (c : Statement) → Decidable (CancelsInTime i c s)
  | .cancel planId => inferInstanceAs (Decidable (s.cancelable planId = true))
  | .getPlan _ | .createPlan .. | .getAction _ | .killSwitchOn _ | .recordAudit _
  | .setApprovedAndExecuting .. | .insertJob _ | .sendMessage _ => isTrue trivial

/-- The tables after some requests have started, with every cancel in time. -/
def PlansSound (n : Nat) (s : Store) : Prop :=
  Consistent n s ∧ s.missed = []

/-- Only the clock, the kill-switches and the catalog differ. -/
theorem Consistent.congr (h : Consistent n s) (hplans : s'.plans = s.plans)
    (hjobs : s'.jobs = s.jobs) (hmessages : s'.messages = s.messages)
    (hpending : s'.pending = s.pending) : Consistent n s' := by
  constructor
  · exact hplans ▸ h.ids
  · intro i hi
    show ∀ plan ∈ s'.plans, _
    rw [hplans]
    exact h.unused i hi
  · rw [hjobs, hplans]
    exact h.jobs_plan
  · exact hjobs ▸ h.jobs_nodup
  · rw [hmessages, hjobs]
    exact h.messages_job
  · exact hmessages ▸ h.messages_nodup
  · rw [hpending, hplans]
    exact h.pending_plan
  · rw [hpending, hjobs]
    exact h.pending_row
  · rw [hpending, hjobs, hplans]
    exact h.executing

theorem Knows.congr {k : Nat} (hplans : s'.plans = s.plans) (hjobs : s'.jobs = s.jobs)
    (hmessages : s'.messages = s.messages) (hpending : s'.pending = s.pending)
    (hmissed : s'.missed = s.missed) (h : Knows k stage s) :
    Knows k stage s' := by
  have hid : Keeps id := ⟨fun _ => rfl, fun _ => rfl, fun _ _ => rfl⟩
  refine hid.knows (by rw [hplans, map_id]) hjobs hmessages ?_ ?_ (fun _ _ h => h) h
  · exact hpending ▸ fun _ h => h
  · exact hmissed ▸ fun _ h => h

theorem find_plan_mem (h : s.plans.find? (fun plan => plan.id == planId) = some plan) :
    plan ∈ s.plans ∧ plan.id = planId :=
  ⟨mem_of_find?_eq_some h, by simpa using List.find?_some h⟩

/-- Every statement of a request in its protocol keeps the tables consistent, establishes what the
request knows next, and keeps what the others know. -/
theorem exec_consistent {c : Statement} {r : c.Answer} (hi : i < n) (hs : Consistent n s)
    (hknows : Knows i stage s) (hallowed : protocol.allowed stage c)
    (hexec : Store.exec i c s = some (r, s')) :
    Consistent n s' ∧ Knows i (protocol.after stage c r) s' ∧
      ∀ k w, k ≠ i → Knows k w s → Knows k w s' := by
  cases c with
  | getPlan planId =>
    cases hexec
    cases stage <;> try cases hallowed
    refine ⟨hs, ?_, fun _ _ _ h => h⟩
    cases hfind : s.plans.find? (fun plan => plan.id == planId) with
    | none => trivial
    | some plan =>
      obtain ⟨hplan, hid⟩ := find_plan_mem hfind
      exact ⟨hknows, plan, hplan, hid, rfl⟩
  | createPlan token actionName inputs rollbackPlan =>
    cases hexec
    cases stage <;> try cases hallowed
    exact ⟨hs.create hi hknows rfl rfl rfl, trivial,
      fun k w hne h => h.create hne rfl rfl⟩
  | cancel planId =>
    cases hexec
    cases stage <;> try cases hallowed
    -- a cancel that comes too late is noted and changes no plan
    have hmissed : ∀ id ∈ s.missed,
        id ∈ if s.cancelable planId then s.missed else planId :: s.missed := by
      intro id hid
      split
      · exact hid
      · exact mem_cons_of_mem _ hid
    refine ⟨hs.cancel planId _, ?_, ?_⟩
    · cases hcond : s.cancelable planId with
      | false => exact .inl (by simp)
      | true =>
        right
        rw [Store.cancelable, any_eq_true] at hcond
        obtain ⟨plan, hplan, hfound⟩ := hcond
        simp only [and_eq_true, beq_iff_eq, or_eq_true] at hfound
        refine ⟨plan.cancel planId, mem_map_of_mem hplan, ?_, ?_⟩
        · rw [(cancel_keeps planId).id]
          exact hfound.1
        · rcases hfound.2 with hopen | hcanceled
          · rw [Plan.cancel, if_pos ⟨hfound.1, hopen⟩]
          · rw [(cancel_keeps planId).settled plan (.inr hcanceled)]
            exact hcanceled
    · intro k w _ h
      refine (cancel_keeps planId).knows rfl rfl rfl (fun _ h => h) hmissed ?_ h
      intro plan _ hjob
      rwa [cancel_job_id]
  | getAction name =>
    cases hexec
    cases stage <;> try cases hallowed
    exact ⟨hs, hknows, fun _ _ _ h => h⟩
  | killSwitchOn external =>
    cases hexec
    cases stage <;> try cases hallowed
    exact ⟨hs, hknows, fun _ _ _ h => h⟩
  | recordAudit decision =>
    cases hexec
    cases stage <;> try cases hallowed
    all_goals exact ⟨hs, hknows, fun _ _ _ h => h⟩
  | setApprovedAndExecuting planId approver =>
    obtain ⟨view, rfl, hemail⟩ : ∃ view, stage = .read planId view ∧
        '@' ∉ view.createdBy.toList := by
      cases stage <;> try cases hallowed
      rename_i heq hemail
      exact ⟨_, by rw [heq], hemail⟩
    obtain ⟨hunused, plan, hplan, hid, hcreated⟩ := hknows
    -- the plan is still created by whom the request has read, and that is no e-mail address
    have hcreator : ∀ other ∈ s.plans, other.id = planId → '@' ∉ other.createdBy.toList := by
      intro other hother hotherid
      rw [hs.plan_unique hother hplan (hotherid.trans hid.symm), hcreated]
      exact hemail
    rw [Store.exec] at hexec
    split at hexec
    · rename_i hfound
      cases hexec
      simp only [any_eq_true, and_eq_true, beq_iff_eq] at hfound
      have hnext := hs.approve hi hunused hcreator hfound
      refine ⟨hnext, ⟨rfl, mem_cons_self, ?_⟩, ?_⟩
      · obtain ⟨target, htarget, htargetid, happrovable⟩ := hfound
        refine ⟨_, mem_map_of_mem htarget, ?_, ?_⟩
        · rw [(approve_keeps planId (.drawn i) s.now approver).id, htargetid]
        · rw [Plan.approve, if_pos ⟨htargetid, happrovable⟩]
          exact ⟨rfl, rfl⟩
      · intro k w hne h
        refine (approve_keeps planId (.drawn i) s.now approver).knows rfl rfl rfl
          (fun _ h => mem_cons_of_mem _ h) (fun _ h => h) ?_ h
        intro other _ hjob
        unfold Plan.approve
        split
        · intro heq
          exact hne (Uuid.drawn.inj (Option.some.inj heq)).symm
        · exact hjob
    · cases hexec
      exact ⟨hs, trivial, fun _ _ _ h => h⟩
  | insertJob job =>
    obtain rfl : stage = .approved job.planId job.jobId := by
      cases stage <;> try cases hallowed
      rename_i hplanid hjobid
      rw [hplanid, hjobid]
    obtain ⟨hown, hpending, hplan⟩ := hknows
    rw [Store.exec] at hexec
    split at hexec
    · cases hexec
    · cases hexec
      refine ⟨hs.insert hpending hplan, ⟨hown, ?_, ?_⟩, ?_⟩
      · exact ⟨job, mem_append_right _ (mem_singleton_self job), rfl, rfl⟩
      · -- a message would have a ledger row, and there was none
        intro message hmessage heq
        obtain ⟨row, hrow, hrowid, -⟩ := hs.messages_job message hmessage
        exact hs.pending_row _ hpending row hrow (hrowid.trans heq)
      · intro k w hne h
        exact h.insert hne hown
  | sendMessage message =>
    cases hexec
    obtain rfl : stage = .inserted message.planId message.jobId := by
      cases stage <;> try cases hallowed
      rename_i hplanid hjobid
      rw [hplanid, hjobid]
    obtain ⟨hown, hjob, hnone⟩ := hknows
    exact ⟨hs.send hjob hnone, trivial, fun k w hne h => h.send hne hown⟩

theorem exec_missed {c : Statement} {r : c.Answer} (hcond : CancelsInTime i c s)
    (hexec : Store.exec i c s = some (r, s')) : s'.missed = s.missed := by
  cases c with
  | cancel planId =>
    cases hexec
    exact if_pos hcond
  | setApprovedAndExecuting planId approver | insertJob job =>
    rw [Store.exec] at hexec
    split at hexec <;> cases hexec <;> rfl
  | _ =>
    cases hexec
    rfl

/-- The requests on the tables own what they know. -/
theorem machine_consistent (config : Config) :
    (machine config).Owns protocol (fun _ _ _ => True) Consistent Knows where
  start := by
    intro n s hs
    exact ⟨{ hs with unused := fun i hi => hs.unused i (by omega) }, hs.unused n (Nat.le_refl n)⟩
  exec hi hs hknows hallowed _ hexec := exec_consistent hi hs hknows hallowed hexec
  caught := by
    intro n i stage c s r _ _ hknows hallowed hcaught
    cases c <;> try cases hcaught
    cases stage <;> try cases hallowed
    exact hknows
  abort hs := ⟨hs, fun _ _ _ h => h⟩
  environment := by
    intro n e s hs
    cases e
    all_goals
      exact ⟨hs.congr rfl rfl rfl rfl, fun _ _ h => h.congr rfl rfl rfl rfl rfl⟩

theorem machine_owned (config : Config) :
    (machine config).Owns protocol CancelsInTime PlansSound Knows where
  start hs :=
    have h := (machine_consistent config).start hs.1
    ⟨⟨h.1, hs.2⟩, h.2⟩
  exec hi hs hknows hallowed hcond hexec :=
    have h := exec_consistent hi hs.1 hknows hallowed hexec
    ⟨⟨h.1, (exec_missed hcond hexec).trans hs.2⟩, h.2⟩
  caught hi hs := (machine_consistent config).caught hi hs.1
  abort hs := ⟨hs, fun _ _ _ h => h⟩
  environment := by
    intro n e s hs
    have h := (machine_consistent config).environment (e := e) hs.1
    cases e
    all_goals exact ⟨⟨h.1, hs.2⟩, h.2⟩

/-! ## The law -/

/-- The tables, the queue and the requests. -/
abbrev Requests : Type :=
  System Statement Statement.Answer Stage Store Response

def Answered (s : Requests) (response : Response) : Prop :=
  ∃ thread ∈ s.threads, thread.program = some (.done response)

/-- The law of plans: at most one ledger row and one message each, behind an approval by somebody
else in time; a plan whose cancel was answered is canceled and has no job; and an executing plan
names a job that has a ledger row. -/
structure Lawful (s : Requests) : Prop where
  jobs_once : (s.shared.jobs.map ActionJob.planId).Nodup
  messages_once : (s.shared.messages.map Message.planId).Nodup
  jobs_approved : ∀ job ∈ s.shared.jobs, ∃ plan ∈ s.shared.plans,
    plan.id = job.planId ∧ plan.ByOther
  messages_approved : ∀ message ∈ s.shared.messages, ∃ plan ∈ s.shared.plans,
    plan.id = message.planId ∧ plan.ByOther
  canceled : ∀ planId, Answered s (.canceled planId) →
    (∃ plan ∈ s.shared.plans, plan.id = planId ∧ plan.status = .canceled) ∧
      (∀ job ∈ s.shared.jobs, job.planId ≠ planId) ∧
      ∀ message ∈ s.shared.messages, message.planId ≠ planId
  executing : ∀ plan ∈ s.shared.plans, plan.status = .executing →
    ∃ jobId, plan.jobId = some jobId ∧ ∃ job ∈ s.shared.jobs, job.jobId = jobId

/-- The tables before the first request of the run: plans may be there, with identifiers that no
request draws, and none of them is executing. -/
structure Initial (s : Store) : Prop where
  ids : (s.plans.map Plan.id).Nodup
  earlier : ∀ plan ∈ s.plans, ∀ i, plan.id ≠ .drawn i ∧ plan.jobId ≠ some (.drawn i)
  idle : ∀ plan ∈ s.plans, plan.status ≠ .executing
  jobs : s.jobs = []
  messages : s.messages = []
  pending : s.pending = []
  missed : s.missed = []

theorem Initial.sound (h : Initial s) : PlansSound 0 s := by
  refine ⟨?_, h.missed⟩
  constructor
  · exact h.ids
  · exact fun i _ plan hplan => h.earlier plan hplan i
  · simp [h.jobs]
  · simp [h.jobs]
  · simp [h.messages]
  · simp [h.messages]
  · simp [h.pending]
  · simp [h.pending]
  · exact fun plan hplan hexecuting => absurd hexecuting (h.idle plan hplan)

theorem Consistent.job_unique (h : Consistent n s) {a b : ActionJob} (ha : a ∈ s.jobs)
    (hb : b ∈ s.jobs) (hplan : a.planId = b.planId) : a = b := by
  obtain ⟨p, hp, hpid, -, hpjob⟩ := h.jobs_plan a ha
  obtain ⟨q, hq, hqid, -, hqjob⟩ := h.jobs_plan b hb
  have hsame : p = q := h.plan_unique hp hq (by rw [hpid, hqid, hplan])
  rw [hsame, hqjob] at hpjob
  exact inj_on_of_nodup_map h.jobs_nodup ha hb (Option.some.inj hpjob).symm

theorem Consistent.message_unique (h : Consistent n s) {a b : Message} (ha : a ∈ s.messages)
    (hb : b ∈ s.messages) (hplan : a.planId = b.planId) : a = b := by
  obtain ⟨p, hp, hpjob, hpplan⟩ := h.messages_job a ha
  obtain ⟨q, hq, hqjob, hqplan⟩ := h.messages_job b hb
  have hsame : p = q := h.job_unique hp hq (by rw [hpplan, hqplan, hplan])
  refine inj_on_of_nodup_map h.messages_nodup ha hb ?_
  rw [← hpjob, ← hqjob, hsame]

theorem Consistent.jobs_once (h : Consistent n s) : (s.jobs.map ActionJob.planId).Nodup :=
  List.Nodup.map_on (fun _ ha _ hb => h.job_unique ha hb) (List.Nodup.of_map _ h.jobs_nodup)

theorem Consistent.messages_once (h : Consistent n s) : (s.messages.map Message.planId).Nodup :=
  List.Nodup.map_on (fun _ ha _ hb => h.message_unique ha hb) (List.Nodup.of_map _ h.messages_nodup)

theorem Consistent.job_approved (h : Consistent n s) {job : ActionJob} (hjob : job ∈ s.jobs) :
    ∃ plan ∈ s.plans, plan.id = job.planId ∧ plan.status = .executing ∧ plan.ByOther := by
  obtain ⟨plan, hplan, hid, hexecuting, -⟩ := h.jobs_plan job hjob
  exact ⟨plan, hplan, hid, hexecuting, (h.executing plan hplan hexecuting).1⟩

theorem Consistent.no_job (h : Consistent n s) (hplan : plan ∈ s.plans)
    (hcanceled : plan.status = .canceled) : ∀ job ∈ s.jobs, job.planId ≠ plan.id := by
  intro job hjob heq
  obtain ⟨other, hother, hid, hexecuting, -⟩ := h.job_approved hjob
  rw [h.plan_unique hother hplan (hid.trans heq), hcanceled] at hexecuting
  cases hexecuting

/-- Consistent tables keep the law, but for the jobs whose ledger row is still missing. -/
theorem lawful_iff {s : Requests} (h : PlansSound n s.shared)
    (hcanceled : ∀ planId, Answered s (.canceled planId) →
      ∃ plan ∈ s.shared.plans, plan.id = planId ∧ plan.status = .canceled) :
    Lawful s ↔ s.shared.pending = [] := by
  obtain ⟨h, -⟩ := h
  constructor
  · intro hlaw
    refine eq_nil_iff_forall_not_mem.mpr ?_
    intro jobId hpending
    obtain ⟨plan, hplan, hexecuting, hjob⟩ := h.pending_plan jobId hpending
    obtain ⟨named, hnamed, job, hmem, hid⟩ := hlaw.executing plan hplan hexecuting
    rw [hjob, Option.some.injEq] at hnamed
    exact h.pending_row jobId hpending job hmem (hid.trans hnamed.symm)
  · intro hnone
    constructor
    · exact h.jobs_once
    · exact h.messages_once
    · intro job hjob
      obtain ⟨plan, hplan, hid, -, hother⟩ := h.job_approved hjob
      exact ⟨plan, hplan, hid, hother⟩
    · intro message hmessage
      obtain ⟨job, hjob, -, hplanid⟩ := h.messages_job message hmessage
      obtain ⟨plan, hplan, hid, -, hother⟩ := h.job_approved hjob
      exact ⟨plan, hplan, hid.trans hplanid, hother⟩
    · intro planId hanswered
      obtain ⟨plan, hplan, rfl, hstatus⟩ := hcanceled planId hanswered
      have hnojob := h.no_job hplan hstatus
      refine ⟨⟨plan, hplan, rfl, hstatus⟩, hnojob, ?_⟩
      intro message hmessage heq
      obtain ⟨job, hjob, -, hplanid⟩ := h.messages_job message hmessage
      exact hnojob job hjob (hplanid.trans heq)
    · intro plan hplan hexecuting
      obtain ⟨-, jobId, hjob, hrow⟩ := h.executing plan hplan hexecuting
      rw [hnone] at hrow
      exact ⟨jobId, hjob, hrow.resolve_left not_mem_nil⟩

/-- After every interleaving in which each cancel finds its plan open or canceled, the law of plans
holds exactly when no approval waits for its ledger row. -/
theorem plan_lifecycle (config : Config) {s : Store} (hinitial : Initial s)
    {events : List (Event Request Surrounding)}
    (hmeets : System.Meets (machine config) protocol (System.ActsMeet CancelsInTime) ⟨s, []⟩
      events) :
    let reached := System.run (machine config) protocol (⟨s, []⟩ : Requests) events
    Lawful reached ↔ reached.shared.pending = [] := by
  intro reached
  obtain ⟨hyields, hsound, hknows⟩ :=
    System.run_owned (machine_owned config) (handle_follows config) hinitial.sound hmeets
  refine lawful_iff hsound ?_
  rintro planId ⟨thread, hthread, hdone⟩
  obtain ⟨i, hi⟩ := List.getElem?_of_mem hthread
  have hstage : thread.stage = .canceled planId := hyields.done hthread hdone planId rfl
  have hcanceled : Knows i (.canceled planId) reached.shared := by
    refine hknows i (.canceled planId) (.done (.canceled planId)) ?_
    rw [hi, ← hstage, ← hdone]
  refine hcanceled.resolve_left ?_
  rw [hsound.2]
  exact not_mem_nil

/-! ## Runs of two administrators -/

/-- The administrator who plans. -/
def planner : Token :=
  ⟨"sub-a", some ⟨"a@example.com", by decide⟩, true⟩

/-- The administrator who approves, with an e-mail that is not verified. -/
def approver : Token :=
  ⟨"sub-b", some ⟨"b@example.com", by decide⟩, false⟩

/-- The catalog has one enabled action. -/
def tagsOnly : Store :=
  { plans := []
    jobs := []
    messages := []
    catalog := [⟨⟨"ec2-create-tags", .ssm, "ec2:instance"⟩, true⟩]
    now := 0
    killSwitch := fun _ => true
    pending := []
    missed := [] }

def remediationOn : Config :=
  { remediationEnabled := true
    integrationsWriteEnabled := false
    queueConfigured := true
    redactString := id
    text := fun
      | .drawn request => "plan-" ++ request.repr
      | .earlier n => "earlier-" ++ n.repr }

def noInputs : Inputs :=
  .fields [] nodup_nil

/-- The planner plans and the approver approves, and afterwards the planner plans again and cancels
that. -/
def approvedOnce : List (Event Request Surrounding) :=
  [.start (.plan planner "ec2-create-tags" noInputs .null), .act 0, .act 0,
    .start (.post approver (.drawn 0) .execute), .act 1, .act 1, .act 1, .act 1, .act 1, .act 1,
    .act 1,
    .start (.plan planner "ec2-create-tags" noInputs .null), .act 2, .act 2,
    .start (.post planner (.drawn 2) .cancel), .act 3, .act 3, .act 3]

/-- The state after requests on the catalog with one action. -/
def served (events : List (Event Request Surrounding)) : Requests :=
  System.run (machine remediationOn) protocol ⟨tagsOnly, []⟩ events

/-- The plan that was approved has its row and its message, and the canceled one has none. -/
theorem plan_lifecycle_approved_once : Lawful (served approvedOnce) := by
  have hnone : ∀ plan, plan ∉ tagsOnly.plans := fun _ => not_mem_nil
  have hinitial : Initial tagsOnly :=
    { ids := nodup_nil
      earlier := fun plan hplan => absurd hplan (hnone plan)
      idle := fun plan hplan => absurd hplan (hnone plan)
      jobs := rfl
      messages := rfl
      pending := rfl
      missed := rfl }
  have hmeets : System.Meets (machine remediationOn) protocol (System.ActsMeet CancelsInTime)
      (⟨tagsOnly, []⟩ : Requests) approvedOnce := by decide +kernel
  have hpending : (served approvedOnce).shared.pending = [] := by decide +kernel
  exact (plan_lifecycle remediationOn hinitial hmeets).mpr hpending

/-- The cancel has read the plan when the plan is approved. -/
def canceledLate : List (Event Request Surrounding) :=
  [.start (.plan planner "ec2-create-tags" noInputs .null), .act 0, .act 0,
    .start (.post planner (.drawn 0) .cancel), .act 1,
    .start (.post approver (.drawn 0) .execute), .act 2, .act 2, .act 2, .act 2, .act 2, .act 2,
    .act 2, .act 1, .act 1]

/-- The request dies after its approving update. -/
def approvedInPart : List (Event Request Surrounding) :=
  [.start (.plan planner "ec2-create-tags" noInputs .null), .act 0, .act 0,
    .start (.post approver (.drawn 0) .execute), .act 1, .act 1, .act 1, .act 1, .crash 1]

/-- A cancel whose update finds the plan executing answers `canceled`, and a request that dies
after its approving update leaves a plan without a ledger row. -/
theorem plan_lifecycle_broken :
    ¬ Lawful (served canceledLate) ∧ ¬ Lawful (served approvedInPart) := by
  constructor
  · intro hlaw
    have hanswered : Answered (served canceledLate) (.canceled (.drawn 0)) :=
      ⟨_, .tail _ (.head _), rfl⟩
    have hnone : ∀ plan ∈ (served canceledLate).shared.plans, plan.status ≠ .canceled := by
      decide +kernel
    obtain ⟨⟨plan, hplan, -, hcanceled⟩, -⟩ := hlaw.canceled (.drawn 0) hanswered
    exact hnone plan hplan hcanceled
  · intro hlaw
    have hexecuting : ∃ plan ∈ (served approvedInPart).shared.plans, plan.status = .executing := by
      decide +kernel
    have hnone : (served approvedInPart).shared.jobs = [] := by rfl
    obtain ⟨plan, hplan, hstatus⟩ := hexecuting
    obtain ⟨jobId, -, job, hjob, -⟩ := hlaw.executing plan hplan hstatus
    rw [hnone] at hjob
    exact not_mem_nil hjob

/-! ## What holds in every run -/

/-- A plan has at most one ledger row and one message. A message has a row, a row has an executing
plan that somebody else than its creator approved in time, and a canceled plan has neither. -/
structure Separated (s : Store) : Prop where
  jobs_once : (s.jobs.map ActionJob.planId).Nodup
  messages_once : (s.messages.map Message.planId).Nodup
  messages_job : ∀ message ∈ s.messages, ∃ job ∈ s.jobs,
    job.jobId = message.jobId ∧ job.planId = message.planId
  jobs_approved : ∀ job ∈ s.jobs, ∃ plan ∈ s.plans,
    plan.id = job.planId ∧ plan.status = .executing ∧ plan.ByOther
  canceled : ∀ plan ∈ s.plans, plan.status = .canceled →
    (∀ job ∈ s.jobs, job.planId ≠ plan.id) ∧ ∀ message ∈ s.messages, message.planId ≠ plan.id

/-- However the requests interleave, wherever they die, and also when a cancel comes too late. -/
theorem plans_separated (config : Config) {s : Store} (hinitial : Initial s)
    (events : List (Event Request Surrounding)) :
    Separated (System.run (machine config) protocol (⟨s, []⟩ : Requests) events).shared := by
  obtain ⟨-, h, -⟩ := System.run_owned (machine_consistent config) (handle_follows config)
    hinitial.sound.1 (System.meets_of_forall System.acts_meet_true _ events)
  refine ⟨h.jobs_once, h.messages_once, h.messages_job, fun _ => h.job_approved,
    fun plan hplan hcanceled => ?_⟩
  have hnojob := h.no_job hplan hcanceled
  refine ⟨hnojob, fun message hmessage heq => ?_⟩
  obtain ⟨job, hjob, -, hplanid⟩ := h.messages_job message hmessage
  exact hnojob job hjob (hplanid.trans heq)

/-- Requests of which a cancel comes too late. -/
theorem plans_separated_canceled_late : Separated (served canceledLate).shared := by
  have hnone : ∀ plan, plan ∉ tagsOnly.plans := fun _ => not_mem_nil
  have hinitial : Initial tagsOnly :=
    { ids := nodup_nil
      earlier := fun plan hplan => absurd hplan (hnone plan)
      idle := fun plan hplan => absurd hplan (hnone plan)
      jobs := rfl
      messages := rfl
      pending := rfl
      missed := rfl }
  exact plans_separated remediationOn hinitial canceledLate

end AwsOps.Remediation

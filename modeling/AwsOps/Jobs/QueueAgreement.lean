import AwsOps.Jobs.Enqueue

/-!
# The queue agrees with the ledger

From its insert or its lookup on, a call holds a row of the ledger, of which only the status can
change. `follows_enqueue_job` says that a call sends the job of the row it holds and nothing else,
and ends with the id of that row. Since the constraints leave one row for an id, and one for a
requester and a key, the queue and the ledger agree in every run.
-/

namespace AwsOps.Jobs

open List LedgerJob

variable {V : Type}

/-! ## Rows of the ledger -/

/-- The ledger has the row, in some status. -/
def Ledger.Records (ledger : Ledger V) (job : LedgerJob V) : Prop :=
  ∃ status, { job with status } ∈ ledger.jobs

/-- The message of a row. -/
def LedgerJob.message (job : LedgerJob V) : Message V :=
  ⟨job.jobId, job.type, job.payload, job.dryRun⟩

section Ledger

variable {ledger : Ledger V} {a b job : LedgerJob V}

theorem records_of_mem (h : job ∈ ledger.jobs) : ledger.Records job :=
  ⟨job.status, h⟩

theorem eq_of_job_id (ha : a ∈ ledger.jobs) (hb : b ∈ ledger.jobs) (hid : a.jobId = b.jobId) :
    a = b := by
  have hids : ledger.jobs.Pairwise fun a b => a.jobId ≠ b.jobId := by
    refine ledger.compatible.imp fun {a b} h => ?_
    simp only [compatible, Bool.and_eq_true, bne_iff_ne] at h
    exact h.1.1
  have : Std.Symm fun a b : LedgerJob V => a.jobId ≠ b.jobId := ⟨fun _ _ h => h.symm⟩
  by_contra hne
  exact hids.forall ha hb hne hid

theorem eq_of_key (ha : a ∈ ledger.jobs) (hb : b ∈ ledger.jobs)
    (hrequester : a.requestedBy = b.requestedBy) (hkey : a.idempotencyKey = b.idempotencyKey)
    (hsome : a.idempotencyKey ≠ none) : a = b := by
  have hkeys : ledger.jobs.Pairwise fun a b =>
      ¬(a.requestedBy = b.requestedBy ∧ a.idempotencyKey = b.idempotencyKey ∧
        a.idempotencyKey ≠ none) := by
    refine ledger.compatible.imp fun {a b} h => ?_
    simp only [compatible, Bool.and_eq_true, Bool.not_eq_true'] at h
    rintro ⟨hrequester, hkey, hsome⟩
    have hown : a.isOwn b.idempotencyKey b.requestedBy = true := by
      rw [← hrequester, ← hkey]
      simpa [isOwn, keyed, Option.isSome_iff_ne_none] using hsome
    rw [hown] at h
    exact nomatch h.1.2
  have : Std.Symm fun a b : LedgerJob V => ¬(a.requestedBy = b.requestedBy ∧
      a.idempotencyKey = b.idempotencyKey ∧ a.idempotencyKey ≠ none) :=
    ⟨fun _ _ h ⟨hrequester, hkey, hsome⟩ => h ⟨hrequester.symm, hkey.symm, hkey ▸ hsome⟩⟩
  by_contra hne
  exact hkeys.forall ha hb hne ⟨hrequester, hkey, hsome⟩

/-- The rows of one ledger stay in another, up to their status. -/
def Ledger.Extends (new old : Ledger V) : Prop :=
  ∀ job, old.Records job → new.Records job

theorem Ledger.Extends.refl : ledger.Extends ledger :=
  fun _ h => h

theorem mem_add (h : ∀ a ∈ ledger.jobs, a.compatible ledger.legacyUnique job) :
    job ∈ (ledger.add job).jobs := by
  unfold Ledger.add
  rw [dif_pos (all_eq_true.mpr h)]
  exact mem_append_right _ mem_cons_self

theorem add_extends : (ledger.add job).Extends ledger := by
  rintro a ⟨status, ha⟩
  refine ⟨status, ?_⟩
  unfold Ledger.add
  split
  · exact mem_append_left _ ha
  · exact ha

theorem set_status_extends (jobId status : String) :
    (ledger.setStatus jobId status).Extends ledger := by
  rintro a ⟨old, ha⟩
  by_cases hid : a.jobId = jobId
  · exact ⟨status, mem_map.mpr ⟨_, ha, if_pos hid⟩⟩
  · exact ⟨old, mem_map.mpr ⟨_, ha, if_neg hid⟩⟩

theorem insert_cases (ledger : Ledger V) (job : LedgerJob V) :
    (ledger.insert job = (.inserted job.jobId, ledger.add job) ∧ job ∈ (ledger.add job).jobs) ∨
      ∃ answer, ledger.insert job = (answer, ledger) ∧ ∀ id, answer ≠ .inserted id := by
  unfold Ledger.insert
  split
  · exact .inr ⟨_, rfl, nofun⟩
  · rename_i hown
    split
    · exact .inr ⟨_, rfl, nofun⟩
    · rename_i hid
      split
      · exact .inr ⟨_, rfl, nofun⟩
      · rename_i hlegacy
        refine .inl ⟨rfl, mem_add fun a ha => ?_⟩
        simp only [any_eq_true, not_exists, not_and, Bool.and_eq_true, Bool.not_eq_true,
          beq_iff_eq] at hown hid hlegacy
        simp only [compatible, Bool.and_eq_true, bne_iff_ne, ne_eq, Bool.not_eq_true',
          hown a ha, Bool.and_eq_false_iff]
        refine ⟨⟨hid a ha, trivial⟩, ?_⟩
        by_cases hunique : ledger.legacyUnique = true
        · exact .inr (hlegacy hunique a ha)
        · exact .inl (by simpa using hunique)

theorem find_own_records {key requestedBy : Option String} {found : OwnJob V}
    (h : ledger.findOwn key requestedBy = some found) :
    ledger.Records ⟨found.jobId, found.type, found.payload, found.dryRun, key, requestedBy,
      found.status⟩ := by
  obtain ⟨row, hrow, rfl⟩ := Option.map_eq_some_iff.mp h
  have hown := List.find?_some hrow
  simp only [isOwn, keyed, Bool.and_eq_true, beq_iff_eq] at hown
  obtain ⟨⟨-, rfl⟩, rfl⟩ := hown
  exact records_of_mem (mem_of_find?_eq_some hrow)

end Ledger

/-! ## What a call holds -/

/-- The stage of a call is the row it holds. It sends the message of that row. -/
def holding : Protocol (EnqueueStatement V) EnqueueStatement.Answer (Option (LedgerJob V)) where
  initial := none
  allowed held
    | .insert request => "scheduled" ∉ request.payload
    | .findOwnJob _ _ => True
    | .send requestedBy message =>
      ∃ job ∈ held, job.requestedBy = requestedBy ∧ job.message = message
  after held c r :=
    match c, r with
    | .insert request, .inserted jobId => some { request with jobId }
    | .findOwnJob key requestedBy, some found =>
      some ⟨found.jobId, found.type, found.payload, found.dryRun, key, requestedBy, found.status⟩
    | _, _ => held

/-- What a call ends with is the id of the row it holds, which has the requester and the key of the
call. -/
def EndsHolding (call : EnqueueCall V) (outcome : EnqueueOutcome V) (held : Option (LedgerJob V)) :
    Prop :=
  ∀ jobId ∈ outcome.jobId, ∃ job ∈ held, job.jobId = jobId ∧
    job.requestedBy = call.requestedBy ∧ job.idempotencyKey = call.idempotencyKey

theorem follows_deliver {call : EnqueueCall V} {job : LedgerJob V} {status : String}
    {message : Message V} (hmessage : job.message = message)
    (hrequester : job.requestedBy = call.requestedBy)
    (hkey : job.idempotencyKey = call.idempotencyKey) :
    Follows holding (some job) (deliver call.requestedBy status message) (EndsHolding call) := by
  subst hmessage
  refine Follows.bind (Q := fun _ held => held = some job)
    (Follows.command ⟨job, rfl, hrequester, rfl⟩ fun _ => rfl) ?_
  rintro taken held rfl
  split
  · rintro jobId ⟨rfl⟩
    exact ⟨job, rfl, rfl, hrequester, hkey⟩
  · rintro jobId ⟨rfl⟩
    exact ⟨job, rfl, rfl, hrequester, hkey⟩

theorem follows_replay (call : EnqueueCall V) :
    Follows holding none (replay call) (EndsHolding call) := by
  refine ⟨trivial, fun found => ?_⟩
  cases found with
  | none => exact nofun
  | some existing => exact follows_deliver rfl rfl rfl

theorem follows_enqueue_job (queueUrl : Option String) (call : EnqueueCall V) :
    Follows holding none (enqueueJob queueUrl call) (EndsHolding call) := by
  unfold enqueueJob
  split
  · exact Follows.pure nofun
  · refine ⟨Finmap.notMem_erase_self, fun answer => ?_⟩
    cases answer with
    | inserted jobId => exact follows_deliver rfl rfl rfl
    | nothing => exact follows_replay call
    | raised error =>
      change Follows holding none (if error.overKey then _ else _) _
      split
      · exact follows_replay call
      · exact Follows.pure nofun

/-! ## Runs -/

/-- The messages are those of rows of the ledger, for their requesters, and the rows that calls
inserted have no marker of the scheduler. -/
structure World.Agrees (w : World V) : Prop where
  queue : ∀ sent ∈ w.queue, ∃ job, w.ledger.Records job ∧ job.requestedBy = sent.requestedBy ∧
    job.message = sent.message
  inserted : ∀ jobId ∈ w.inserted, ∃ job, w.ledger.Records job ∧ job.jobId = jobId ∧
    "scheduled" ∉ job.payload

/-- The row that a call holds is recorded. -/
def HeldRecorded (held : Option (LedgerJob V)) (w : World V) : Prop :=
  ∀ job ∈ held, w.ledger.Records job

theorem World.Agrees.of_extends {w : World V} (h : w.Agrees) {ledger : Ledger V}
    (hledger : ledger.Extends w.ledger) : { w with ledger }.Agrees where
  queue sent hsent :=
    have ⟨job, hjob, hrest⟩ := h.queue sent hsent
    ⟨job, hledger job hjob, hrest⟩
  inserted jobId hid :=
    have ⟨job, hjob, hrest⟩ := h.inserted jobId hid
    ⟨job, hledger job hjob, hrest⟩

theorem exec_agrees {castUuid : String → Option String} {held : Option (LedgerJob V)}
    {w w' : World V} {c : EnqueueStatement V} {r : c.Answer} (hw : w.Agrees)
    (hheld : HeldRecorded held w) (hallowed : holding.allowed held c)
    (h : w.exec castUuid c = (r, w')) :
    w'.Agrees ∧ HeldRecorded (holding.after held c r) w' ∧ w'.ledger.Extends w.ledger := by
  cases c with
  | insert request =>
    simp only [World.exec] at h
    split at h
    · cases h
      exact ⟨hw, hheld, .refl⟩
    · rename_i jobId _
      rcases insert_cases w.ledger { request with jobId } with
        ⟨hinsert, hmem⟩ | ⟨answer, hinsert, hanswer⟩
      · rw [hinsert] at h
        cases h
        have hextends : (w.ledger.add { request with jobId }).Extends w.ledger := add_extends
        have hagrees := hw.of_extends hextends
        refine ⟨⟨hagrees.queue, fun id hid => ?_⟩, ?_, hextends⟩
        · rcases mem_cons.mp hid with rfl | hid
          · exact ⟨_, records_of_mem hmem, rfl, hallowed⟩
          · exact hagrees.inserted id hid
        · rintro job ⟨rfl⟩
          exact records_of_mem hmem
      · rw [hinsert] at h
        cases answer with
        | inserted id => exact absurd rfl (hanswer id)
        | nothing | raised =>
          cases h
          exact ⟨hw, hheld, .refl⟩
  | findOwnJob key requestedBy =>
    cases h
    refine ⟨hw, ?_, .refl⟩
    cases hfind : w.ledger.findOwn key requestedBy with
    | none => exact hheld
    | some found =>
      rintro job ⟨rfl⟩
      exact find_own_records hfind
  | send requestedBy message =>
    cases h
    refine ⟨⟨fun sent hsent => ?_, hw.inserted⟩, hheld, .refl⟩
    rcases mem_append.mp hsent with hsent | hsent
    · exact hw.queue sent hsent
    · rw [mem_singleton.mp hsent]
      obtain ⟨job, hjob, hrest⟩ := hallowed
      exact ⟨job, hheld job hjob, hrest⟩

theorem disturb_agrees {w : World V} (hw : w.Agrees) (e : Disturbance V) :
    (w.disturb e).Agrees ∧ (w.disturb e).ledger.Extends w.ledger := by
  cases e with
  | insert job => exact ⟨hw.of_extends add_extends, add_extends⟩
  | setStatus jobId status =>
    have hextends : (w.ledger.setStatus jobId status).Extends w.ledger :=
      set_status_extends jobId status
    exact ⟨hw.of_extends hextends, hextends⟩
  | fail error replyLost => exact ⟨⟨hw.queue, hw.inserted⟩, .refl⟩

/-- The ledger is kept by every step of every thread. -/
theorem calls_guarantee (queueUrl : Option String) (castUuid : String → Option String) :
    (enqueueCalls (V := V) queueUrl castUuid).Guarantees holding World.Agrees HeldRecorded where
  initial _ := nofun
  exec hw hheld hallowed hexec := by
    obtain ⟨hagrees, hrecorded, hextends⟩ :=
      exec_agrees hw hheld hallowed (Option.some.inj hexec)
    exact ⟨hagrees, hrecorded, fun _ hother job hjob => hextends job (hother job hjob)⟩
  caught {i held c w r} _ hheld _ hcaught := by
    cases c with
    | findOwnJob => cases hcaught
    | insert | send =>
      cases hcaught
      exact hheld
  abort hw := ⟨hw, fun _ h => h⟩
  environment {e w} hw := by
    obtain ⟨hagrees, hextends⟩ := disturb_agrees hw e
    exact ⟨hagrees, fun _ hother job hjob => hextends job (hother job hjob)⟩

/-- A call that is over, with its arguments and its outcome. -/
def Finished (s : System (EnqueueStatement V) EnqueueStatement.Answer (Option (LedgerJob V))
    (World V) (EnqueueCall V × EnqueueOutcome V)) (call : EnqueueCall V)
    (outcome : EnqueueOutcome V) : Prop :=
  ∃ thread ∈ s.threads, thread.program = some (.done (call, outcome))

end AwsOps.Jobs

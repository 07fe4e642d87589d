import AwsOps.Foundation.Threads

/-!
# The completion mail of a compliance run

`notify_completed` publishes a mail for a finished run, for one benchmark at most once in
`_NOTIFY_DEDUP_MINUTES`. A call claims the window with an `UPDATE` of `notified_at` under an
advisory lock, publishes, and records what became of the mail. The calls for one benchmark
interleave at every statement, the claiming `UPDATE` between its snapshot and its write too;
statements raise, calls die, and the clock and the pause switch move meanwhile.
-/

namespace AwsOps.Compliance.Notify

open List

/-- `notify_outcome`, which is blank at first. -/
inductive Outcome
  | blank | emailed | emailedFailopen | publishFailed
  | droppedPaused | skippedNoTopic | skippedDedup
  deriving DecidableEq

/-- The outcomes of a call that has tried to publish. -/
def Outcome.isDelivery : Outcome → Bool
  | emailed | emailedFailopen | publishFailed => true
  | _ => false

def Outcome.isSkip : Outcome → Bool
  | droppedPaused | skippedNoTopic | skippedDedup => true
  | _ => false

/-- A row of `compliance_runs`. Times are in microseconds. -/
structure Run where
  id : Nat
  notifiedAt : Option Int
  notifyOutcome : Outcome
  deriving DecidableEq

def notifyDedupMinutes : Int :=
  60 * 60 * 1000000

/-- The window that a call has claimed for a run, and the `now()` of its claim. -/
structure Claim where
  call : Nat
  run : Nat
  time : Int
  deriving DecidableEq

/-- The runs of a benchmark, the clock of the database, the pause switch and the holder of the
advisory lock. The claims, the mails and the recorded deliveries so far stand with their calls. -/
structure Store where
  runs : List Run
  clock : Int
  paused : Bool
  holder : Option Nat
  claims : List Claim
  mails : List (Nat × Nat)
  deliveries : List (Nat × Nat)

/-- The rows of the runs before any call. -/
def Store.initial (ids : List Nat) (clock : Int) : Store :=
  ⟨ids.map fun id => ⟨id, none, .blank⟩, clock, false, none, [], [], []⟩

/-- What a call does to the world. The claim is a snapshot and a write. -/
inductive Statement
  | readPaused
  | lock
  | selectClaim (run : Nat)
  | writeClaim (run : Nat) (time : Int)
  | unlock
  | publish (run : Nat)
  | record (run : Nat) (outcome : Outcome) (notified onlyIfBlank : Bool)

/-- The answers: the pause switch, whether the lock is held, the time of a claim that the snapshot
admits, whether the claim has written a row, and the number of the mail. A statement that can raise
to some effect answers with nothing or `false` then. -/
abbrev Answer : Statement → Type
  | .readPaused => Option Bool
  | .lock => Bool
  | .selectClaim _ => Option (Option Int)
  | .writeClaim .. => Option Bool
  | .publish _ => Option Nat
  | _ => Unit

/-- The programs of calls. -/
abbrev Notifier (α : Type) : Type :=
  Program Statement Answer α

/-- Issue a statement. -/
def ask (c : Statement) : Notifier (Answer c) :=
  Program.command c

/-! ## The call -/

/-- Publish the mail and record what became of it. -/
def publish (run : Nat) (failopen : Bool) : Notifier (Option Nat) := do
  match ← ask (.publish run) with
  | some mid =>
    ask (.record run (if failopen then .emailedFailopen else .emailed) true false)
    pure (some mid)
  | none =>
    ask (.record run .publishFailed false false)
    pure none

/-- The `UPDATE` that claims the window. -/
def claim (run : Nat) : Notifier (Option Bool) := do
  match ← ask (.selectClaim run) with
  | some (some time) => ask (.writeClaim run time)
  | some none => pure (some false)
  | none => pure none

/-- Claim the window under the lock. A claim path that raises does not mute the mail. -/
def claimAndPublish (run : Nat) (failopen : Bool) : Notifier (Option Nat) := do
  if ← ask .lock then
    match ← claim run with
    | some true =>
      ask .unlock
      publish run failopen
    | some false =>
      ask (.record run .skippedDedup false true)
      ask .unlock
      pure none
    | none =>
      ask .unlock
      publish run true
  else publish run true

/-- `notify_completed`, where a topic is configured or not. -/
def notifyCompleted (topic : Bool) (run : Nat) : Notifier (Option Nat) := do
  if topic then
    match ← ask .readPaused with
    | some true =>
      ask (.record run .droppedPaused false true)
      pure none
    | some false => claimAndPublish run false
    | none => claimAndPublish run true
  else
    ask (.record run .skippedNoTopic false true)
    pure none

/-! ## The statements -/

/-- The run has no stamp, and no other run of the benchmark has one within the window. -/
def Store.claimable (s : Store) (run : Nat) : Bool :=
  s.runs.any (fun row => row.id == run && row.notifiedAt.isNone) &&
    s.runs.all fun row =>
      row.id == run || row.notifiedAt.all fun stamp => stamp ≤ s.clock - notifyDedupMinutes

def Run.stamp (run : Nat) (time : Int) (row : Run) : Run :=
  if row.id = run then { row with notifiedAt := some time } else row

/-- `_record_notify_outcome` on a row. -/
def Run.record (run : Nat) (outcome : Outcome) (stamp : Option Int) (onlyIfBlank : Bool)
    (row : Run) : Run :=
  if row.id = run ∧ (onlyIfBlank → row.notifyOutcome = .blank) then
    { row with notifyOutcome := outcome, notifiedAt := stamp.or row.notifiedAt }
  else row

/-- Execute a statement of a call. The lock waits for its holder, and a claim writes no row that
was stamped since its snapshot. -/
def Store.exec (i : Nat) (c : Statement) (s : Store) : Option (Answer c × Store) :=
  match c with
  | .readPaused => some (some s.paused, s)
  | .lock => if s.holder = none then some (true, { s with holder := some i }) else none
  | .selectClaim run => some (some (if s.claimable run then some s.clock else none), s)
  | .writeClaim run time =>
    if s.runs.any fun row => row.id == run && row.notifiedAt.isNone then
      some (some true,
        { s with runs := s.runs.map (Run.stamp run time), claims := s.claims ++ [⟨i, run, time⟩] })
    else some (some false, s)
  | .unlock => some ((), { s with holder := if s.holder = some i then none else s.holder })
  | .publish run => some (some s.mails.length, { s with mails := s.mails ++ [(i, run)] })
  | .record run outcome notified onlyIfBlank =>
    some ((),
      { s with
        runs := s.runs.map
          (Run.record run outcome (if notified then some s.clock else none) onlyIfBlank)
        deliveries := if outcome.isDelivery then s.deliveries ++ [(i, run)] else s.deliveries })

/-- Every error is caught. -/
def Store.caught : (c : Statement) → Answer c
  | .readPaused | .selectClaim _ | .writeClaim .. | .publish _ => none
  | .lock => false
  | .unlock | .record .. => ()

/-- The world outside the calls. -/
inductive World
  | tick (microseconds : Nat)
  | pause (paused : Bool)
  deriving DecidableEq

/-- The clock moves on, and an administrator pauses the mail or resumes it. -/
def Store.world (s : Store) : World → Store
  | .tick microseconds => { s with clock := s.clock + microseconds }
  | .pause paused => { s with paused }

/-- The session of a dead call ends, and its lock is free. -/
def Store.disconnect (s : Store) (i : Nat) : Store :=
  { s with holder := if s.holder = some i then none else s.holder }

/-- Calls of `notify_completed` for runs of one benchmark, each with or without a topic. -/
def machine : Machine Statement Answer Store (Bool × Nat) World (Option Nat) where
  worker call := notifyCompleted call.1 call.2
  exec := Store.exec
  caught _ c _ := some (Store.caught c)
  abort i s := s.disconnect i
  environment e s := s.world e

/-- What a call holds: the lock, and the snapshot that admits its claim. -/
inductive Stage
  | free
  | locked
  | selected (run : Nat) (time : Int)

/-- Claims happen under the lock and as the snapshot admits them, and only a tried publish
overwrites an outcome. -/
def protocol : Protocol Statement Answer Stage where
  initial := .free
  allowed stage
    | .lock => stage = .free
    | .selectClaim _ => stage = .locked
    | .writeClaim run time => stage = .selected run time
    | .record _ outcome _ onlyIfBlank => outcome.isDelivery = !onlyIfBlank
    | _ => True
  after stage
    | .lock, held => if held then .locked else .free
    | .selectClaim run, some (some time) => .selected run time
    | .writeClaim .., _ => .locked
    | .unlock, _ => .free
    | _, _ => stage

/-- The calls and what they share. -/
abbrev Calls : Type :=
  System Statement Answer Stage Store (Option Nat)

/-- The calls and the store after the events of an interleaving. -/
def after (ids : List Nat) (clock : Int) (events : List (Event (Bool × Nat) World)) : Calls :=
  System.run machine protocol ⟨.initial ids clock, []⟩ events

/-! ## Calls keep to the protocol -/

theorem publish_follows (run : Nat) (failopen : Bool) (stage : Stage) :
    Follows protocol stage (publish run failopen) fun _ _ => True := by
  refine Follows.command_bind trivial fun mid => ?_
  cases mid with
  | some mid =>
    refine Follows.command_bind ?_ fun _ => trivial
    cases failopen <;> rfl
  | none => exact Follows.command_bind rfl fun _ => trivial

theorem claim_follows (run : Nat) : Follows protocol .locked (claim run) fun _ _ => True := by
  refine Follows.command_bind rfl fun found => ?_
  match found with
  | some (some time) => exact Follows.command rfl fun _ => trivial
  | some none => exact Follows.pure trivial
  | none => exact Follows.pure trivial

theorem claim_and_publish_follows (run : Nat) (failopen : Bool) :
    Follows protocol .free (claimAndPublish run failopen) fun _ _ => True := by
  refine Follows.command_bind rfl fun held => ?_
  cases held with
  | false => exact publish_follows run true _
  | true =>
    refine (claim_follows run).bind fun claimed stage _ => ?_
    match claimed with
    | some true => exact Follows.command_bind trivial fun _ => publish_follows run failopen _
    | some false =>
      exact Follows.command_bind rfl fun _ => Follows.command_bind trivial fun _ => trivial
    | none => exact Follows.command_bind trivial fun _ => publish_follows run true _

theorem notify_completed_follows (call : Bool × Nat) :
    Follows protocol .free (notifyCompleted call.1 call.2) fun _ _ => True := by
  obtain ⟨topic, run⟩ := call
  cases topic with
  | false => exact Follows.command_bind rfl fun _ => trivial
  | true =>
    refine Follows.command_bind trivial fun paused => ?_
    match paused with
    | some true => exact Follows.command_bind rfl fun _ => trivial
    | some false => exact claim_and_publish_follows run false
    | none => exact claim_and_publish_follows run true

/-! ## The invariant -/

/-- The row of the claim has a stamp, which is not before the claim. -/
def Claim.Stamped (runs : List Run) (c : Claim) : Prop :=
  (∃ row ∈ runs, row.id = c.run) ∧
    ∀ row ∈ runs, row.id = c.run → ∃ stamp ∈ row.notifiedAt, c.time ≤ stamp

/-- The claims are a window apart and for different runs, their rows stay stamped, and the row of
a recorded delivery reads as a delivery. -/
structure Sound (s : Store) : Prop where
  spaced : s.claims.Pairwise fun a b => a.time + notifyDedupMinutes ≤ b.time
  once : s.claims.Pairwise fun a b => a.run ≠ b.run
  past : ∀ c ∈ s.claims, c.time ≤ s.clock
  stamped : ∀ c ∈ s.claims, c.Stamped s.runs
  recorded : ∀ d ∈ s.deliveries, ∀ row ∈ s.runs, row.id = d.2 → row.notifyOutcome.isDelivery = true

/-- What a call knows in a stage: that it holds the lock, and that every claim is outside the
window of its own and for another run. -/
def Knows (i : Nat) : Stage → Store → Prop
  | .free, _ => True
  | .locked, s => s.holder = some i
  | .selected run time, s =>
    s.holder = some i ∧ time ≤ s.clock ∧
      ∀ c ∈ s.claims, c.time + notifyDedupMinutes ≤ time ∧ c.run ≠ run

variable {s s' : Store} {i run : Nat} {time : Int}

/-- The clock only moves on, and while a call holds the lock nobody takes it or claims. -/
theorem Knows.frame {stage : Stage} (h : Knows i stage s) (hclock : s.clock ≤ s'.clock)
    (hheld : s.holder = some i → s'.holder = some i ∧ s'.claims = s.claims) :
    Knows i stage s' := by
  cases stage with
  | free => trivial
  | locked => exact (hheld h).1
  | selected run time =>
    obtain ⟨hholder, htime, hclaims⟩ := h
    obtain ⟨hholder', hsame⟩ := hheld hholder
    exact ⟨hholder', Int.le_trans htime hclock, hsame ▸ hclaims⟩

/-- The lock of another call stays taken when a call gives up its own. -/
theorem release_other {k : Nat} (hne : k ≠ i) (hholder : s.holder = some k) :
    (if s.holder = some i then none else s.holder) = some k := by
  rw [if_neg, hholder]
  intro heq
  exact hne (Option.some.inj (hholder.symm.trans heq))

theorem Claim.Stamped.map {runs : List Run} {c : Claim} (h : c.Stamped runs) {f : Run → Run}
    (hid : ∀ row, (f row).id = row.id)
    (hstamp : ∀ row, row.id = c.run → (∃ stamp ∈ row.notifiedAt, c.time ≤ stamp) →
      ∃ stamp ∈ (f row).notifiedAt, c.time ≤ stamp) : c.Stamped (runs.map f) := by
  obtain ⟨⟨row, hrow, hrun⟩, hall⟩ := h
  refine ⟨⟨f row, mem_map_of_mem hrow, (hid row).trans hrun⟩, ?_⟩
  intro row' hrow' hrun'
  obtain ⟨row, hrow, rfl⟩ := mem_map.mp hrow'
  rw [hid] at hrun'
  exact hstamp row hrun' (hall row hrow hrun')

/-- A snapshot admits a claim only outside the window of every claim so far, and for a run that
has none. -/
theorem claimable_clear (hs : Sound s) (h : s.claimable run = true) :
    ∀ c ∈ s.claims, c.time + notifyDedupMinutes ≤ s.clock ∧ c.run ≠ run := by
  intro c hc
  simp only [Store.claimable, Bool.and_eq_true, any_eq_true, all_eq_true, beq_iff_eq,
    Bool.or_eq_true, Option.all_eq_true, decide_eq_true_eq] at h
  obtain ⟨⟨blank, hblank, hid, hnone⟩, hclear⟩ := h
  obtain ⟨⟨row, hrow, hrun⟩, hstamped⟩ := hs.stamped c hc
  have hne : c.run ≠ run := by
    intro heq
    obtain ⟨stamp, hstamp, _⟩ := hstamped blank hblank (hid.trans heq.symm)
    rw [Option.mem_def.mp hstamp] at hnone
    cases hnone
  refine ⟨?_, hne⟩
  obtain ⟨stamp, hstamp, hle⟩ := hstamped row hrow hrun
  rcases hclear row hrow with hsame | hclear
  · exact absurd (hrun.symm.trans hsame) hne
  · have hold := hclear stamp hstamp
    omega

theorem stamp_id (row : Run) : (row.stamp run time).id = row.id := by
  unfold Run.stamp
  split <;> rfl

theorem stamp_outcome (row : Run) : (row.stamp run time).notifyOutcome = row.notifyOutcome := by
  unfold Run.stamp
  split <;> rfl

theorem write_claim_sound (hs : Sound s) (hknows : Knows i (.selected run time) s)
    (hfree : s.runs.any fun row => row.id == run && row.notifiedAt.isNone) :
    Sound { s with
      runs := s.runs.map (Run.stamp run time), claims := s.claims ++ [⟨i, run, time⟩] } := by
  obtain ⟨_, htime, hclear⟩ := hknows
  have hlast : ∀ {r : Claim → Claim → Prop}, s.claims.Pairwise r →
      (∀ c ∈ s.claims, r c ⟨i, run, time⟩) →
        (s.claims ++ [(⟨i, run, time⟩ : Claim)]).Pairwise r := by
    intro r hpairs hnew
    refine pairwise_append.mpr ⟨hpairs, pairwise_singleton .., fun c hc d hd => ?_⟩
    rw [mem_singleton.mp hd]
    exact hnew c hc
  refine ⟨hlast hs.spaced fun c hc => (hclear c hc).1, hlast hs.once fun c hc => (hclear c hc).2,
    ?_, ?_, ?_⟩
  · intro c hc
    rcases mem_append.mp hc with hc | hc
    · exact hs.past c hc
    · rw [mem_singleton.mp hc]
      exact htime
  · intro c hc
    rcases mem_append.mp hc with hc | hc
    · refine (hs.stamped c hc).map stamp_id fun row hrow hstamp => ?_
      rwa [Run.stamp, if_neg fun heq => (hclear c hc).2 (hrow.symm.trans heq)]
    · rw [mem_singleton.mp hc]
      obtain ⟨row, hrow, hfound⟩ := any_eq_true.mp hfree
      have hid : row.id = run := by simp_all
      refine ⟨⟨_, mem_map_of_mem hrow, (stamp_id row).trans hid⟩, fun row' hrow' hrun' => ?_⟩
      obtain ⟨row, _, rfl⟩ := mem_map.mp hrow'
      rw [stamp_id] at hrun'
      rw [Run.stamp, if_pos hrun']
      exact ⟨time, rfl, Int.le_refl time⟩
  · intro d hd row' hrow' hrun'
    obtain ⟨row, hrow, rfl⟩ := mem_map.mp hrow'
    rw [stamp_id] at hrun'
    rw [stamp_outcome]
    exact hs.recorded d hd row hrow hrun'

variable {outcome : Outcome} {stamp : Option Int}

theorem record_id {onlyIfBlank : Bool} (row : Run) :
    (row.record run outcome stamp onlyIfBlank).id = row.id := by
  unfold Run.record
  split <;> rfl

theorem record_of_nonblank {row : Run}
    (h : row.notifyOutcome ≠ .blank) : row.record run outcome stamp true = row :=
  if_neg fun hit => h (hit.2 rfl)

/-- A record of what became of the mail: a stamp of now, and a delivery gives way only to another
one. -/
theorem record_sound (hs : Sound s) {notified onlyIfBlank : Bool}
    (hallowed : outcome.isDelivery = !onlyIfBlank) :
    Sound { s with
      runs := s.runs.map
        (Run.record run outcome (if notified then some s.clock else none) onlyIfBlank)
      deliveries := if outcome.isDelivery then s.deliveries ++ [(i, run)] else s.deliveries } := by
  refine ⟨hs.spaced, hs.once, hs.past, ?_, ?_⟩
  · intro c hc
    refine (hs.stamped c hc).map record_id fun row _ hstamp => ?_
    unfold Run.record
    split
    · cases notified with
      | true => exact ⟨s.clock, rfl, hs.past c hc⟩
      | false => exact hstamp
    · exact hstamp
  · intro d hd row' hrow' hrun'
    obtain ⟨row, hrow, rfl⟩ := mem_map.mp hrow'
    rw [record_id] at hrun'
    cases onlyIfBlank with
    | true =>
      rw [hallowed] at hd
      have hdelivery := hs.recorded d hd row hrow hrun'
      rwa [record_of_nonblank]
      intro hblank
      rw [hblank] at hdelivery
      cases hdelivery
    | false =>
      unfold Run.record
      split
      · exact hallowed
      · rename_i hmiss
        rw [hallowed] at hd
        rcases mem_append.mp hd with hd | hd
        · exact hs.recorded d hd row hrow hrun'
        · rw [mem_singleton.mp hd] at hrun'
          exact absurd ⟨hrun', nofun⟩ hmiss

theorem machine_owns : machine.Owns protocol (fun _ _ _ => True) (fun _ => Sound) Knows where
  start hs := ⟨hs, trivial⟩
  exec := by
    intro n i stage c s r s' _ hs hknows hallowed _ hexec
    cases c with
    | readPaused =>
      cases hexec
      exact ⟨hs, hknows, fun _ _ _ h => h⟩
    | lock =>
      simp only [machine, Store.exec] at hexec
      split at hexec
      · rename_i hfree
        cases hexec
        refine ⟨{ hs with }, rfl, fun k w _ h => ?_⟩
        refine h.frame (Int.le_refl _) fun hheld => ?_
        rw [hfree] at hheld
        cases hheld
      · cases hexec
    | selectClaim run =>
      cases hexec
      refine ⟨hs, ?_, fun _ _ _ h => h⟩
      obtain rfl : stage = .locked := hallowed
      by_cases hclaim : s.claimable run = true
      · rw [if_pos hclaim]
        exact ⟨hknows, Int.le_refl _, claimable_clear hs hclaim⟩
      · rw [if_neg hclaim]
        exact hknows
    | writeClaim run time =>
      obtain rfl : stage = .selected run time := hallowed
      simp only [machine, Store.exec] at hexec
      split at hexec
      · rename_i hfree
        cases hexec
        refine ⟨write_claim_sound hs hknows hfree, hknows.1, fun k w hne h => ?_⟩
        refine h.frame (Int.le_refl _) fun hheld => ?_
        exact absurd (Option.some.inj (hheld.symm.trans hknows.1)) hne
      · cases hexec
        exact ⟨hs, hknows.1, fun _ _ _ h => h⟩
    | unlock =>
      cases hexec
      refine ⟨{ hs with }, trivial, ?_⟩
      intro k w hne h
      exact h.frame (Int.le_refl _) fun hheld => ⟨release_other hne hheld, rfl⟩
    | publish run =>
      cases hexec
      refine ⟨{ hs with }, ?_, ?_⟩
      · exact hknows.frame (Int.le_refl _) fun hheld => ⟨hheld, rfl⟩
      · intro k w _ h
        exact h.frame (Int.le_refl _) fun hheld => ⟨hheld, rfl⟩
    | record run outcome notified onlyIfBlank =>
      cases hexec
      refine ⟨record_sound hs hallowed, ?_, ?_⟩
      · exact hknows.frame (Int.le_refl _) fun hheld => ⟨hheld, rfl⟩
      · intro k w _ h
        exact h.frame (Int.le_refl _) fun hheld => ⟨hheld, rfl⟩
  caught := by
    intro n i stage c s r _ _ hknows hallowed hcaught
    cases hcaught
    cases c with
    | writeClaim run time =>
      obtain rfl : stage = .selected run time := hallowed
      exact hknows.1
    | lock | unlock => trivial
    | _ => exact hknows
  abort := by
    intro n i s hs
    refine ⟨{ hs with }, fun k w hne h => ?_⟩
    exact h.frame (Int.le_refl _) fun hheld => ⟨release_other hne hheld, rfl⟩
  environment := by
    intro n e s hs
    cases e with
    | tick microseconds =>
      have hclock : s.clock ≤ s.clock + microseconds := by omega
      refine ⟨⟨hs.spaced, hs.once, fun c hc => Int.le_trans (hs.past c hc) hclock, hs.stamped,
        hs.recorded⟩, fun k w h => ?_⟩
      exact h.frame hclock fun hheld => ⟨hheld, rfl⟩
    | pause paused =>
      refine ⟨{ hs with }, fun k w h => ?_⟩
      exact h.frame (Int.le_refl _) fun hheld => ⟨hheld, rfl⟩

/-- After every interleaving of calls, whichever statements raise and calls die: the claims of the
window are at least its length apart, in the order in which they were obtained, and for different
runs; and a run that reads as skipped has no recorded delivery, so that only a call which has not
recorded its delivery can have published for it. -/
theorem window_claims (ids : List Nat) (clock : Int) (events : List (Event (Bool × Nat) World)) :
    let s := (after ids clock events).shared
    s.claims.Pairwise (fun a b => a.time + notifyDedupMinutes ≤ b.time ∧ a.run ≠ b.run) ∧
      ∀ row ∈ s.runs, row.notifyOutcome.isSkip = true → ∀ call, (call, row.id) ∉ s.deliveries := by
  have hstart : Sound (.initial ids clock) := ⟨.nil, .nil, nofun, nofun, nofun⟩
  have hs := (System.run_owned machine_owns notify_completed_follows hstart
    (System.meets_of_forall System.acts_meet_true _ events)).2.1
  refine ⟨hs.spaced.and hs.once, fun row hrow hskip call hcall => ?_⟩
  have hdelivery := hs.recorded (call, row.id) hcall row hrow rfl
  cases hrow : row.notifyOutcome <;> simp_all [Outcome.isSkip, Outcome.isDelivery]

/-- Two claims exactly a window apart, where the first mail did not go out; and a run that reads as
skipped after its mail, when it is driven again before the first call has recorded that. -/
theorem window_edge_and_skipped_mail : (after [1, 2] 0
      ([.start (true, 1)] ++ replicate 5 (.act 0) ++ [.raise 0, .act 0,
        .environment (.tick 3600000000), .start (true, 2)] ++ replicate 5 (.act 1))).shared.claims =
        [⟨0, 1, 0⟩, ⟨1, 2, 3600000000⟩] ∧
      let s := (after [1] 0 ([.start (true, 1)] ++ replicate 6 (.act 0) ++ [.start (true, 1)] ++
          replicate 4 (.act 1))).shared
      s.mails = [(0, 1)] ∧ s.runs.map Run.notifyOutcome = [.skippedDedup] := by
  decide

end AwsOps.Compliance.Notify

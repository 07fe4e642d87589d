import AwsOps.Inventory.Sync

/-!
# The stages of a sync run

The stage of a run says how far it has got with its lock and what it has done. `follows_sync` says
that a run writes resource rows only between its running row and its unlock, and that it sets
`succeeded` only after it has unlocked and has finished: the records collected without a failure,
every identity upserted, both phases of the prune done, and every account in question vouched for.
-/

namespace AwsOps.Inventory

open List Follows

/-- How far a run has got: it has no connection, has one, holds the lock, has marked its row, has
unlocked after all went well, or has failed or found the type busy. -/
inductive Phase
  | fresh | connected | locked | marked | released | failed
  deriving DecidableEq

/-- The stage of a run: its phase, its token, and what it has done. -/
structure Stage where
  phase : Phase
  token : Option Nat
  targets : List String
  collected : Option Collected
  upserted : List Key
  swept : Bool
  reachable : List String
  listed : Option (List Key)
  deleted : List Key

/-- The run has proven the account reachable: it answered the probe, the host under its own
identifier. SDK types do not probe the host. -/
def Stage.Proven (world : World) (v : Stage) (accountId : String) : Prop :=
  accountId ∈ v.reachable ∨ accountId = "self" ∧ (world.sdk ∨ world.host ∈ v.reachable)

/-- The run vouches for the account: the account returned a record, or it is proven reachable. -/
def Stage.Vouched (world : World) (v : Stage) (c : Collected) (accountId : String) : Prop :=
  (∃ id ∈ world.identities c, id.1.accountId = accountId) ∨ v.Proven world accountId

/-- The accounts that the run has to vouch for: those that returned a record, the host, and the
expected ones of types without an SDK collector. -/
def Stage.Concerns (world : World) (v : Stage) (c : Collected) (accountId : String) : Prop :=
  (∃ id ∈ world.identities c, id.1.accountId = accountId) ∨ accountId = "self" ∨
    world.sdk = false ∧ accountId ∈ v.targets

/-- The run has finished its collection, its upserts and its prunes. -/
structure Stage.Finished (world : World) (v : Stage) (c : Collected) : Prop where
  collected : v.collected = some c
  noFailure : c.failureCount = 0
  upserted : ∀ id ∈ world.identities c, id.1 ∈ v.upserted
  swept : v.swept
  vouched : ∀ accountId, v.Concerns world c accountId → v.Vouched world c accountId
  deleted : ∃ existing, v.listed = some existing ∧ ∀ key ∈ existing,
    v.Concerns world c key.accountId → key ∈ (world.identities c).map Prod.fst ∨ key ∈ v.deleted

/-- The run has failed. -/
def Stage.fail (v : Stage) : Stage :=
  { v with phase := .failed }

/-- The stage after a statement that did not raise. -/
def Stage.succeed (v : Stage) : (c : Statement) → Reply c → Stage
  | .newRunToken, token => { v with token := some token }
  | .aurora, _ => { v with phase := .connected }
  | .tryLock, got => { v with phase := if got then .locked else .failed }
  | .upsertRunning _, _ => { v with phase := .marked }
  | .targetAccounts, targets => { v with targets := targets }
  | .collectSdk, collection => { v with collected := some collection.collected }
  | .runQuery, found => { v with collected := some (queried found.1 found.2) }
  | .upsertResource key _, _ => { v with upserted := key :: v.upserted }
  | .phase1Prune, _ => { v with swept := true }
  | .probe accountId, reachable =>
    { v with reachable := if reachable then accountId :: v.reachable else v.reachable }
  | .listResources, keys => { v with listed := some keys }
  | .deleteResource key, _ => { v with deleted := key :: v.deleted }
  | .unlock, _ => { v with phase := if v.phase = .marked then .released else .failed }
  | .writeSnapshot .., _ | .close, _ | .finalize .., _ => v

/-- The stages of a run. -/
def protocol (world : World) : Protocol Statement Answer Stage where
  initial := ⟨.fresh, none, [], none, [], false, [], none, []⟩
  allowed v
    | .newRunToken | .aurora => v.phase = .fresh
    | .tryLock => v.phase = .connected
    | .upsertRunning token => v.phase = .locked ∧ v.token = some token
    | .upsertResource .. | .phase1Prune | .deleteResource _ => v.phase = .marked
    | .unlock => v.phase = .marked ∨ v.phase = .failed
    | .finalize token pending =>
      v.token = some token ∧
        (pending.status = .succeeded → v.phase = .released ∧ ∃ c, v.Finished world c)
    | .targetAccounts | .collectSdk | .runQuery | .probe _ | .listResources | .writeSnapshot ..
    | .close => True
  after v c r :=
    match r with
    | .ok reply => v.succeed c reply
    | .error _ => v.fail

section Programs

variable {world : World} {v : Stage}

/-- What the parts of the work do to the stage: the token and, unless they fail, the phase stay. -/
structure Stage.Continues (v w : Stage) : Prop where
  token : w.token = v.token
  phase : w.phase = v.phase

theorem Stage.Continues.refl (v : Stage) : v.Continues v :=
  ⟨rfl, rfl⟩

/-- What comes of a part of the work: it fails and the run has failed, or the assertion holds. -/
def Yield {α : Type} (v : Stage) (Q : α → Stage → Prop) (r : Except String α) (w : Stage) : Prop :=
  match r with
  | .error _ => w.phase = .failed ∧ w.token = v.token
  | .ok a => v.Continues w ∧ Q a w

/-- Parts in sequence. -/
theorem yield_bind {α β : Type} {p : Work α} {f : α → Work β} {Q : α → Stage → Prop}
    {Q' : β → Stage → Prop} (hp : Attempts (protocol world) v p (Yield v Q))
    (hf : ∀ a w, v.Continues w → Q a w → Attempts (protocol world) w (f a) (Yield w Q')) :
    Attempts (protocol world) v (p >>= f) (Yield v Q') := by
  refine Attempts.bind hp (fun e w h => h) ?_
  rintro a w ⟨hcontinues, hQ⟩
  refine (hf a w hcontinues hQ).mono ?_
  intro r u hr
  cases r with
  | error e => exact ⟨hr.1, hr.2.trans hcontinues.token⟩
  | ok b =>
    exact ⟨⟨hr.1.token.trans hcontinues.token, hr.1.phase.trans hcontinues.phase⟩, hr.2⟩

theorem yield_send {c : Statement} {Q : Reply c → Stage → Prop}
    (hallowed : (protocol world).allowed v c)
    (hafter : ∀ reply, v.Continues (v.succeed c reply) ∧ Q reply (v.succeed c reply)) :
    Attempts (protocol world) v (send c) (Yield v Q) := by
  refine Attempts.attempt hallowed ?_
  intro r
  cases r with
  | error e => exact ⟨rfl, rfl⟩
  | ok reply => exact hafter reply

theorem yield_pure {α : Type} {a : α} {Q : α → Stage → Prop} (h : Q a v) :
    Attempts (protocol world) v (pure a : Work α) (Yield v Q) :=
  Attempts.pure ⟨Stage.Continues.refl v, h⟩

theorem follows_expectedTargets : Attempts (protocol world) v (expectedTargets world)
      (Yield v fun targets w => world.sdk = false → w = { v with targets := targets }) := by
  unfold expectedTargets
  split
  · rename_i hsdk
    refine yield_pure fun h => ?_
    rw [hsdk] at h
    cases h
  · exact yield_send trivial fun targets => ⟨⟨rfl, rfl⟩, fun _ => rfl⟩

theorem follows_collect : Attempts (protocol world) v (collect world)
      (Yield v fun collected w => w = { v with collected := some collected }) := by
  unfold collect
  split
  · refine yield_bind (Q := fun (r : SdkCollection) w => w = { v with collected := some r.collected })
      (yield_send (c := .collectSdk) trivial fun _ => ⟨⟨rfl, rfl⟩, rfl⟩) ?_
    intro collection w _ hw
    exact yield_pure hw
  · refine yield_bind
      (Q := fun (r : List Record × Bool) w => w = { v with collected := some (queried r.1 r.2) })
      (yield_send (c := .runQuery) trivial fun _ => ⟨⟨rfl, rfl⟩, rfl⟩) ?_
    intro found w _ hw
    exact yield_pure hw

theorem follows_upsertAll {ids : List (Key × String)} (hphase : v.phase = .marked) :
    Attempts (protocol world) v (upsertAll ids) (Yield v fun _ w =>
      ∃ upserted, w = { v with upserted := upserted } ∧ (∀ key ∈ v.upserted, key ∈ upserted) ∧
        ∀ id ∈ ids, id.1 ∈ upserted) := by
  induction ids generalizing v with
  | nil => exact yield_pure ⟨v.upserted, rfl, fun _ h => h, nofun⟩
  | cons id rest ih =>
    refine yield_bind (Q := fun _ w => w = { v with upserted := id.1 :: v.upserted })
      (yield_send (c := .upsertResource id.1 id.2) hphase fun _ => ⟨⟨rfl, rfl⟩, rfl⟩) ?_
    rintro _ w hcontinues rfl
    show Attempts (protocol world) _ (upsertAll rest) _
    refine (ih (v := { v with upserted := id.1 :: v.upserted }) hphase).mono ?_
    intro r u hr
    cases r with
    | error e => exact hr
    | ok _ =>
      obtain ⟨hr, upserted, rfl, hkept, hrest⟩ := hr
      refine ⟨hr, upserted, rfl, fun key h => hkept key (mem_cons_of_mem _ h), ?_⟩
      intro other hother
      rcases mem_cons.mp hother with rfl | hother
      · exact hkept _ mem_cons_self
      · exact hrest other hother

/-- A probe that says yes is noted in the stage. -/
theorem follows_accountReachable {accountId : String} :
    Attempts (protocol world) v (accountReachable accountId) (Yield v fun r w =>
      ∃ reachable, w = { v with reachable := reachable } ∧ (∀ a ∈ v.reachable, a ∈ reachable) ∧
        (r = true → accountId ∈ reachable)) := by
  unfold accountReachable
  split
  · refine yield_send trivial ?_
    intro r
    cases r with
    | false => exact ⟨⟨rfl, rfl⟩, v.reachable, rfl, fun _ h => h, nofun⟩
    | true =>
      exact ⟨⟨rfl, rfl⟩, accountId :: v.reachable, rfl,
        fun _ h => mem_cons_of_mem _ h, fun _ => mem_cons_self⟩
  · exact yield_pure ⟨v.reachable, rfl, fun _ h => h, nofun⟩

/-- Every account of the list is present or unreachable. -/
def Reached.Settles (reached : Reached) (accounts : List String) : Prop :=
  ∀ accountId ∈ accounts, accountId ∈ reached.present ∨ accountId ∈ reached.unreachable

/-- What the probes do: the accounts that become present are proven reachable, and no verdict is
taken back. -/
structure Extends (world : World) (w : Stage) (reached reached' : Reached) : Prop where
  present : ∀ a ∈ reached'.present, a ∈ reached.present ∨ w.Proven world a
  kept : ∀ a ∈ reached.present, a ∈ reached'.present
  unreachable : ∀ a ∈ reached.unreachable, a ∈ reached'.unreachable

theorem Extends.refl (w : Stage) (reached : Reached) : Extends world w reached reached :=
  ⟨fun _ h => .inl h, fun _ h => h, fun _ h => h⟩

variable {accountId : String} {reached : Reached}

theorem Proven.mono {reachable : List String} (h : ∀ a ∈ v.reachable, a ∈ reachable)
    (hproven : v.Proven world accountId) :
    ({ v with reachable := reachable } : Stage).Proven world accountId := by
  rcases hproven with hproven | ⟨hself, hproven⟩
  · exact .inl (h _ hproven)
  · exact .inr ⟨hself, hproven.imp id (h _)⟩

theorem extends_note {reachable : Bool} (h : reachable = true → v.Proven world accountId) :
    Extends world v reached (reached.note accountId reachable) ∧
      (reached.note accountId reachable).Settles [accountId] := by
  cases reachable with
  | false =>
    refine ⟨⟨fun _ h => .inl h, fun _ h => h, fun _ h => mem_cons_of_mem _ h⟩, ?_⟩
    intro a ha
    rw [mem_singleton.mp ha]
    exact .inr mem_cons_self
  | true =>
    refine ⟨⟨?_, fun _ h => mem_cons_of_mem _ h, fun _ h => h⟩, ?_⟩
    · intro a ha
      rcases mem_cons.mp ha with rfl | ha
      · exact .inr (h rfl)
      · exact .inl ha
    · intro a ha
      rw [mem_singleton.mp ha]
      exact .inl mem_cons_self

theorem follows_probeHost :
    Attempts (protocol world) v (probeHost world reached) (Yield v fun reached' w =>
      ∃ reachable, w = { v with reachable := reachable } ∧ (∀ a ∈ v.reachable, a ∈ reachable) ∧
        Extends world w reached reached' ∧ reached'.Settles ["self"]) := by
  unfold probeHost
  split
  · rename_i hpresent
    refine yield_pure ⟨v.reachable, rfl, fun _ h => h, Extends.refl v reached, ?_⟩
    intro a ha
    rw [mem_singleton.mp ha]
    exact .inl (by simpa using hpresent)
  · split
    · rename_i hsdk
      exact yield_pure ⟨v.reachable, rfl, fun _ h => h, extends_note fun _ => .inr ⟨rfl, .inl hsdk⟩⟩
    · refine yield_bind follows_accountReachable ?_
      rintro r w hcontinues ⟨reachable, rfl, hkept, hr⟩
      exact yield_pure ⟨reachable, rfl, hkept, extends_note fun h => .inr ⟨rfl, .inr (hr h)⟩⟩

/-- The probes of the expected accounts. -/
theorem follows_probeTargets {targets : List String} :
    Attempts (protocol world) v (probeTargets targets reached) (Yield v fun reached' w =>
      ∃ reachable, w = { v with reachable := reachable } ∧ (∀ a ∈ v.reachable, a ∈ reachable) ∧
        Extends world w reached reached' ∧ reached'.Settles targets) := by
  induction targets generalizing v reached with
  | nil => exact yield_pure ⟨v.reachable, rfl, fun _ h => h, Extends.refl v reached, nofun⟩
  | cons accountId rest ih =>
    unfold probeTargets
    split
    · rename_i hpresent
      refine ih.mono ?_
      intro r w hr
      cases r with
      | error e => exact hr
      | ok reached' =>
        obtain ⟨hr, reachable, rfl, hkept, hextends, hsettles⟩ := hr
        refine ⟨hr, reachable, rfl, hkept, hextends, ?_⟩
        intro a ha
        rcases mem_cons.mp ha with rfl | ha
        · exact .inl (hextends.kept a (by simpa using hpresent))
        · exact hsettles a ha
    · refine yield_bind follows_accountReachable ?_
      rintro r w _ ⟨reachable, rfl, hkept, hr⟩
      refine (ih (v := { v with reachable := reachable })).mono ?_
      intro r' u hu
      cases r' with
      | error e => exact hu
      | ok reached' =>
        obtain ⟨hcontinues, reachable', rfl, hkept', hextends, hsettles⟩ := hu
        obtain ⟨hnote, hnoted⟩ :
            Extends world { v with reachable := reachable } reached (reached.note accountId r) ∧
              (reached.note accountId r).Settles [accountId] :=
          extends_note fun h => .inl (hr h)
        refine ⟨hcontinues, reachable', rfl, fun a h => hkept' a (hkept a h),
          ⟨?_, fun a h => hextends.kept a (hnote.kept a h),
            fun a h => hextends.unreachable a (hnote.unreachable a h)⟩, ?_⟩
        · intro a ha
          rcases hextends.present a ha with h | h
          · exact (hnote.present a h).imp id (Proven.mono hkept')
          · exact .inr h
        · intro a ha
          rcases mem_cons.mp ha with rfl | ha
          · exact (hnoted a (mem_singleton_self a)).imp (hextends.kept a)
              (hextends.unreachable a)
          · exact hsettles a ha

theorem follows_deleteStale {present : List String} {seen existing : List Key}
    (hphase : v.phase = .marked) :
    Attempts (protocol world) v (deleteStale present seen existing) (Yield v fun _ w =>
      ∃ deleted, w = { v with deleted := deleted } ∧ (∀ key ∈ v.deleted, key ∈ deleted) ∧
        ∀ key ∈ existing, staleKey present seen key → key ∈ deleted) := by
  induction existing generalizing v with
  | nil => exact yield_pure ⟨v.deleted, rfl, fun _ h => h, nofun⟩
  | cons key rest ih =>
    refine yield_bind (Q := fun _ w => ∃ deleted, w = { v with deleted := deleted } ∧
      (∀ key ∈ v.deleted, key ∈ deleted) ∧ (staleKey present seen key → key ∈ deleted)) ?_ ?_
    · dsimp only
      split
      · exact yield_send hphase fun _ => ⟨⟨rfl, rfl⟩, key :: v.deleted, rfl,
          fun _ h => mem_cons_of_mem _ h, fun _ => mem_cons_self⟩
      · rename_i hstale
        exact yield_pure ⟨v.deleted, rfl, fun _ h => h, fun h => absurd h hstale⟩
    · rintro _ w hcontinues ⟨deleted, rfl, hkept, hdeleted⟩
      show Attempts (protocol world) _ (deleteStale present seen rest) _
      refine (ih (v := { v with deleted := deleted }) hphase).mono ?_
      intro r u hr
      cases r with
      | error e => exact hr
      | ok _ =>
        obtain ⟨hr, deleted', rfl, hkept', hrest⟩ := hr
        refine ⟨hr, deleted', rfl, fun key h => hkept' key (hkept key h), ?_⟩
        intro other hother hstale
        rcases mem_cons.mp hother with rfl | hother
        · exact hkept' _ (hdeleted hstale)
        · exact hrest other hother hstale

/-- What the prune has done when the run vouches for every account in question. -/
structure Pruned (world : World) (targets : List String) (seen : List Key) (reached : Reached)
    (v w : Stage) : Prop where
  others : w.collected = v.collected ∧ w.upserted = v.upserted ∧ w.targets = v.targets
  swept : w.swept
  present : ∀ a ∈ reached.present, a ∈ seen.map Key.accountId ∨ w.Proven world a
  kept : ∀ a ∈ seen.map Key.accountId, a ∈ reached.present
  host : "self" ∈ reached.present ∨ "self" ∈ reached.unreachable
  targets : world.sdk = false → reached.Settles targets
  deleted : ∃ existing, w.listed = some existing ∧
    ∀ key ∈ existing, staleKey reached.present seen key → key ∈ w.deleted

variable {targets : List String} {token : Nat} {pending : Pending}

theorem follows_prune {seen : List Key} (hphase : v.phase = .marked) :
    Attempts (protocol world) v (prune world targets seen)
      (Yield v fun reached w => Pruned world targets seen reached v w) := by
  refine yield_bind (Q := fun _ w => w = { v with swept := true })
    (yield_send (c := .phase1Prune) hphase fun _ => ⟨⟨rfl, rfl⟩, rfl⟩) ?_
  rintro _ w _ rfl
  refine yield_bind follows_probeHost ?_
  rintro hosted w _ ⟨reachable, rfl, _, hhost, hhosted⟩
  -- SDK types have no expected accounts.
  have htargets : Attempts (protocol world) { v with swept := true, reachable := reachable }
      (probeExpected world targets hosted)
      (Yield { v with swept := true, reachable := reachable } fun reached w =>
        ∃ reachable', w = { v with swept := true, reachable := reachable' } ∧
          (∀ a ∈ reachable, a ∈ reachable') ∧ Extends world w hosted reached ∧
          (world.sdk = false → reached.Settles targets)) := by
    unfold probeExpected
    split
    · rename_i hsdk
      refine yield_pure ⟨reachable, rfl, fun _ h => h, Extends.refl _ hosted, fun h => ?_⟩
      rw [hsdk] at h
      cases h
    · refine follows_probeTargets.mono ?_
      intro r w hr
      cases r with
      | error e => exact hr
      | ok reached =>
        obtain ⟨hr, reachable', rfl, hkept, hextends, hsettles⟩ := hr
        exact ⟨hr, reachable', rfl, hkept, hextends, fun _ => hsettles⟩
  refine yield_bind htargets ?_
  rintro reached w _ ⟨reachable', rfl, hkept, hextends, hsettles⟩
  refine yield_bind
    (Q := fun keys w => w = { v with swept := true, reachable := reachable', listed := some keys })
    (yield_send (c := .listResources) trivial fun _ => ⟨⟨rfl, rfl⟩, rfl⟩) ?_
  rintro existing w _ rfl
  refine yield_bind (follows_deleteStale hphase) ?_
  rintro _ w _ ⟨deleted, rfl, _, hdeleted⟩
  refine yield_pure ⟨⟨rfl, rfl, rfl⟩, rfl, ?_, fun a h => hextends.kept a (hhost.kept a h), ?_,
    hsettles, existing, rfl, hdeleted⟩
  · intro a ha
    rcases hextends.present a ha with h | h
    · exact (hhost.present a h).imp id (Proven.mono hkept)
    · exact .inr h
  · exact (hhosted "self" (mem_singleton_self _)).imp (hextends.kept _)
      (hextends.unreachable _)

theorem Pruned.finished {w : Stage} {c : Collected} {reached : Reached}
    (h : Pruned world targets ((world.identities c).map Prod.fst) reached v w)
    (hcollected : v.collected = some c) (hfailure : c.failureCount = 0)
    (hupserted : ∀ id ∈ world.identities c, id.1 ∈ v.upserted)
    (htargets : world.sdk = false → v.targets = targets) (hreached : reached.unreachable = []) :
    w.Finished world c := by
  obtain ⟨hw, hwupserted, hwtargets⟩ := h.others
  have hall : ∀ accountId, w.Concerns world c accountId → accountId ∈ reached.present := by
    rintro accountId (⟨id, hid, rfl⟩ | rfl | ⟨hsdk, haccount⟩)
    · exact h.kept _ (mem_map_of_mem (mem_map_of_mem hid))
    · exact h.host.resolve_right (by simp [hreached])
    · rw [hwtargets, htargets hsdk] at haccount
      exact (h.targets hsdk accountId haccount).resolve_right (by simp [hreached])
  refine ⟨hw.trans hcollected, hfailure, ?_, h.swept, ?_, ?_⟩
  · rw [hwupserted]
    exact hupserted
  · intro accountId haccount
    refine (h.present accountId (hall accountId haccount)).imp ?_ id
    intro hmem
    obtain ⟨key, hkey, rfl⟩ := mem_map.mp hmem
    obtain ⟨id, hid, rfl⟩ := mem_map.mp hkey
    exact ⟨id, hid, rfl⟩
  · obtain ⟨existing, hlisted, hdeleted⟩ := h.deleted
    refine ⟨existing, hlisted, ?_⟩
    intro key hkey hconcerns
    by_cases hseen : key ∈ (world.identities c).map Prod.fst
    · exact .inl hseen
    · refine .inr (hdeleted key hkey ?_)
      unfold staleKey
      simp only [Bool.and_eq_true, contains_iff_mem, Bool.not_eq_true']
      exact ⟨hall _ hconcerns, by simpa using hseen⟩

/-- What comes of the sweep: the run has failed, or it has marked its row, and it has finished if
the pending status is `succeeded`. -/
def SweepYield {α : Type} (world : World) (v : Stage) (pending : α → Pending)
    (r : Except String α) (w : Stage) : Prop :=
  w.token = v.token ∧
    match r with
    | .error _ => w.phase = .failed
    | .ok a => w.phase = .marked ∧
        ((pending a).status = .succeeded → ∃ c, w.Finished world c)

/-- The run from the running row to the prune. -/
theorem follows_sweep (hphase : v.phase = .locked) (htoken : v.token = some token) :
    Attempts (protocol world) v (sweep world token) (SweepYield world v Swept.pending) := by
  refine Attempts.attempt_bind ⟨hphase, htoken⟩ (fun e => ⟨rfl, rfl⟩) ?_
  intro reply
  have hrest : Attempts (protocol world) { v with phase := .marked } (do
      let targets ← expectedTargets world
      let collected ← collect world
      let ids := world.identities collected
      upsertAll ids
      if 0 < collected.failureCount then
        pure ⟨⟨.partially, some ids.length, none, collected.unknownAttributeCount⟩, [], ids⟩
      else do
        let reached ← prune world targets (ids.map Prod.fst)
        pure ⟨⟨reached.status, some ids.length, none, collected.unknownAttributeCount⟩,
          reached.present, ids⟩)
      (Yield { v with phase := .marked } fun (swept : Swept) w =>
        swept.pending.status = .succeeded → ∃ c, w.Finished world c) := by
    refine yield_bind follows_expectedTargets ?_
    intro targets w₁ hw₁ htargets
    refine yield_bind follows_collect ?_
    rintro collected w₂ _ rfl
    refine yield_bind (follows_upsertAll hw₁.phase) ?_
    rintro _ w₃ _ ⟨upserted, rfl, _, hupserted⟩
    dsimp only
    split
    · exact yield_pure nofun
    · rename_i hfailure
      refine yield_bind (follows_prune hw₁.phase) ?_
      intro reached w₄ _ hpruned
      refine yield_pure fun hstatus => ⟨collected, ?_⟩
      have hreached : reached.unreachable = [] := by
        by_contra hne
        simp [Reached.status, hne] at hstatus
      refine hpruned.finished rfl (by omega) hupserted (fun hsdk => ?_) hreached
      rw [htargets hsdk]
  refine Attempts.mono hrest ?_
  intro r w hr
  cases r with
  | error e => exact ⟨hr.2, hr.1⟩
  | ok swept => exact ⟨hr.1.token, hr.1.phase, hr.2⟩

theorem follows_writeSnapshots {swept : Swept} :
    Attempts (protocol world) v (writeSnapshots swept) (Yield v fun _ w => w = v) := by
  unfold writeSnapshots
  induction swept.present.dedup with
  | nil => exact yield_pure rfl
  | cons accountId rest ih =>
    refine yield_bind (Q := fun _ w => w = v)
      (yield_send trivial fun _ => ⟨Stage.Continues.refl v, rfl⟩) ?_
    rintro _ w _ rfl
    exact ih

/-- What comes of the work: the run has failed, or it has marked its row, and it has finished if
the pending status is `succeeded`. -/
def WorkYield (world : World) (v : Stage) (pending : Pending) (w : Stage) : Prop :=
  w.token = v.token ∧ (w.phase = .marked ∨ w.phase = .failed) ∧
    (pending.status = .succeeded → w.phase = .marked ∧ ∃ c, w.Finished world c)

theorem follows_work (hphase : v.phase = .locked) (htoken : v.token = some token) :
    Follows (protocol world) v (work world token) (WorkYield world v) := by
  refine bind (follows_sweep hphase htoken) ?_
  intro r w hr
  cases r with
  | error name => exact pure ⟨hr.1, .inr hr.2, nofun⟩
  | ok swept =>
    obtain ⟨hw, hmarked, hfinished⟩ := hr
    refine bind follows_writeSnapshots ?_
    intro r u hr
    cases r with
    | error name => exact pure ⟨hr.2.trans hw, .inr hr.1, nofun⟩
    | ok _ =>
      obtain ⟨_, rfl⟩ := hr
      exact pure ⟨hw, .inl hmarked, fun h => ⟨hmarked, hfinished h⟩⟩

theorem status_afterCleanup {unlocked closed : Except String Unit}
    (h : (afterCleanup pending unlocked closed).status = .succeeded) :
    (∃ a, unlocked = .ok a) ∧ (∃ b, closed = .ok b) ∧ pending.status = .succeeded := by
  cases unlocked with
  | error e => cases h
  | ok a =>
    cases closed with
    | error e => cases h
    | ok b => exact ⟨⟨a, rfl⟩, ⟨b, rfl⟩, h⟩

/-- The end of a run that held the lock. -/
theorem follows_finish (htoken : v.token = some token)
    (hphase : v.phase = .marked ∨ v.phase = .failed)
    (hfinished : pending.status = .succeeded → v.phase = .marked ∧ ∃ c, v.Finished world c) :
    Follows (protocol world) v (finish token pending) fun _ _ => True := by
  refine command_bind hphase fun unlocked => ?_
  refine command_bind trivial fun closed => ?_
  refine command_bind ⟨?_, ?_⟩ ?_
  · cases unlocked <;> cases closed <;> exact htoken
  · intro hstatus
    obtain ⟨⟨a, rfl⟩, ⟨b, rfl⟩, hpending⟩ := status_afterCleanup hstatus
    obtain ⟨hmarked, c, hc⟩ := hfinished hpending
    refine ⟨?_, c, hc.collected, hc.noFailure, hc.upserted, hc.swept, hc.vouched, hc.deleted⟩
    show (if v.phase = .marked then Phase.released else .failed) = .released
    rw [if_pos hmarked]
  · intro r
    match r with
    | .ok true => exact pure trivial
    | .ok false => exact pure trivial
    | .error _ => exact pure trivial

theorem follows_leave {result : Result} :
    Follows (protocol world) v (leave result) fun _ _ => True := by
  refine command_bind trivial ?_
  intro r
  cases r with
  | ok _ => exact pure trivial
  | error _ => exact pure trivial

theorem follows_sync (world : World) :
    Follows (protocol world) (protocol world).initial (sync world) fun _ _ => True := by
  refine command_bind rfl ?_
  intro r
  cases r with
  | error _ => exact pure trivial
  | ok token =>
    refine command_bind rfl ?_
    intro r
    cases r with
    | error _ => exact pure trivial
    | ok _ =>
      refine command_bind rfl ?_
      intro r
      match r with
      | .error _ => exact follows_leave
      | .ok false => exact follows_leave
      | .ok true =>
        refine bind (follows_work rfl rfl) ?_
        intro pending w hw
        exact follows_finish hw.1 hw.2.1 hw.2.2

end Programs

end AwsOps.Inventory

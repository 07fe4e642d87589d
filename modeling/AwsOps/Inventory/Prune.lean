import AwsOps.Inventory.Sync
import Mathlib.Data.List.Perm.Subperm

/-!
# What one sync run does to the resource rows

`prune_exact` is about one run of a Steampipe type that nothing interrupts. It deletes a row only
if the account is out of scan scope, or the account is vouched for and did not return the row; it
leaves the rows of unreachable accounts alone; and when it ends with `succeeded`, the rows are
exactly the returned ones, and counted, just when every returned account is in scope and no row
lies under the host's own identifier while the registry scans it. The identities are counted before
the first phase of the prune, which deletes those of accounts out of scope; and the host is neither
an expected account nor, under its own identifier, a present one.
-/

namespace AwsOps.Inventory

open List Solo Prod AList Reached

/-! ## Identities -/

theorem mem_setIdentity {key other : Key} {data : String} {ids : List (Key × String)} :
    other ∈ (setIdentity key data ids).map fst ↔ other = key ∨ other ∈ ids.map fst := by
  induction ids with
  | nil => simp [setIdentity]
  | cons entry rest ih =>
    unfold setIdentity
    split
    · rename_i h
      simp [h]
    · simp only [map_cons, mem_cons, ih]
      tauto

theorem nodup_setIdentity {key : Key} {data : String} {ids : List (Key × String)}
    (h : (ids.map fst).Nodup) : ((setIdentity key data ids).map fst).Nodup := by
  induction ids with
  | nil => simp [setIdentity]
  | cons entry rest ih =>
    rw [map_cons, nodup_cons] at h
    unfold setIdentity
    split
    · rename_i hkey
      rw [map_cons, nodup_cons, ← hkey]
      exact h
    · rename_i hkey
      rw [map_cons, nodup_cons]
      refine ⟨?_, ih h.2⟩
      intro hmem
      rcases mem_setIdentity.mp hmem with hmem | hmem
      · exact hkey hmem
      · exact h.1 hmem

theorem identities_spec (host : String) (records : List Record) :
    ((identities host records).map fst).Nodup ∧ ∀ key, key ∈ (identities host records).map fst ↔
        ∃ record ∈ records, record.key host = key := by
  unfold identities
  suffices h : ∀ ids : List (Key × String), (ids.map fst).Nodup →
      ((records.foldl (fun ids record => setIdentity (record.key host) record.data ids)
          ids).map fst).Nodup ∧
        ∀ key, key ∈ (records.foldl (fun ids record => setIdentity (record.key host) record.data ids)
          ids).map fst ↔ key ∈ ids.map fst ∨ ∃ record ∈ records, record.key host = key by
    obtain ⟨hnodup, hmem⟩ := h [] nodup_nil
    refine ⟨hnodup, fun key => ?_⟩
    rw [hmem key]
    simp
  induction records with
  | nil => exact fun ids h => ⟨h, by simp⟩
  | cons record rest ih =>
    intro ids h
    have hset : ((setIdentity (record.key host) record.data ids).map fst).Nodup :=
      nodup_setIdentity h
    obtain ⟨hnodup, hmem⟩ := ih _ hset
    refine ⟨hnodup, fun key => ?_⟩
    rw [foldl_cons, hmem key, mem_setIdentity]
    simp only [mem_cons, exists_eq_or_imp]
    tauto

theorem account_ne_host {world : World} (record : Record) :
    record.account world.host ≠ world.host := by
  have hself : "self" ≠ world.host := by
    intro h
    have hid := world.host_id
    rw [← h] at hid
    revert hid
    decide
  unfold Record.account
  split
  · split
    · exact hself
    · rename_i h
      exact fun he => h (.inr he)
  · exact hself

/-! ## The rows after a part of the run -/

/-- The tables with other resource rows and a longer history. -/
def Server.write (s : Server) (resources : Resources) (history : List Entry) : Server :=
  { s with tables := { s.tables with resources := resources, history := history } }

/-- The account answers the probe of a run. -/
def World.answers (world : World) (i : Nat) (accountId : String) : Bool :=
  isAccountId accountId && world.reachable i accountId

/-- The verdict on an account, unless it is present. -/
def Reached.settle (reached : Reached) (accountId : String) (reachable : Bool) : Reached :=
  if reached.present.contains accountId then reached else reached.note accountId reachable

theorem settle_spec (reached : Reached) (accountId : String) (reachable : Bool) :
    (∀ a, a ∈ (reached.settle accountId reachable).present ↔
      a ∈ reached.present ∨ a = accountId ∧ reachable) ∧
    ((reached.settle accountId reachable).unreachable = [] ↔
      reached.unreachable = [] ∧ (accountId ∈ reached.present ∨ reachable)) := by
  unfold settle
  split
  · rename_i h
    rw [contains_iff_mem] at h
    exact ⟨by grind, by simp [h]⟩
  · rename_i h
    rw [contains_iff_mem] at h
    unfold note
    cases reachable with
    | false => simp [h]
    | true =>
      refine ⟨fun a => ?_, by simp⟩
      simp only [if_true, mem_cons, and_true]
      exact or_comm

/-- The verdicts on the expected accounts. -/
theorem settle_all (world : World) (i : Nat) (targets : List String) (reached : Reached) :
    let all := targets.foldl (fun reached a => reached.settle a (world.answers i a)) reached
    (∀ a, a ∈ all.present ↔ a ∈ reached.present ∨ a ∈ targets ∧ world.answers i a) ∧
    (all.unreachable = [] ↔ reached.unreachable = [] ∧
      ∀ a ∈ targets, a ∈ reached.present ∨ world.answers i a) := by
  induction targets generalizing reached with
  | nil => simp
  | cons first rest ih =>
    obtain ⟨hpresent, hunreachable⟩ := settle_spec reached first (world.answers i first)
    obtain ⟨hpresent', hunreachable'⟩ := ih (reached.settle first (world.answers i first))
    refine ⟨?_, ?_⟩
    · intro a
      rw [foldl_cons, hpresent' a, hpresent a, mem_cons]
      grind
    · rw [foldl_cons, hunreachable', hunreachable, forall_mem_cons]
      simp only [hpresent]
      grind

section Parts

variable {world : World} {i : Nat} {s : Server}

theorem exec_alive (hs : s.session i = .alive) {c : Statement} (hc : c.onWork) : exec world i c s =
      some ((perform world i c s.tables).1, { s with tables := (perform world i c s.tables).2 }) := by
  unfold exec execWork
  rw [if_pos hc]
  simp only [hs]

theorem solo_upsertAll (hs : s.session i = .alive) (ids : List (Key × String)) :
    Solo (exec world i) s (upsertAll ids).run fun r s' => r = .ok () ∧
      ∃ resources history, s' = s.write resources history ∧ (∀ key ∈ ids.map fst, key ∈ resources) ∧
        ∀ key, key ∉ ids.map fst → resources.lookup key = s.tables.resources.lookup key := by
  induction ids generalizing s with
  | nil => exact pure ⟨rfl, s.tables.resources, s.tables.history, rfl, nofun, fun _ _ => rfl⟩
  | cons id rest ih =>
    refine attempt_bind (exec_alive hs (c := .upsertResource id.1 id.2) rfl) ?_
    refine mono (ih (s := s.write (s.tables.resources.insert id.1 id.2)
      (.wrote i :: s.tables.history)) hs) ?_
    rintro r s' ⟨rfl, resources, history, rfl, hthere, hother⟩
    refine ⟨rfl, resources, history, rfl, ?_, ?_⟩
    · intro key hkey
      by_cases hrest : key ∈ rest.map fst
      · exact hthere key hrest
      · rw [map_cons, mem_cons, or_iff_left hrest] at hkey
        subst hkey
        rw [← lookup_isSome, hother _ hrest]
        show (lookup id.1 (s.tables.resources.insert id.1 id.2)).isSome
        rw [lookup_insert]
        rfl
    · intro key hkey
      rw [map_cons, mem_cons, not_or] at hkey
      rw [hother key hkey.2]
      exact lookup_insert_ne hkey.1

theorem lookup_phase1Prune (registry : Registry) (resources : Resources) (key : Key) :
    (phase1Prune registry resources).lookup key =
      if key.accountId = "self" ∨ key.accountId ∈ registry.scope then resources.lookup key
      else none := by
  apply Option.ext
  intro data
  rw [← Option.mem_def, mem_lookup_iff]
  simp only [phase1Prune, mem_filter, Bool.or_eq_true, decide_eq_true_eq, contains_iff_mem]
  rw [← mem_lookup_iff, Option.mem_def]
  split
  · rename_i h
    exact and_iff_left h
  · rename_i h
    simp [h]

theorem solo_deleteStale (hs : s.session i = .alive) (present : List String)
    (seen existing : List Key) :
    Solo (exec world i) s (deleteStale present seen existing).run fun r s' => r = .ok () ∧
      ∃ resources history, s' = s.write resources history ∧ ∀ key, resources.lookup key =
          if key ∈ existing ∧ staleKey present seen key then none
          else s.tables.resources.lookup key := by
  induction existing generalizing s with
  | nil => exact pure ⟨rfl, s.tables.resources, s.tables.history, rfl, fun _ => by simp⟩
  | cons first rest ih =>
    have hfirst : Solo (exec world i) s
        (if staleKey present seen first then send (.deleteResource first) else pure ()).run
        fun r s' => r = .ok () ∧ ∃ resources history, s' = s.write resources history ∧
          ∀ key, resources.lookup key =
            if key = first ∧ staleKey present seen key then none
            else s.tables.resources.lookup key := by
      split
      · rename_i hstale
        refine call (exec_alive hs (c := .deleteResource first) rfl) (pure ?_)
        refine ⟨rfl, s.tables.resources.erase first, .wrote i :: s.tables.history, rfl, ?_⟩
        intro key
        by_cases hkey : key = first
        · subst hkey
          rw [lookup_erase, if_pos ⟨rfl, hstale⟩]
        · rw [lookup_erase_ne hkey, if_neg fun h => hkey h.1]
      · rename_i hstale
        refine pure ⟨rfl, s.tables.resources, s.tables.history, rfl, ?_⟩
        intro key
        rw [if_neg]
        rintro ⟨rfl, h⟩
        exact hstale h
    refine run_bind hfirst (fun e s' h => nomatch h.1) ?_
    rintro _ s' ⟨_, resources, history, rfl, hlookup⟩
    refine mono (ih (s := s.write resources history) hs) ?_
    rintro r s'' ⟨rfl, resources', history', rfl, hlookup'⟩
    refine ⟨rfl, resources', history', rfl, ?_⟩
    intro key
    rw [hlookup' key]
    show (if _ then _ else resources.lookup key) = _
    rw [hlookup key]
    grind

theorem solo_accountReachable (accountId : String) :
    Solo (exec world i) s (accountReachable accountId).run fun r s' =>
      r = .ok (world.answers i accountId) ∧ s' = s := by
  unfold accountReachable World.answers
  split
  · rename_i h
    have hexec : exec world i (.probe accountId) s = some (.ok (world.reachable i accountId), s) :=
      rfl
    exact call hexec (pure ⟨by rw [h, Bool.true_and], rfl⟩)
  · rename_i h
    exact pure ⟨by simp [h], rfl⟩

theorem solo_probeHost (hsdk : world.sdk = false) (reached : Reached) :
    Solo (exec world i) s (probeHost world reached).run fun r s' =>
      r = .ok (reached.settle "self" (world.answers i world.host)) ∧ s' = s := by
  unfold probeHost settle
  split
  · exact pure ⟨rfl, rfl⟩
  · rw [if_neg (by simp [hsdk])]
    refine run_bind (solo_accountReachable world.host) (fun e s' h => nomatch h.1) ?_
    rintro r s' ⟨⟨rfl⟩, rfl⟩
    exact pure ⟨rfl, rfl⟩

/-- The probes of the expected accounts. -/
theorem solo_probeTargets (targets : List String) (reached : Reached) :
    Solo (exec world i) s (probeTargets targets reached).run fun r s' =>
      r = .ok (targets.foldl (fun reached a => reached.settle a (world.answers i a)) reached) ∧
        s' = s := by
  induction targets generalizing reached with
  | nil => exact pure ⟨rfl, rfl⟩
  | cons first rest ih =>
    rw [foldl_cons]
    unfold probeTargets
    split
    · rename_i h
      rw [show reached.settle first (world.answers i first) = reached from if_pos h]
      exact ih reached
    · rename_i h
      rw [show reached.settle first (world.answers i first) =
        reached.note first (world.answers i first) from if_neg h]
      refine run_bind (solo_accountReachable first) (fun e s' h => nomatch h.1) ?_
      rintro r s' ⟨⟨rfl⟩, rfl⟩
      exact ih _

/-- The accounts that the run vouches for, or not, after the prune. -/
def World.reached (world : World) (i : Nat) (registry : Registry) (seen : List Key) : Reached :=
  (registry.scope.filter fun id => id ≠ "self" && id ≠ world.host).foldl
    (fun reached a => reached.settle a (world.answers i a))
    (settle ⟨seen.map Key.accountId, []⟩ "self" (world.answers i world.host))

/-- What the prune leaves of a row. -/
def pruned (world : World) (i : Nat) (registry : Registry) (seen : List Key)
    (resources : Resources) (key : Key) : Option String :=
  if key.accountId = "self" ∨ key.accountId ∈ registry.scope then
    if staleKey (world.reached i registry seen).present seen key then none
    else resources.lookup key
  else none

theorem solo_prune (hs : s.session i = .alive) (hsdk : world.sdk = false) (seen : List Key) :
    Solo (exec world i) s (prune world
      (s.tables.registry.scope.filter fun id => id ≠ "self" && id ≠ world.host) seen).run
      fun r s' => r = .ok (world.reached i s.tables.registry seen) ∧
        ∃ resources history, s' = s.write resources history ∧ ∀ key, resources.lookup key =
            pruned world i s.tables.registry seen s.tables.resources key := by
  refine attempt_bind (exec_alive hs (c := .phase1Prune) rfl) ?_
  refine run_bind (solo_probeHost hsdk _) (fun e s' h => nomatch h.1) ?_
  rintro hosted s' ⟨⟨rfl⟩, rfl⟩
  have htargets := @solo_probeTargets world i
    (s.write (phase1Prune s.tables.registry s.tables.resources) (.wrote i :: s.tables.history))
    (s.tables.registry.scope.filter fun id => id ≠ "self" && id ≠ world.host)
    (settle ⟨seen.map Key.accountId, []⟩ "self" (world.answers i world.host))
  rw [show probeTargets _ _ = probeExpected world _ _ from
    (if_neg (by simp [hsdk])).symm] at htargets
  refine run_bind htargets (fun e s' h => nomatch h.1) ?_
  rintro reached s' ⟨⟨rfl⟩, rfl⟩
  have hlist : exec world i .listResources (s.write
      (phase1Prune s.tables.registry s.tables.resources) (.wrote i :: s.tables.history)) =
      some (.ok (phase1Prune s.tables.registry s.tables.resources).keys, s.write
        (phase1Prune s.tables.registry s.tables.resources) (.wrote i :: s.tables.history)) :=
    exec_alive (s := s.write (phase1Prune s.tables.registry s.tables.resources)
      (.wrote i :: s.tables.history)) hs rfl
  refine attempt_bind hlist ?_
  refine run_bind (solo_deleteStale (s := s.write
    (phase1Prune s.tables.registry s.tables.resources) (.wrote i :: s.tables.history)) hs
    (world.reached i s.tables.registry seen).present seen
    (phase1Prune s.tables.registry s.tables.resources).keys) (fun e s' h => nomatch h.1) ?_
  rintro _ s' ⟨_, resources, history, rfl, hlookup⟩
  refine pure ⟨rfl, resources, history, rfl, ?_⟩
  intro key
  rw [hlookup key]
  show (if key ∈ (phase1Prune s.tables.registry s.tables.resources).keys ∧ _ then none
    else (phase1Prune s.tables.registry s.tables.resources).lookup key) = _
  simp only [← AList.mem_keys, ← lookup_isSome, lookup_phase1Prune, pruned]
  by_cases hscope : key.accountId = "self" ∨ key.accountId ∈ s.tables.registry.scope
  · rw [if_pos hscope, if_pos hscope]
    by_cases hstale : staleKey (world.reached i s.tables.registry seen).present seen key
    · cases s.tables.resources.lookup key <;> simp [hstale]
    · simp [hstale]
  · simp [hscope]

/-- The tables after the sweep. -/
def Server.swept (s : Server) (ledger : SyncRow) (resources : Resources) (history : List Entry) :
    Server :=
  { s with
    tables := { s.tables with ledger := some ledger, resources := resources, history := history } }

/-- What the sweep of the returned rows leaves of a row: the upserts come before the prune. -/
def Leaves (world : World) (i : Nat) (registry : Registry) (ids : List (Key × String))
    (before after : Resources) : Prop :=
  ∃ upserted : Resources,
    (∀ key ∈ ids.map fst, key ∈ upserted) ∧
    (∀ key, key ∉ ids.map fst → upserted.lookup key = before.lookup key) ∧
    ∀ key, after.lookup key = pruned world i registry (ids.map fst) upserted key

theorem solo_collect (hsdk : world.sdk = false) :
    Solo (exec world i) s (collect world).run fun r s' =>
      r = (world.runQuery i).map (fun found => queried found.1 found.2) ∧ s' = s := by
  have hexec : exec world i .runQuery s = some (world.runQuery i, s) := rfl
  rw [show collect world = _ from if_neg (by simp [hsdk])]
  cases hquery : world.runQuery i with
  | error e =>
    rw [hquery] at hexec
    exact attempt_bind_error hexec ⟨rfl, rfl⟩
  | ok found =>
    rw [hquery] at hexec
    exact attempt_bind hexec (pure ⟨rfl, rfl⟩)

/-- What comes of the sweep: the exception of the query, with the rows as they were, or the
verdict on the accounts, with the rows that the upserts and the prune leave. -/
def SweepOf (world : World) (i : Nat) (s : Server) (token : Nat) (r : Except String Swept)
    (s' : Server) : Prop :=
  ∃ resources history,
    s' = s.swept (runningRow s.tables.ledger token s.tables.clock) resources history ∧
    match world.runQuery i with
    | .error e => r = .error e ∧ resources = s.tables.resources
    | .ok (rows, fallback) =>
      let ids := world.identities (queried rows fallback)
      let reached := world.reached i s.tables.registry (ids.map fst)
      r = .ok ⟨⟨reached.status, some ids.length, none,
        (queried rows fallback).unknownAttributeCount⟩, reached.present, ids⟩ ∧
      Leaves world i s.tables.registry ids s.tables.resources resources

theorem solo_sweep (hs : s.session i = .alive) (hsdk : world.sdk = false) (token : Nat) :
    Solo (exec world i) s (sweep world token).run (SweepOf world i s token) := by
  have hmarked : exec world i (.upsertRunning token) s = some (.ok (),
      s.swept (runningRow s.tables.ledger token s.tables.clock) s.tables.resources
        (.began i :: s.tables.history)) := exec_alive hs rfl
  refine attempt_bind hmarked ?_
  generalize hs₁ : s.swept (runningRow s.tables.ledger token s.tables.clock) s.tables.resources
    (.began i :: s.tables.history) = s₁
  have hs₁' : s₁.session i = .alive := by
    rw [← hs₁]
    exact hs
  have htargets : exec world i .targetAccounts s₁ = some (.ok
      (s₁.tables.registry.scope.filter fun id => id ≠ "self" && id ≠ world.host), s₁) :=
    exec_alive hs₁' rfl
  rw [show expectedTargets world = send .targetAccounts from if_neg (by simp [hsdk])]
  refine attempt_bind htargets ?_
  refine run_bind (solo_collect hsdk) ?_ ?_
  · rintro e _ ⟨he, rfl⟩
    refine ⟨_, _, hs₁.symm, ?_⟩
    cases hquery : world.runQuery i with
    | ok found =>
      rw [hquery] at he
      cases he
    | error e' =>
      rw [hquery] at he
      cases he
      exact ⟨rfl, rfl⟩
  · rintro collected _ ⟨hcollected, rfl⟩
    cases hquery : world.runQuery i with
    | error e =>
      rw [hquery] at hcollected
      cases hcollected
    | ok found =>
      obtain ⟨rows, fallback⟩ := found
      rw [hquery] at hcollected
      cases hcollected
      refine run_bind (solo_upsertAll hs₁' (world.identities (queried rows fallback)))
        (fun e s' h => nomatch h.1) ?_
      rintro _ s₂ ⟨_, upserted, history, rfl, hthere, hother⟩
      refine run_bind (solo_prune (s := Server.write _ upserted history) hs₁' hsdk
        ((world.identities (queried rows fallback)).map fst))
        (fun e s' h => nomatch h.1) ?_
      rintro _ s₃ ⟨⟨rfl⟩, resources, history', rfl, hlookup⟩
      subst hs₁
      refine pure ⟨resources, history', rfl, ?_⟩
      rw [hquery]
      exact ⟨rfl, upserted, hthere, hother, hlookup⟩

theorem solo_writeSnapshots (hs : s.session i = .alive) (swept : Swept) :
    Solo (exec world i) s (writeSnapshots swept).run fun r s' => r = .ok () ∧ s' = s := by
  unfold writeSnapshots
  induction swept.present.dedup with
  | nil => exact pure ⟨rfl, rfl⟩
  | cons accountId rest ih =>
    exact attempt_bind (exec_alive hs (c := .writeSnapshot accountId _) rfl) ih

/-- How a run that nothing interrupts ends. -/
def pendingOf (world : World) (i : Nat) (registry : Registry) : Pending :=
  match world.runQuery i with
  | .error e => failedEnd none e
  | .ok (rows, fallback) =>
    let ids := world.identities (queried rows fallback)
    ⟨(world.reached i registry (ids.map fst)).status, some ids.length, none,
      (queried rows fallback).unknownAttributeCount⟩

/-- The rows that a run leaves: as they were, if the query raises. -/
def RowsOf (world : World) (i : Nat) (registry : Registry) (before after : Resources) : Prop :=
  match world.runQuery i with
  | .error _ => after = before
  | .ok (rows, fallback) =>
    Leaves world i registry (world.identities (queried rows fallback)) before after

theorem solo_work (hs : s.session i = .alive) (hsdk : world.sdk = false) (token : Nat) :
    Solo (exec world i) s (work world token) fun pending s' =>
      pending = pendingOf world i s.tables.registry ∧ ∃ resources history,
        s' = s.swept (runningRow s.tables.ledger token s.tables.clock) resources history ∧
        RowsOf world i s.tables.registry s.tables.resources resources := by
  refine bind (solo_sweep hs hsdk token) ?_
  rintro r _ ⟨resources, history, rfl, hr⟩
  unfold pendingOf RowsOf
  cases hquery : world.runQuery i with
  | error e =>
    rw [hquery] at hr
    obtain ⟨rfl, rfl⟩ := hr
    exact pure ⟨rfl, _, history, rfl, rfl⟩
  | ok found =>
    rw [hquery] at hr
    obtain ⟨rfl, hleaves⟩ := hr
    refine bind (solo_writeSnapshots (s := s.swept _ resources history) hs _) ?_
    rintro _ _ ⟨rfl, rfl⟩
    exact pure ⟨rfl, resources, history, rfl, hleaves⟩

theorem solo_finish (hs : s.session i = .alive) {row : SyncRow} {token : Nat} {pending : Pending}
    (hrow : s.tables.ledger = some row) (htoken : row.runToken = token) :
    Solo (exec world i) s (finish token pending) fun _ s' =>
      s'.tables.ledger = some (row.finalize pending s.tables.clock) ∧
        s'.tables.resources = s.tables.resources := by
  refine command_bind (exec_alive hs (c := .unlock) rfl) ?_
  have hclose : ∀ s₁ : Server, s₁.session i = .alive →
      exec world i .close s₁ = some (.ok (), s₁.lose i) := by
    intro s₁ hs₁
    simp [exec, Statement.onWork, hs₁]
  refine command_bind (hclose _ hs) ?_
  have hfinalize : ∀ s₁ : Server, s₁.tables.ledger = some row →
      ∃ s₂, exec world i (.finalize token pending) s₁ = some (.ok true, s₂) ∧
        s₂.tables.ledger = some (row.finalize pending s₁.tables.clock) ∧
        s₂.tables.resources = s₁.tables.resources := by
    intro s₁ hs₁
    refine ⟨{ s₁ with tables := { s₁.tables with
      ledger := some (row.finalize pending s₁.tables.clock)
      history := .ended i pending.status :: s₁.tables.history } }, ?_, rfl, rfl⟩
    simp [exec, Statement.onWork, perform, Tables.finalize, hs₁, htoken]
  obtain ⟨s₂, hexec, hledger, hresources⟩ := hfinalize
    (Server.lose { s with tables := (perform world i .unlock s.tables).2 } i) hrow
  exact command_bind hexec (pure ⟨hledger, hresources⟩)

/-- A run that nothing interrupts, when the lock is free: the rows and the ledger row that it
leaves. -/
theorem solo_sync (hsdk : world.sdk = false) (hlock : s.tables.lock = none) :
    Solo (exec world i) s (sync world) fun _ s' =>
      s'.tables.ledger = some ((runningRow s.tables.ledger i s.tables.clock).finalize
        (pendingOf world i s.tables.registry) s.tables.clock) ∧
      RowsOf world i s.tables.registry s.tables.resources s'.tables.resources := by
  have htoken : exec world i .newRunToken s = some (.ok i, s) := rfl
  refine command_bind htoken ?_
  have hopen : exec world i .aurora s = some (.ok (), s.open i) := rfl
  refine command_bind hopen ?_
  have halive : (s.open i).session i = .alive := Function.update_self ..
  have hlocked : ∃ s₁ : Server, exec world i .tryLock (s.open i) = some (.ok true, s₁) ∧
      s₁.session i = .alive ∧ s₁.tables.registry = s.tables.registry ∧
      s₁.tables.ledger = s.tables.ledger ∧ s₁.tables.clock = s.tables.clock ∧
      s₁.tables.resources = s.tables.resources := by
    refine ⟨{ s.open i with tables := ((s.open i).tables.tryLock i).2 }, ?_, halive, ?_⟩
    · rw [exec_alive halive rfl]
      simp [perform, Tables.tryLock, Server.open, hlock]
    · simp [Tables.tryLock, Server.open, hlock]
  obtain ⟨s₁, hexec, halive₁, hregistry, hledger, hclock, hresources⟩ := hlocked
  refine command_bind hexec ?_
  refine bind (solo_work halive₁ hsdk i) ?_
  rintro _ _ ⟨rfl, resources, history, rfl, hrows⟩
  rw [hregistry, hresources] at hrows
  refine mono (solo_finish (s := s₁.swept (runningRow s₁.tables.ledger i s₁.tables.clock)
    resources history) halive₁ rfl rfl) ?_
  rintro _ s₂ ⟨hfinal, hrows'⟩
  refine ⟨?_, ?_⟩
  · rw [hfinal, hledger, hregistry]
    show some (SyncRow.finalize _ _ s₁.tables.clock) = _
    rw [hclock]
  · rw [hrows']
    exact hrows

end Parts

/-! ## Exactness -/

/-- The run got a record of this identity back. -/
def World.Returned (world : World) (i : Nat) (key : Key) : Prop :=
  ∃ rows fallback, world.runQuery i = .ok (rows, fallback) ∧
    ∃ record ∈ world.kept rows, record.key world.host = key

/-- The account is proven reachable in a run: it answers the probe, the host under its own
identifier. -/
def World.Reachable (world : World) (i : Nat) (accountId : String) : Prop :=
  world.answers i (if accountId = "self" then world.host else accountId)

/-- What one run may do to the rows. -/
structure Exact (world : World) (i : Nat) (t t' : Tables) : Prop where
  deleted : ∀ key, (key ∈ t.resources ∨ world.Returned i key) → key ∉ t'.resources →
    (key.accountId ≠ "self" ∧ key.accountId ∉ t.registry.scope) ∨
    ((∃ other, world.Returned i other ∧ other.accountId = key.accountId) ∨
      world.Reachable i key.accountId) ∧ ¬ world.Returned i key
  untouched : ∀ accountId, (accountId = "self" ∨ accountId ∈ t.registry.scope) →
    (∀ key, world.Returned i key → key.accountId ≠ accountId) → ¬ world.Reachable i accountId →
    ∀ key, key.accountId = accountId → t'.resources.lookup key = t.resources.lookup key
  succeeded : ∀ row, t'.ledger = some row → row.status = .terminal .succeeded →
    (((∀ key, key ∈ t'.resources ↔ world.Returned i key) ∧
        row.rowCount = some t'.resources.keys.length) ↔
      (∀ key, world.Returned i key →
        key.accountId = "self" ∨ key.accountId ∈ t.registry.scope) ∧
      ∀ key ∈ t.resources, key.accountId = world.host → world.host ∉ t.registry.scope)

section Exact

variable {world : World} {i : Nat}

theorem returned_iff {rows : List Record} {fallback : Bool}
    (hquery : world.runQuery i = .ok (rows, fallback)) (key : Key) :
    key ∈ (world.identities (queried rows fallback)).map fst ↔ world.Returned i key := by
  unfold World.identities
  rw [(identities_spec world.host (world.kept (queried rows fallback).records)).2 key]
  constructor
  · exact fun h => ⟨rows, fallback, hquery, h⟩
  · rintro ⟨rows', fallback', hquery', h⟩
    rw [hquery] at hquery'
    cases hquery'
    exact h

theorem reached_spec (registry : Registry) (seen : List Key) :
    (∀ a, a ∈ (world.reached i registry seen).present ↔
      a ∈ seen.map Key.accountId ∨ (a = "self" ∧ world.answers i world.host) ∨
        (a ∈ registry.scope ∧ a ≠ "self" ∧ a ≠ world.host ∧ world.answers i a)) ∧
    ((world.reached i registry seen).unreachable = [] →
      "self" ∈ (world.reached i registry seen).present ∧
      ∀ a ∈ registry.scope, a ≠ world.host → a ∈ (world.reached i registry seen).present) := by
  obtain ⟨hhost, hhost'⟩ := settle_spec ⟨seen.map Key.accountId, []⟩ "self"
    (world.answers i world.host)
  obtain ⟨hall, hall'⟩ := settle_all world i
    (registry.scope.filter fun id => id ≠ "self" && id ≠ world.host)
    (settle ⟨seen.map Key.accountId, []⟩ "self" (world.answers i world.host))
  have hpresent : ∀ a, a ∈ (world.reached i registry seen).present ↔
      a ∈ seen.map Key.accountId ∨ (a = "self" ∧ world.answers i world.host) ∨
        (a ∈ registry.scope ∧ a ≠ "self" ∧ a ≠ world.host ∧ world.answers i a) := by
    intro a
    unfold World.reached
    rw [hall a, hhost a]
    simp only [mem_filter, Bool.and_eq_true, decide_eq_true_eq]
    tauto
  refine ⟨hpresent, ?_⟩
  intro hnone
  obtain ⟨hnone, htargets⟩ := hall'.mp hnone
  have hself := (hhost'.mp hnone).2
  refine ⟨(hpresent "self").mpr (hself.imp id fun h => .inl ⟨rfl, h⟩), ?_⟩
  intro a ha hne
  by_cases haself : a = "self"
  · rw [haself]
    exact (hpresent "self").mpr (hself.imp id fun h => .inl ⟨rfl, h⟩)
  · have hmem : a ∈ registry.scope.filter fun id => id ≠ "self" && id ≠ world.host := by
      simp [ha, haself, hne]
    refine (hpresent a).mpr ?_
    rcases htargets a hmem with h | h
    · rcases (hhost a).mp h with h | ⟨h, _⟩
      · exact .inl h
      · exact absurd h haself
    · exact .inr (.inr ⟨ha, haself, hne, h⟩)

theorem mem_of_leaves {registry : Registry} {ids : List (Key × String)}
    {before after : Resources} (h : Leaves world i registry ids before after) (key : Key) :
    key ∈ after ↔ (key.accountId = "self" ∨ key.accountId ∈ registry.scope) ∧
      (key ∈ ids.map fst ∨ key ∈ before ∧
        key.accountId ∉ (world.reached i registry (ids.map fst)).present) := by
  obtain ⟨upserted, hthere, hother, hlookup⟩ := h
  have hupserted : key ∈ upserted ↔ key ∈ ids.map fst ∨ key ∈ before := by
    by_cases hkey : key ∈ ids.map fst
    · simp only [hkey, true_or, iff_true]
      exact hthere key hkey
    · rw [or_iff_right hkey, ← lookup_isSome, hother key hkey, lookup_isSome]
  rw [← lookup_isSome, hlookup key]
  unfold pruned
  split
  · rename_i hscope
    rw [and_iff_right hscope]
    unfold staleKey
    by_cases hkey : key ∈ ids.map fst
    · simp only [hkey, true_or, iff_true]
      rw [if_neg (by simp [hkey])]
      exact AList.lookup_isSome.mpr (hthere key hkey)
    · by_cases hpresent : key.accountId ∈ (world.reached i registry (ids.map fst)).present
      · simp [hkey, hpresent]
      · rw [if_neg (by simp [hpresent]), lookup_isSome, hupserted]
        simp [hkey, hpresent]
  · rename_i hscope
    simp [hscope]

theorem present_spec {registry : Registry} {seen : List Key} {accountId : String}
    (h : accountId ∈ (world.reached i registry seen).present) :
    accountId ∈ seen.map Key.accountId ∨ world.Reachable i accountId := by
  unfold World.Reachable
  rcases (reached_spec registry seen).1 accountId |>.mp h with h | ⟨hself, h⟩ | ⟨_, hself, _, h⟩
  · exact .inl h
  · rw [if_pos hself]
    exact .inr h
  · rw [if_neg hself]
    exact .inr h

theorem exact_of_rows {t t' : Tables}
    (hledger : t'.ledger = some ((runningRow t.ledger i t.clock).finalize
      (pendingOf world i t.registry) t.clock))
    (hrows : RowsOf world i t.registry t.resources t'.resources) : Exact world i t t' := by
  unfold RowsOf at hrows
  cases hquery : world.runQuery i with
  | error e =>
    rw [hquery] at hrows
    have hnone : ∀ key, ¬ world.Returned i key := by
      rintro key ⟨rows, fallback, hrows, _⟩
      rw [hquery] at hrows
      cases hrows
    refine ⟨?_, ?_, ?_⟩
    · intro key hkey hgone
      rw [hrows] at hgone
      exact absurd (hkey.resolve_right (hnone key)) hgone
    · intro accountId _ _ _ key _
      rw [hrows]
    · intro row hrow hstatus
      rw [hledger] at hrow
      cases hrow
      simp [pendingOf, hquery, failedEnd, SyncRow.finalize] at hstatus
  | ok found =>
    obtain ⟨rows, fallback⟩ := found
    rw [hquery] at hrows
    replace hrows : Leaves world i t.registry (world.identities (queried rows fallback))
      t.resources t'.resources := hrows
    have hreturned := returned_iff hquery
    have hmem := mem_of_leaves hrows
    generalize hids : world.identities (queried rows fallback) = ids at hrows hreturned hmem
    obtain ⟨hpresent, hall⟩ := @reached_spec world i t.registry
      (ids.map fst)
    have haccounts : ∀ accountId, accountId ∈ (ids.map fst).map Key.accountId ↔
        ∃ key, world.Returned i key ∧ key.accountId = accountId := by
      intro accountId
      simp only [mem_map (f := Key.accountId), hreturned]
    refine ⟨?_, ?_, ?_⟩
    · intro key hkey hgone
      rw [hmem key, hreturned key] at hgone
      by_cases hscope : key.accountId = "self" ∨ key.accountId ∈ t.registry.scope
      · have hnot : ¬ world.Returned i key := fun h => hgone ⟨hscope, .inl h⟩
        refine .inr ⟨?_, hnot⟩
        have hthere : key.accountId ∈ (world.reached i t.registry (ids.map fst)).present := by
          by_contra h
          exact hgone ⟨hscope, .inr ⟨hkey.resolve_right hnot, h⟩⟩
        exact (present_spec hthere).imp (haccounts _).mp id
      · exact .inl (not_or.mp hscope)
    · intro accountId hscope hnone hunreachable key hkey
      subst hkey
      have habsent : key.accountId ∉ (world.reached i t.registry (ids.map fst)).present := by
        intro h
        rcases present_spec h with h | h
        · obtain ⟨other, hother, haccount⟩ := (haccounts _).mp h
          exact hnone other hother haccount
        · exact hunreachable h
      have hnot : key ∉ ids.map fst := by
        rw [hreturned]
        exact fun h => hnone key h rfl
      obtain ⟨upserted, _, hother, hlookup⟩ := hrows
      rw [hlookup key, ← hother key hnot]
      unfold pruned staleKey
      rw [if_pos hscope, if_neg (by simp [habsent])]
    · intro row hrow hstatus
      rw [hledger] at hrow
      cases hrow
      have hpending : pendingOf world i t.registry =
          ⟨(world.reached i t.registry (ids.map fst)).status, some ids.length, none,
            (queried rows fallback).unknownAttributeCount⟩ := by
        simp [pendingOf, hquery, hids]
      have hunreachable : (world.reached i t.registry (ids.map fst)).unreachable = [] := by
        by_contra hne
        simp [hpending, status, hne, SyncRow.finalize] at hstatus
      obtain ⟨hself, htargets⟩ := hall hunreachable
      have hcount : ((runningRow t.ledger i t.clock).finalize (pendingOf world i t.registry)
          t.clock).rowCount = some ids.length := by
        simp [hpending, status, hunreachable, SyncRow.finalize]
      rw [hcount]
      -- No record is kept under the identifier of the host, so the host is not present under it.
      have hhost : ∀ key, world.Returned i key → key.accountId ≠ world.host := by
        rintro key ⟨_, _, _, record, _, rfl⟩
        exact account_ne_host record
      have habsent : world.host ∉ (world.reached i t.registry (ids.map fst)).present := by
        intro h
        rcases (hpresent _).mp h with h | ⟨h, _⟩ | ⟨_, _, h, _⟩
        · obtain ⟨key, hkey, haccount⟩ := (haccounts _).mp h
          exact hhost key hkey haccount
        · have hid := world.host_id
          rw [h] at hid
          revert hid
          decide
        · exact h rfl
      constructor
      · rintro ⟨hexact, _⟩
        refine ⟨fun key hkey => ((hmem key).mp ((hexact key).mpr hkey)).1, ?_⟩
        intro key hkey haccount hscope
        have hafter : key ∈ t'.resources := by
          rw [hmem key, haccount]
          exact ⟨.inr hscope, .inr ⟨hkey, habsent⟩⟩
        exact hhost key ((hexact key).mp hafter) haccount
      · rintro ⟨hscope, hphantom⟩
        have hexact : ∀ key, key ∈ t'.resources ↔ world.Returned i key := by
          intro key
          rw [hmem key, hreturned key]
          constructor
          · rintro ⟨hin, hkey | ⟨hkey, hnot⟩⟩
            · exact hkey
            · rcases hin with hin | hin
              · rw [hin] at hnot
                exact absurd hself hnot
              · by_cases haccount : key.accountId = world.host
                · exact absurd (haccount ▸ hin) (hphantom key hkey haccount)
                · exact absurd (htargets _ hin haccount) hnot
          · exact fun h => ⟨hscope key h, .inl h⟩
        refine ⟨hexact, ?_⟩
        have hnodup : (ids.map fst).Nodup := by
          rw [← hids]
          exact (identities_spec _ _).1
        have hperm : t'.resources.keys.Perm (ids.map fst) := by
          rw [perm_ext_iff_of_nodup t'.resources.keys_nodup hnodup]
          intro key
          rw [← AList.mem_keys, hexact key, hreturned key]
        rw [hperm.length_eq, length_map]

/-- **One sync run.** A run of a Steampipe type that finds the lock free and is not interrupted
comes to its end, deletes no row that it may not delete, leaves the rows of unreachable accounts
alone, and, when it ends with `succeeded`, has made the rows exactly the returned ones, and counted
them, if and only if every returned account is in scope and no row lies under the host's own
identifier while the registry scans it. -/
theorem prune_exact (world : World) (hsdk : world.sdk = false) (i : Nat) (s : Server)
    (hlock : s.tables.lock = none) :
    ∃ result s', (sync world).solo (exec world i) s = some (result, s') ∧
      Exact world i s.tables s'.tables := by
  obtain ⟨result, s', hsolo, hledger, hrows⟩ := solo_sync hsdk hlock
  exact ⟨result, s', hsolo, exact_of_rows hledger hrows⟩

end Exact

/-! ## An account that was disabled before the run -/

/-- Steampipe still returns an instance of an account that the registry no longer scans. -/
def disabledWorld : World where
  sdk := false
  resourceType := "ec2_instance"
  host := "111111111111"
  host_id := by decide
  collectSdk _ := .error "KeyError"
  runQuery _ := .ok ([⟨some "111111111111", some "ap-northeast-2", some "i-1", none, "1"⟩,
    ⟨some "222222222222", some "ap-northeast-2", some "i-2", none, "2"⟩], false)
  reachable _ _ := true
  exception _ _ := "InterfaceError"

def disabledRegistry : Registry :=
  ⟨[⟨"222222222222", false, true⟩], []⟩

/-- The run with the account in scope. -/
theorem prune_exact_enabled : ∃ result s', (sync disabledWorld).solo (exec disabledWorld 0)
      (Server.mk ⟨none, none, ∅, ⟨[⟨"222222222222", true, true⟩], []⟩, 0, []⟩ (fun _ => .lost)
        fun _ => none) = some (result, s') ∧
      Exact disabledWorld 0 ⟨none, none, ∅, ⟨[⟨"222222222222", true, true⟩], []⟩, 0, []⟩
        s'.tables :=
  prune_exact disabledWorld rfl 0
    (Server.mk ⟨none, none, ∅, ⟨[⟨"222222222222", true, true⟩], []⟩, 0, []⟩ (fun _ => .lost)
      fun _ => none) rfl

/-- The run ends with `succeeded` and counts two rows, and one is there. -/
theorem prune_counts_deleted : ∃ result s', (sync disabledWorld).solo (exec disabledWorld 0)
      (Server.mk ⟨none, none, ∅, disabledRegistry, 0, []⟩ (fun _ => .lost) fun _ => none) =
        some (result, s') ∧
      s'.tables.ledger.map (fun row => (row.status, row.rowCount)) =
        some (.terminal .succeeded, some 2) ∧
      s'.tables.resources.keys = [⟨"self", "ap-northeast-2", "i-1"⟩] :=
  ⟨_, _, rfl, rfl, rfl⟩

end AwsOps.Inventory

import AwsOps.Migrate.Holder

/-!
# The statements of a migration run

What each change does to the ledger and the history, and that the run which makes it keeps the
database sound and learns what it knows at its next stage.
-/

namespace AwsOps.Migrate

open List Ledger Entries

/-! ## Changes of the ledger -/

variable {l l' : Ledger}

theorem stamp_spec {row : Row} (h : l.change (.stamp row) = some l') :
    l.versionType = .text ∧ row.version ∉ l.versions ∧ l' = { l with rows := l.rows ++ [row] } := by
  simp only [change] at h
  split at h
  · rename_i hcond
    exact ⟨hcond.1, hcond.2.2.2, (Option.some.inj h).symm⟩
  · cases h

theorem stamp_versions (l : Ledger) (row : Row) :
    ({ l with rows := l.rows ++ [row] } : Ledger).versions = l.versions ++ [row.version] :=
  map_append

theorem Ledger.Genuine.stamp {row : Row} {m : Migration} (hl : l.Genuine) (hrow : row.Records m)
    (h : l.change (.stamp row) = some l') : l'.Genuine := by
  simp only [change] at h
  split at h
  · rename_i hcond
    cases h
    constructor
    · rw [stamp_versions]
      refine nodup_append.mpr ⟨hl.unique, nodup_singleton _, ?_⟩
      intro a ha b hb hab
      rw [mem_singleton.mp hb] at hab
      exact hcond.2.2.2 (hab ▸ ha)
    · intro other hother sql hsql
      rcases mem_append.mp hother with hother | hother
      · exact hl.checksums other hother sql hsql
      · rw [mem_singleton.mp hother] at hsql ⊢
        rw [hrow.source, Option.some.injEq] at hsql
        exact ⟨hcond.2.1, hsql ▸ hrow.checksum⟩
  · cases h

theorem Ledger.Genuine.alter (hl : l.Genuine) (hrows : l'.rows = l.rows)
    (hchecksum : l.hasChecksum = true → l'.hasChecksum = true) : l'.Genuine := by
  constructor
  · rw [versions, hrows]
    exact hl.unique
  · rw [hrows]
    intro row hrow sql hsql
    obtain ⟨hcolumn, hsum⟩ := hl.checksums row hrow sql hsql
    exact ⟨hchecksum hcolumn, hsum⟩

def Ledger.bootstrapped (l : Ledger) (appVersion : String) : Ledger :=
  { versionType := .text
    hasChecksum := true
    hasAppVersion := true
    rows := if baseline ∈ l.versions then l.rows else l.rows ++ [marker appVersion] }

theorem bootstrap_transaction (i : Nat) (executions : List Execution) (appVersion : String) :
    Database.transaction i ⟨some l, executions⟩ (bootstrapChanges appVersion) =
      some ⟨some (l.bootstrapped appVersion), executions⟩ := by
  simp only [bootstrapChanges, Database.transaction, Database.change, change,
    Option.bind_some, Option.map_some, bootstrapped, and_self, if_true]
  by_cases h : baseline ∈ l.versions
  · have hlater : baseline ∈ versions ⟨.text, true, true, l.rows⟩ := h
    rw [if_pos hlater, if_pos h]
  · have hlater : baseline ∉ versions ⟨.text, true, true, l.rows⟩ := h
    rw [if_neg hlater, if_neg h]

theorem bootstrapped_versions (l : Ledger) (appVersion v : String) :
    v ∈ (l.bootstrapped appVersion).versions ↔ v ∈ l.versions ∨ v = baseline := by
  unfold bootstrapped versions
  split
  · rename_i h
    refine ⟨.inl, ?_⟩
    rintro (hv | rfl)
    · exact hv
    · exact h
  · simp [marker]

theorem bootstrapped_bootstrapped (l : Ledger) (appVersion : String) :
    (l.bootstrapped appVersion).Bootstrapped :=
  ⟨rfl, rfl, rfl, (bootstrapped_versions l appVersion baseline).mpr (.inr rfl)⟩

theorem Ledger.Genuine.bootstrap (hl : l.Genuine) (appVersion : String) :
    (l.bootstrapped appVersion).Genuine := by
  by_cases h : baseline ∈ l.versions
  · refine hl.alter ?_ fun _ => rfl
    exact if_pos h
  · have hrows : (l.bootstrapped appVersion).rows = l.rows ++ [marker appVersion] := if_neg h
    constructor
    · rw [versions, hrows, map_append]
      refine nodup_append.mpr ⟨hl.unique, nodup_singleton _, ?_⟩
      intro a ha b hb hab
      rw [map_singleton, mem_singleton] at hb
      rw [hab, hb] at ha
      exact h ha
    · rw [hrows]
      intro row hrow sql hsql
      rcases mem_append.mp hrow with hrow | hrow
      · exact ⟨rfl, (hl.checksums row hrow sql hsql).2⟩
      · rw [mem_singleton.mp hrow] at hsql
        cases hsql

theorem Whole.write {initial : Option Ledger} (h : Whole initial (some l))
    (htext : l.versionType = .text) (hkeep : l.Bootstrapped → l'.Bootstrapped) :
    Whole initial (some l') := by
  intro first hfirst hinteger
  rcases h first hfirst hinteger with hsame | ⟨now, hnow, hbooted⟩
  · rw [hfirst, Option.some.injEq] at hsame
    rw [hsame, hinteger] at htext
    cases htext
  · rw [Option.some.injEq] at hnow
    exact .inr ⟨l', rfl, hkeep (hnow ▸ hbooted)⟩

theorem change_ledger {i : Nat} {b : Bool} {d d' : Database} {c : Change}
    (hc : ∀ m, c ≠ .migration m) (h : d.change i b c = some d') :
    ∃ l l', d.ledger = some l ∧ l.change c = some l' ∧ d' = { d with ledger := some l' } := by
  cases c with
  | migration m => exact absurd rfl (hc m)
  | _ =>
    obtain ⟨l, hl, hmap⟩ := Option.bind_eq_some_iff.mp h
    obtain ⟨l', hl', hd⟩ := Option.map_eq_some_iff.mp hmap
    exact ⟨l, l', hl, hl', hd.symm⟩

/-! ## What was read -/

variable {r : Reading} {i : Nat} {s s' : Store}

theorem Reading.Of.mem_applied (h : r.Of l) {id : String} :
    id ∈ Entries.keys r.applied ↔ id ∈ l.versions := by
  rw [Reading.applied, mem_keys_ofList, h.rows, Ledger.read, Entries.keys, map_map]
  exact Iff.rfl

theorem Reading.Of.mem_pending (h : r.Of l) {id : String} :
    id ∈ r.pending ↔ id ∈ r.migrations.map Migration.id ∧ id ∉ l.versions := by
  rw [Reading.pending, mem_compute_pending, h.mem_applied]

/-- Without drift, a recorded migration has the text that it was stamped for, up to its checksum. -/
theorem Reading.Of.unchanged (h : r.Of l) (hunchanged : r.Unchanged) {m : Migration}
    (hm : m ∈ r.migrations) {row : Row} (hrow : row ∈ l.rows) (hid : row.version = m.id)
    {sql : String} (hsql : row.source = some sql) : sha256 sql = sha256 m.sql := by
  obtain ⟨hcolumn, hsum⟩ := h.genuine.checksums row hrow sql hsql
  have hentry : (m.id, some (sha256 sql)) ∈ r.rows := by
    rw [h.rows, Ledger.read]
    refine mem_map.mpr ⟨row, hrow, ?_⟩
    rw [hid, if_pos hcolumn, hsum]
  have hnodup : (Entries.keys r.rows).Nodup := by
    rw [h.rows, Ledger.read, Entries.keys, map_map]
    exact h.genuine.unique
  have hget : get r.applied m.id = some (some (sha256 sql)) := by
    cases hget : get r.applied m.id with
    | none =>
      rw [get_eq_none, Reading.applied, mem_keys_ofList] at hget
      exact absurd (mem_map_of_mem hentry) hget
    | some checksum =>
      have hother := mem_of_get_ofList hget
      have hsame := inj_on_of_nodup_map hnodup hother hentry rfl
      rw [Prod.mk.injEq] at hsame
      rw [hsame.2]
  have hdrift := hunchanged m hm
  rw [Reading.drifted, hget] at hdrift
  simpa using hdrift

theorem Loaded.unique {a b : List Migration} (ha : Loaded i a s) (hb : Loaded i b s) : a = b := by
  obtain ⟨files, hfiles, hload⟩ := ha
  obtain ⟨files', hfiles', hload'⟩ := hb
  rw [hfiles, Option.some.injEq] at hfiles'
  subst hfiles'
  rw [hload] at hload'
  exact Except.ok.inj hload'

/-! ## The history -/

variable {initial : Database}

theorem Faithful.congr {e : Execution} (h : Faithful e s) (hcheckout : s'.checkout = s.checkout)
    (hseen : s'.seen e.runner = s.seen e.runner) : Faithful e s' := by
  obtain ⟨l, hl, hnew, migrations, hloaded, hrest⟩ := h
  refine ⟨l, hseen.trans hl, hnew, migrations, ?_, hrest⟩
  rwa [Loaded, hcheckout]

theorem Recorded.write (h : Recorded initial s) (hcheckout : s'.checkout = s.checkout)
    (hseen : ∀ e ∈ s.database.executions, s'.seen e.runner = s.seen e.runner)
    (hexecutions : s'.database.executions = s.database.executions)
    (hgrow : ∀ v ∈ s.database.versions, v ∈ s'.database.versions)
    (horigin : ∀ v ∈ s'.database.versions, v ∈ s.database.versions ∨ v = baseline ∨
      ∃ e ∈ s.database.executions, e.migration.id = v)
    (hgenuine : ∀ l, s'.database.ledger = some l → l.Genuine)
    (hwhole : Whole initial.ledger s'.database.ledger) : Recorded initial s' where
  flagged := hexecutions ▸ h.flagged
  stamped e he htransactional := hgrow _ (h.stamped e (hexecutions ▸ he) htransactional)
  once := hexecutions ▸ h.once
  origin v hv := by
    rw [hexecutions]
    rcases horigin v hv with hv | hv
    · exact h.origin v hv
    · exact .inr hv
  ascending := hexecutions ▸ h.ascending
  stops e he migrations hloaded m hm hlt := by
    rw [Loaded, hcheckout] at hloaded
    exact hgrow _ (h.stops e (hexecutions ▸ he) migrations hloaded m hm hlt)
  faithful e he := by
    rw [hexecutions] at he
    exact (h.faithful e he).congr hcheckout (hseen e he)
  genuine := hgenuine
  whole := hwhole

/-- An execution keeps the database sound when it comes after those of its run and after all
smaller ids of its files. -/
theorem Recorded.execute (h : Recorded initial s) {e : Execution}
    (hcheckout : s'.checkout = s.checkout) (hseen : s'.seen = s.seen)
    (hexecutions : s'.database.executions = s.database.executions ++ [e])
    (hgrow : ∀ v ∈ s.database.versions, v ∈ s'.database.versions)
    (horigin : ∀ v ∈ s'.database.versions, v ∈ s.database.versions ∨ v = e.migration.id)
    (hflagged : e.transactional = !hasNoTxnFlag e.migration.sql)
    (hstamped : e.transactional = true → e.migration.id ∈ s'.database.versions)
    (hnew : e.migration.id ∉ s.database.versions)
    (hpast : ∀ other ∈ s.database.executions, other.runner = e.runner →
      other.migration.id < e.migration.id)
    (hstops : ∀ migrations, Loaded e.runner migrations s → ∀ m ∈ migrations,
      m.id < e.migration.id → m.id ∈ s.database.versions)
    (hfaithful : Faithful e s) (hgenuine : ∀ l, s'.database.ledger = some l → l.Genuine)
    (hwhole : Whole initial.ledger s'.database.ledger) : Recorded initial s' := by
  have hmem : ∀ other, other ∈ s'.database.executions ↔
      other ∈ s.database.executions ∨ other = e := by
    intro other
    rw [hexecutions, mem_append, mem_singleton]
  constructor
  · intro other hother
    rcases (hmem other).mp hother with hother | rfl
    · exact h.flagged other hother
    · exact hflagged
  · intro other hother htransactional
    rcases (hmem other).mp hother with hother | rfl
    · exact hgrow _ (h.stamped other hother htransactional)
    · exact hstamped htransactional
  · rw [hexecutions, filter_append, map_append]
    refine nodup_append.mpr ⟨h.once, ?_, ?_⟩
    · rw [filter_singleton]
      cases e.transactional <;> simp
    · intro a ha b hb hab
      obtain ⟨other, hother, rfl⟩ := mem_map.mp ha
      obtain ⟨new, hnewmem, rfl⟩ := mem_map.mp hb
      obtain ⟨hother, htransactional⟩ := mem_filter.mp hother
      rw [mem_singleton.mp (mem_filter.mp hnewmem).1] at hab
      exact hnew (hab ▸ h.stamped other hother htransactional)
  · intro v hv
    rcases horigin v hv with hv | rfl
    · refine (h.origin v hv).imp id (Or.imp id ?_)
      intro ⟨other, hother, hid⟩
      exact ⟨other, (hmem other).mpr (.inl hother), hid⟩
    · exact .inr (.inr ⟨e, (hmem e).mpr (.inr rfl), rfl⟩)
  · intro k
    rw [hexecutions, filter_append]
    refine pairwise_append.mpr ⟨h.ascending k, ?_, ?_⟩
    · rw [filter_singleton]
      cases e.runner == k <;> simp
    · intro a ha b hb
      obtain ⟨ha, hak⟩ := mem_filter.mp ha
      obtain ⟨hb, hbk⟩ := mem_filter.mp hb
      rw [mem_singleton.mp hb] at hbk ⊢
      exact hpast a ha ((beq_iff_eq.mp hak).trans (beq_iff_eq.mp hbk).symm)
  · intro other hother migrations hloaded m hm hlt
    rw [Loaded, hcheckout] at hloaded
    rcases (hmem other).mp hother with hother | rfl
    · exact hgrow _ (h.stops other hother migrations hloaded m hm hlt)
    · exact hgrow _ (hstops migrations hloaded m hm hlt)
  · intro other hother
    rcases (hmem other).mp hother with hother | rfl
    · exact (h.faithful other hother).congr hcheckout (congrFun hseen _)
    · exact hfaithful.congr hcheckout (congrFun hseen _)
  · exact hgenuine
  · exact hwhole

/-! ## What is left to do -/

variable {m : Migration} {rest : List String}

theorem Reading.Next.todo (h : r.Next rest m) : rest = m.id :: rest.tail := by
  have hfirst := h.first
  cases rest with
  | nil => cases hfirst
  | cons id rest =>
    rw [List.head?_cons, Option.some.injEq] at hfirst
    rw [tail_cons, hfirst]

theorem Ahead.faithful (h : Ahead i r rest s) (hnext : r.Next rest m) (transactional : Bool) :
    Faithful ⟨i, m, transactional⟩ s := by
  obtain ⟨l, ⟨hloaded, hseen, hof⟩, hnew⟩ := h.saw
  refine ⟨l, hseen, hnew m.id ?_, r.migrations, hloaded, hnext.file, ?_⟩
  · rw [hnext.todo]
    exact mem_cons_self
  · intro other hother row hrow hid sql hsql
    exact hof.unchanged hnext.unchanged hother hrow hid hsql

theorem Ahead.stops (h : Ahead i r rest s) (hnext : r.Next rest m) {migrations : List Migration}
    (hloaded : Loaded i migrations s) {other : Migration} (hother : other ∈ migrations)
    (hlt : other.id < m.id) : other.id ∈ s.database.versions := by
  obtain ⟨l, ⟨hfiles, -⟩, -⟩ := h.saw
  rw [hloaded.unique hfiles] at hother
  refine h.recorded other hother ?_
  intro hmem
  have hascending := h.ascending
  rw [hnext.todo] at hmem hascending
  rcases mem_cons.mp hmem with heq | hmem
  · exact absurd hlt (heq ▸ lt_irrefl _)
  · exact lt_asymm hlt ((pairwise_cons.mp hascending).1 _ hmem)

/-- Once the first id is recorded, the others are left. -/
theorem Ahead.tail {id : String} {todo : List String} (h : Ahead i r (id :: todo) s)
    (hcheckout : s'.checkout = s.checkout) (hseen : s'.seen i = s.seen i)
    (hversions : ∀ v, v ∈ s'.database.versions ↔ v ∈ s.database.versions ∨ v = id) :
    Ahead i r todo s' := by
  obtain ⟨hfirst, hascending⟩ := pairwise_cons.mp h.ascending
  constructor
  · obtain ⟨l, ⟨hloaded, hl, hof⟩, hnew⟩ := h.saw
    refine ⟨l, ⟨?_, hseen.trans hl, hof⟩, fun other hother => hnew other (.tail _ hother)⟩
    rwa [Loaded, hcheckout]
  · exact hascending
  · intro other hother hmem
    rcases (hversions other).mp hmem with hmem | rfl
    · exact h.missing other (.tail _ hother) hmem
    · exact lt_irrefl _ (hfirst _ hother)
  · intro other hother hdone
    refine (hversions other.id).mpr ?_
    by_cases heq : other.id = id
    · exact .inr heq
    · refine .inl (h.recorded other hother ?_)
      intro hmem
      rcases mem_cons.mp hmem with hmem | hmem
      · exact heq hmem
      · exact hdone hmem

theorem Migration.id_ne_baseline (m : Migration) : m.id ≠ baseline := by
  intro h
  have hvalid := m.valid
  rw [h] at hvalid
  revert hvalid
  decide

/-- All that is pending is left, whether or not the ledger was bootstrapped since it was read. -/
theorem ahead_pending (hsaw : Saw i r s l) (hcheckout : s'.checkout = s.checkout)
    (hseen : s'.seen i = s.seen i) (hgrow : ∀ v ∈ l.versions, v ∈ s'.database.versions)
    (hversions : ∀ v ∈ s'.database.versions, v ∈ l.versions ∨ v = baseline) :
    Ahead i r r.pending s' := by
  obtain ⟨hloaded, hl, hof⟩ := hsaw
  constructor
  · refine ⟨l, ⟨?_, hseen.trans hl, hof⟩, fun id hid => (hof.mem_pending.mp hid).2⟩
    rwa [Loaded, hcheckout]
  · obtain ⟨files, -, hload⟩ := hloaded
    exact compute_pending_ascending (load_migrations_nodup hload)
  · intro id hid hmem
    obtain ⟨hfile, hnew⟩ := hof.mem_pending.mp hid
    rcases hversions id hmem with hmem | rfl
    · exact hnew hmem
    · obtain ⟨m, -, hm⟩ := mem_map.mp hfile
      exact m.id_ne_baseline hm
  · intro m hm hdone
    refine hgrow _ ?_
    by_contra hnew
    exact hdone (hof.mem_pending.mpr ⟨mem_map_of_mem hm, hnew⟩)

theorem Fresh.past (h : Fresh i s) (rest : List String) : Past i rest s :=
  fun e he hrunner => absurd hrunner (h e he)

theorem Past.execute {id : String} {todo : List String} (h : Past i (id :: todo) s)
    (hascending : (id :: todo).Pairwise (· < ·)) {e : Execution} (hid : e.migration.id = id)
    (hexecutions : s'.database.executions = s.database.executions ++ [e]) : Past i todo s' := by
  intro other hother hrunner later hlater
  rw [hexecutions] at hother
  rcases mem_append.mp hother with hother | hother
  · exact h other hother hrunner later (.tail _ hlater)
  · rw [mem_singleton.mp hother, hid]
    exact (pairwise_cons.mp hascending).1 later hlater

end AwsOps.Migrate

import AwsOps.Migrate.Steps

/-!
# Each migration once

Every statement of a run in its protocol keeps the database sound, establishes what the run knows
next and keeps what the others know. `migrations_exactly_once` reads the guarantees of the runner
off that: over every interleaving of runs, with errors and deaths at every statement.
-/

namespace AwsOps.Migrate

open List Option Store Database

variable {initial : Database} {n i : Nat} {s s' : Store} {stage : Stage}

/-- What one statement of a run does for the run and for the others. -/
def Owned (initial : Database) (n i : Nat) (stage : Stage) (s s' : Store) : Prop :=
  Sound initial n s' ∧ Knows i stage s' ∧ ∀ k w, k ≠ i → Knows k w s → Knows k w s'

theorem owned_read (hs : Sound initial n s) (hknows : Knows i stage s) : Owned initial n i stage s s :=
  ⟨hs, hknows, fun _ _ _ h => h⟩

/-- A step that leaves the database alone and the sessions of others, and takes the lock only from
nobody. -/
theorem owned_session (hi : i < n) (hs : Sound initial n s) (hdatabase : s'.database = s.database)
    (hcheckout : s'.checkout = s.checkout)
    (hseen : ∀ k, k ≠ i ∨ ¬ Fresh i s → s'.seen k = s.seen k)
    (hsessions : ∀ k, k ≠ i → s'.sessions k = s.sessions k)
    (hholder : ∀ k, k ≠ i → (s'.holder = some k ↔ s.holder = some k))
    (hknows : Knows i stage s') : Owned initial n i stage s s' := by
  refine ⟨⟨?_, ?_⟩, hknows, ?_⟩
  · intro k hk
    have hne : k ≠ i := by omega
    obtain ⟨⟨hfree, hsession⟩, hfresh⟩ := hs.later k hk
    refine ⟨⟨(hholder k hne).not.mpr hfree, (hsessions k hne).trans hsession⟩, ?_⟩
    rwa [Fresh, hdatabase]
  · have h := hs.recorded
    refine h.write hcheckout ?_ ?_ ?_ ?_ ?_ ?_
    · intro e he
      refine hseen _ ?_
      by_cases hne : e.runner = i
      · exact .inr fun hfresh => hfresh e he hne
      · exact .inl hne
    · rw [hdatabase]
    · exact hdatabase ▸ fun _ hv => hv
    · exact hdatabase ▸ fun _ hv => .inl hv
    · exact hdatabase ▸ h.genuine
    · exact hdatabase ▸ h.whole
  · intro k w hne hk
    exact hk.congr hdatabase hcheckout (hseen k (.inl hne)) (hsessions k hne) (hholder k hne)

theorem owned_holder (hi : i < n) (hs : Sound initial n s) (hlock : s.holder = some i)
    (hholder : s'.holder = s.holder) (hcheckout : s'.checkout = s.checkout)
    (hsessions : ∀ k, k ≠ i → s'.sessions k = s.sessions k)
    (hexecutions : ∀ e ∈ s'.database.executions, e ∈ s.database.executions ∨ e.runner = i)
    (hrecorded : Recorded initial s') (hknows : Knows i stage s') :
    Owned initial n i stage s s' := by
  have hfresh : ∀ k, k ≠ i → Fresh k s → Fresh k s' := by
    intro k hne hk e he heq
    rcases hexecutions e he with he | he
    · exact hk e he heq
    · exact hne (heq.symm.trans he)
  have hother : ∀ k, k ≠ i → s.holder ≠ some k := by
    intro k hne heq
    rw [hlock, Option.some.injEq] at heq
    exact hne heq.symm
  refine ⟨⟨?_, hrecorded⟩, hknows, ?_⟩
  · intro k hk
    have hne : k ≠ i := by omega
    obtain ⟨⟨hfree, hsession⟩, hk⟩ := hs.later k hk
    exact ⟨⟨hholder ▸ hfree, (hsessions k hne).trans hsession⟩, hfresh k hne hk⟩
  · intro k w hne hk
    exact hk.outside (hother k hne) (hholder ▸ hother k hne) (hsessions k hne) hcheckout
      (hfresh k hne)

theorem release_iff {k : Nat} (hne : k ≠ i) :
    (if s.holder = some i then none else s.holder) = some k ↔ s.holder = some k := by
  split
  · rename_i hlock
    rw [hlock, Option.some.injEq]
    exact ⟨nofun, fun h => absurd h.symm hne⟩
  · exact Iff.rfl

theorem disconnect_sound (hs : Sound initial n s) (i : Nat) : Sound initial n (s.disconnect i) := by
  refine ⟨?_, hs.recorded.write rfl (fun _ _ => rfl) rfl (fun _ hv => hv) (fun _ hv => .inl hv)
    hs.recorded.genuine hs.recorded.whole⟩
  intro k hk
  obtain ⟨⟨hfree, hsession⟩, hfresh⟩ := hs.later k hk
  refine ⟨⟨?_, ?_⟩, hfresh⟩
  · show (if s.holder = some i then none else s.holder) ≠ some k
    split
    · nofun
    · exact hfree
  · show (if k = i then none else s.sessions k) = none
    rw [hsession, ite_self]

theorem disconnect_knows {k : Nat} {w : Stage} (hne : k ≠ i) (h : Knows k w s) :
    Knows k w (s.disconnect i) :=
  h.congr rfl rfl rfl (if_neg hne) (release_iff hne)

theorem owned_set_session (hi : i < n) (hs : Sound initial n s) (open? : Option (List Change))
    (hknows : Knows i stage (s.setSession i open?)) :
    Owned initial n i stage s (s.setSession i open?) :=
  owned_session hi hs rfl rfl (fun _ _ => rfl) (fun _ hne => if_neg hne) (fun _ _ => Iff.rfl) hknows

theorem set_session_self (s : Store) (i : Nat) (open? : Option (List Change)) :
    (s.setSession i open?).sessions i = open? :=
  if_pos rfl

/-! ## Changes -/

theorem owned_alter (hi : i < n) (hs : Sound initial n s) (hholds : Holds i none s)
    {l l' : Ledger} (hl : s.database.ledger = some l) (htext : l.versionType = .text)
    (hrows : l'.rows = l.rows) (hchecksum : l.hasChecksum = true → l'.hasChecksum = true)
    (hkeep : l.Bootstrapped → l'.Bootstrapped)
    (hknows : Knows i stage { s with database := { s.database with ledger := some l' } }) :
    Owned initial n i stage s { s with database := { s.database with ledger := some l' } } := by
  have hversions : l'.versions = l.versions := by rw [Ledger.versions, hrows, Ledger.versions]
  have hbefore : s.database.versions = l.versions := by rw [versions, hl]; rfl
  have h := hs.recorded
  refine owned_holder hi hs hholds.1 rfl rfl (fun _ _ => rfl) (fun e he => .inl he) ?_ hknows
  refine h.write rfl (fun _ _ => rfl) rfl ?_ ?_ ?_ ?_
  · intro v hv
    rw [hbefore] at hv
    show v ∈ l'.versions
    rwa [hversions]
  · intro v hv
    rw [hbefore, ← hversions]
    exact .inl hv
  · rintro _ ⟨rfl⟩
    exact (h.genuine l hl).alter hrows hchecksum
  · have hwhole := h.whole
    rw [hl] at hwhole
    exact hwhole.write htext hkeep

variable {r : Reading} {rest : List String} {m : Migration}

theorem owned_autocommit (hi : i < n) (hs : Sound initial n s) (hholds : Holds i none s)
    (hahead : Ahead i r rest s) (hpast : Past i rest s) (hnext : r.Next rest m)
    (hflag : hasNoTxnFlag m.sql = true) :
    Owned initial n i (.stamping r m rest.tail) s
      { s with database :=
        { s.database with executions := s.database.executions ++ [⟨i, m, false⟩] } } := by
  have h := hs.recorded
  have htodo := hnext.todo
  have hmem : m.id ∈ rest := htodo ▸ mem_cons_self
  refine owned_holder hi hs hholds.1 rfl rfl (fun _ _ => rfl) ?_ ?_ ?_
  · intro e he
    exact (mem_append.mp he).imp id fun he => by rw [mem_singleton.mp he]
  · refine h.execute rfl rfl rfl (fun _ hv => hv) (fun _ hv => .inl hv) ?_ nofun
      (hahead.missing _ hmem) ?_ ?_ (hahead.faithful hnext false) h.genuine h.whole
    · show false = !hasNoTxnFlag m.sql
      rw [hflag]
      rfl
    · exact fun other hother hrunner => hpast other hother hrunner _ hmem
    · exact fun migrations hloaded other hother hlt => hahead.stops hnext hloaded hother hlt
  · rw [htodo] at hahead hpast
    refine ⟨hholds, ⟨hahead.saw, hahead.ascending, hahead.missing, hahead.recorded⟩, ?_,
      _, mem_append_right _ mem_cons_self, rfl⟩
    exact hpast.execute hahead.ascending rfl rfl

variable {row : Row} {answer : Except String Unit}

theorem owned_stamp (hi : i < n) (hs : Sound initial n s) (hholds : Holds i none s)
    (hahead : Ahead i r (m.id :: rest) s) (hpast : Past i rest s) (hrow : row.Records m)
    (hexecuted : ∃ e ∈ s.database.executions, e.migration.id = m.id) {l l' : Ledger}
    (hl : s.database.ledger = some l) (hstamp : l.change (.stamp row) = some l') :
    Owned initial n i (.ready r rest) s
      { s with database := { s.database with ledger := some l' } } := by
  have h := hs.recorded
  have hgenuine : l'.Genuine := (h.genuine l hl).stamp hrow hstamp
  obtain ⟨htext, -, rfl⟩ := stamp_spec hstamp
  have hversions : ∀ v, v ∈ Ledger.versions { l with rows := l.rows ++ [row] } ↔
      v ∈ s.database.versions ∨ v = m.id := by
    intro v
    rw [stamp_versions, mem_append, mem_singleton, hrow.version, versions, hl]
    rfl
  refine owned_holder hi hs hholds.1 rfl rfl (fun _ _ => rfl) (fun e he => .inl he) ?_ ?_
  · refine h.write rfl (fun _ _ => rfl) rfl (fun v hv => (hversions v).mpr (.inl hv)) ?_ ?_ ?_
    · intro v hv
      rcases (hversions v).mp hv with hv | rfl
      · exact .inl hv
      · exact .inr (.inr hexecuted)
    · rintro _ ⟨rfl⟩
      exact hgenuine
    · have hwhole := h.whole
      rw [hl] at hwhole
      refine hwhole.write htext fun hbooted => ⟨hbooted.1, hbooted.2, hbooted.3, ?_⟩
      rw [stamp_versions]
      exact mem_append_left _ hbooted.marked
  · exact ⟨hholds, hahead.tail rfl rfl hversions, hpast⟩

theorem migration_transaction {d d' : Database}
    (h : d.transaction i [.migration m, .stamp row] = some d') :
    ∃ l l', d.ledger = some l ∧ l.change (.stamp row) = some l' ∧
      d' = ⟨some l', d.executions ++ [⟨i, m, true⟩]⟩ := by
  simp only [transaction, bind_eq_some_iff] at h
  obtain ⟨d₁, h₁, d₂, h₂, h₃⟩ := h
  cases h₁
  cases h₃
  obtain ⟨l, l', hl, hl', rfl⟩ := change_ledger (fun _ heq => by cases heq) h₂
  exact ⟨l, l', hl, hl', rfl⟩

theorem owned_commit (hi : i < n) (hs : Sound initial n s) (hlock : s.holder = some i)
    (hahead : Ahead i r rest s) (hpast : Past i rest s) (hnext : r.Next rest m)
    (hflag : hasNoTxnFlag m.sql = false) (hrow : row.Records m) {l l' : Ledger}
    (hl : s.database.ledger = some l) (hstamp : l.change (.stamp row) = some l') :
    Owned initial n i (.ready r rest.tail) s
      { s.setSession i none with
        database := ⟨some l', s.database.executions ++ [⟨i, m, true⟩]⟩ } := by
  have h := hs.recorded
  have hgenuine : l'.Genuine := (h.genuine l hl).stamp hrow hstamp
  obtain ⟨htext, -, rfl⟩ := stamp_spec hstamp
  have hversions : ∀ v, v ∈ Ledger.versions { l with rows := l.rows ++ [row] } ↔
      v ∈ s.database.versions ∨ v = m.id := by
    intro v
    rw [stamp_versions, mem_append, mem_singleton, hrow.version, versions, hl]
    rfl
  have htodo := hnext.todo
  have hmem : m.id ∈ rest := htodo ▸ mem_cons_self
  refine owned_holder hi hs hlock rfl rfl (fun _ hne => if_neg hne) ?_ ?_ ?_
  · intro e he
    exact (mem_append.mp he).imp id fun he => by rw [mem_singleton.mp he]
  · refine h.execute (e := ⟨i, m, true⟩) rfl rfl rfl (fun v hv => (hversions v).mpr (.inl hv))
      (fun v hv => (hversions v).mp hv) ?_ (fun _ => (hversions _).mpr (.inr rfl))
      (hahead.missing _ hmem) ?_ ?_ (hahead.faithful hnext true) ?_ ?_
    · show true = !hasNoTxnFlag m.sql
      rw [hflag]
      rfl
    · exact fun other hother hrunner => hpast other hother hrunner _ hmem
    · exact fun migrations hloaded other hother hlt => hahead.stops hnext hloaded hother hlt
    · rintro _ ⟨rfl⟩
      exact hgenuine
    · have hwhole := h.whole
      rw [hl] at hwhole
      refine hwhole.write htext fun hbooted => ⟨hbooted.1, hbooted.2, hbooted.3, ?_⟩
      rw [stamp_versions]
      exact mem_append_left _ hbooted.marked
  · rw [htodo] at hahead hpast
    refine ⟨⟨hlock, set_session_self s i none⟩, hahead.tail rfl rfl hversions, ?_⟩
    exact hpast.execute hahead.ascending rfl rfl

theorem owned_bootstrap (hi : i < n) (hs : Sound initial n s) (hlock : s.holder = some i)
    (hfresh : Fresh i s) {l : Ledger} (hl : s.database.ledger = some l) (hsaw : Saw i r s l)
    (appVersion : String) :
    Owned initial n i (.ready r r.pending) s
      { s.setSession i none with
        database := ⟨some (l.bootstrapped appVersion), s.database.executions⟩ } := by
  have h := hs.recorded
  have hversions := bootstrapped_versions l appVersion
  have hbefore : s.database.versions = l.versions := by rw [versions, hl]; rfl
  refine owned_holder hi hs hlock rfl rfl (fun _ hne => if_neg hne) (fun e he => .inl he) ?_ ?_
  · refine h.write rfl (fun _ _ => rfl) rfl ?_ ?_ ?_ ?_
    · intro v hv
      exact (hversions v).mpr (.inl (hbefore ▸ hv))
    · intro v hv
      rw [hbefore]
      exact ((hversions v).mp hv).imp id .inl
    · rintro _ ⟨rfl⟩
      exact (h.genuine l hl).bootstrap appVersion
    · exact fun _ _ _ => .inr ⟨_, rfl, bootstrapped_bootstrapped l appVersion⟩
  · refine ⟨⟨hlock, set_session_self s i none⟩, ?_, Fresh.past hfresh _⟩
    refine ahead_pending hsaw rfl rfl ?_ fun v hv => (hversions v).mp hv
    exact fun v hv => (hversions v).mpr (.inl hv)

/-! ## Statements -/

theorem read_rows_owned (hi : i < n) (hs : Sound initial n s) {migrations : List Migration}
    {versionType : Option VersionType} {hasChecksum : Bool}
    {answer : (Statement.readRows hasChecksum).Answer}
    (hknows : Knows i (.columns migrations versionType hasChecksum) s)
    (hexec : exec i (.readRows hasChecksum) s = some (answer, s')) :
    Owned initial n i
      (Stage.advance (.columns migrations versionType hasChecksum) (.readRows hasChecksum) answer)
      s s' := by
  obtain ⟨hholds, hfresh, hloaded, hversion, hcolumn⟩ := hknows
  cases hl : s.database.ledger with
  | none =>
    simp only [exec, hl] at hexec
    cases hexec
    exact owned_read hs ⟨hholds, hfresh, hloaded, hversion, hcolumn⟩
  | some l =>
    have hsame : hasChecksum = l.hasChecksum := by rw [hcolumn, hl]; rfl
    simp only [exec, hl] at hexec
    rw [if_neg (by simp [hsame])] at hexec
    cases hexec
    refine owned_session hi hs rfl rfl ?_ (fun _ _ => rfl) (fun _ _ => Iff.rfl) ?_
    · intro k hk
      exact if_neg (hk.resolve_right (not_not.mpr hfresh))
    · refine ⟨hholds, hfresh, l, hl, hloaded, if_pos rfl, hs.recorded.genuine l hl, ?_, ?_⟩
      · rw [hversion, hl]
        rfl
      · show l.read hasChecksum = l.read l.hasChecksum
        rw [hsame]

theorem change_owned (hi : i < n) (hs : Sound initial n s) {c : Change} (hknows : Knows i stage s)
    (hallowed : stage.mayIssue (.change c)) (hexec : exec i (.change c) s = some (answer, s')) :
    Owned initial n i (stage.advance (.change c) answer) s s' := by
  cases stage with
  | read r =>
    obtain ⟨hholds, hfresh, l, hl, hsaw⟩ := hknows
    cases c <;> try cases hallowed
    have htext : l.versionType = .text := hsaw.2.2.versionType ▸ hallowed
    simp only [exec, hholds.2, change, hl, Ledger.change, bind_some, map_some] at hexec
    cases hexec
    refine owned_alter hi hs hholds hl htext rfl (fun _ => rfl) ?_ ?_
    · exact fun hbooted => ⟨hbooted.1, rfl, hbooted.3, hbooted.4⟩
    · exact ⟨hholds, hfresh, l, _, hsaw, rfl, htext, rfl⟩
  | extending r =>
    obtain ⟨hholds, hfresh, l, l', hsaw, hl', htext, hversions⟩ := hknows
    cases c <;> try cases hallowed
    simp only [exec, hholds.2, change, hl', Ledger.change, bind_some, map_some] at hexec
    cases hexec
    refine owned_alter hi hs hholds hl' htext rfl id ?_ ?_
    · exact fun hbooted => ⟨hbooted.1, hbooted.2, rfl, hbooted.4⟩
    · refine ⟨hholds, ahead_pending hsaw rfl rfl ?_ ?_, Fresh.past hfresh _⟩
      · exact fun v hv => by rwa [← hversions] at hv
      · exact fun v hv => .inl (hversions ▸ hv)
  | bootstrapping r changes =>
    obtain ⟨hholds, hfresh, -, l, hl, hsaw⟩ := hknows
    simp only [exec, hholds.2] at hexec
    split at hexec
    · cases hexec
      exact owned_read hs trivial
    · cases hexec
      refine owned_set_session hi hs _ ?_
      exact ⟨⟨hholds.1, set_session_self ..⟩, hfresh, hallowed, l, hl, hsaw⟩
  | ready r rest =>
    obtain ⟨hholds, hahead, hpast⟩ := hknows
    cases c <;> try cases hallowed
    rename_i m hnext hflag
    simp only [exec, hholds.2, change] at hexec
    cases hexec
    exact owned_autocommit hi hs hholds hahead hpast hnext hflag
  | within r rest changes =>
    obtain ⟨hholds, hahead, hpast, -⟩ := hknows
    simp only [exec, hholds.2] at hexec
    split at hexec
    · cases hexec
      exact owned_read hs trivial
    · cases hexec
      refine owned_set_session hi hs _ ?_
      refine ⟨⟨hholds.1, set_session_self ..⟩, ?_, hpast, hallowed⟩
      exact ⟨hahead.saw, hahead.ascending, hahead.missing, hahead.recorded⟩
  | stamping r m rest =>
    obtain ⟨hholds, hahead, hpast, hexecuted⟩ := hknows
    cases c with
    | stamp row =>
      simp only [exec, hholds.2] at hexec
      split at hexec
      · cases hexec
        exact owned_read hs trivial
      · rename_i d hchange
        cases hexec
        obtain ⟨l, l', hl, hl', rfl⟩ := change_ledger (fun _ heq => by cases heq) hchange
        exact owned_stamp hi hs hholds hahead hpast hallowed hexecuted hl hl'
    | _ => cases hallowed
  | _ => cases hallowed

theorem commit_owned (hi : i < n) (hs : Sound initial n s) (hknows : Knows i stage s)
    (hallowed : stage.mayIssue .commit) (hexec : exec i .commit s = some (answer, s')) :
    Owned initial n i (stage.advance .commit answer) s s' := by
  cases stage with
  | bootstrapping r changes =>
    obtain ⟨hholds, hfresh, -, l, hl, hsaw⟩ := hknows
    obtain ⟨appVersion, rfl⟩ := hallowed
    have hdatabase : s.database = ⟨some l, s.database.executions⟩ := by rw [← hl]
    have htransaction := bootstrap_transaction (l := l) i s.database.executions appVersion
    rw [← hdatabase] at htransaction
    simp only [exec, hholds.2, htransaction] at hexec
    cases hexec
    exact owned_bootstrap hi hs hholds.1 hfresh hl hsaw appVersion
  | within r rest changes =>
    obtain ⟨hholds, hahead, hpast, hchanges⟩ := hknows
    cases hchanges with
    | none => cases hallowed
    | executed => cases hallowed
    | stamped hnext hflag hrow =>
      simp only [exec, hholds.2] at hexec
      split at hexec
      · cases hexec
        exact owned_set_session hi hs none trivial
      · rename_i d htransaction
        cases hexec
        obtain ⟨l, l', hl, hl', rfl⟩ := migration_transaction htransaction
        exact owned_commit hi hs hholds.1 hahead hpast hnext hflag hrow hl hl'
  | _ => cases hallowed

theorem exec_owned (hi : i < n) (hs : Sound initial n s) {c : Statement} {answer : c.Answer}
    (hknows : Knows i stage s) (hallowed : protocol.allowed stage c)
    (hexec : exec i c s = some (answer, s')) :
    Owned initial n i (protocol.after stage c answer) s s' := by
  cases c with
  | roleExists | roleAttributes | alterRole =>
    cases hexec
    exact owned_read hs hknows
  | disconnect =>
    cases hexec
    exact ⟨disconnect_sound hs i, trivial, fun k w hne hk => disconnect_knows hne hk⟩
  | unlock =>
    cases hexec
    exact owned_session hi hs rfl rfl (fun _ _ => rfl) (fun _ _ => rfl)
      (fun k hne => release_iff hne) trivial
  | rollback =>
    obtain hmay | ⟨-, hidle⟩ := hallowed
    · cases hexec
      cases stage <;> try cases hmay
      exact owned_set_session hi hs none trivial
    · cases hidle
  | change c =>
    obtain hmay | ⟨-, hidle⟩ := hallowed
    · exact change_owned hi hs hknows hmay hexec
    · cases hidle
  | commit =>
    obtain hmay | ⟨-, hidle⟩ := hallowed
    · exact commit_owned hi hs hknows hmay hexec
    · cases hidle
  | readRows hasChecksum =>
    obtain hmay | ⟨-, hidle⟩ := hallowed
    · cases stage <;> try cases hmay
      exact read_rows_owned hi hs hknows hexec
    · cases hidle
  | begin =>
    obtain hmay | ⟨-, hidle⟩ := hallowed
    · cases hexec
      cases stage with
      | read r =>
        obtain ⟨hholds, hfresh, l, hl, hsaw⟩ := hknows
        refine owned_set_session hi hs _ ?_
        rw [hholds.2]
        exact ⟨⟨hholds.1, set_session_self ..⟩, hfresh, ⟨"", nil_prefix⟩, l, hl, hsaw⟩
      | ready r rest =>
        obtain ⟨hholds, hahead, hpast⟩ := hknows
        refine owned_set_session hi hs _ ?_
        rw [hholds.2]
        refine ⟨⟨hholds.1, set_session_self ..⟩, ?_, hpast, .none⟩
        exact ⟨hahead.saw, hahead.ascending, hahead.missing, hahead.recorded⟩
      | _ => cases hmay
    · cases hidle
  | lock =>
    obtain hmay | ⟨-, hidle⟩ := hallowed
    · cases stage <;> try cases hmay
      obtain ⟨hfree, hfresh, hloaded⟩ := hknows
      simp only [exec] at hexec
      split at hexec
      · rename_i hnobody
        cases hexec
        refine owned_session hi hs rfl rfl (fun _ _ => rfl) (fun _ _ => rfl) ?_ ?_
        · intro k hne
          rw [hnobody.resolve_right hfree.1, Option.some.injEq]
          exact ⟨fun h => absurd h.symm hne, nofun⟩
        · exact ⟨⟨rfl, hfree.2⟩, hfresh, hloaded⟩
      · cases hexec
    · cases hidle
  | connect =>
    obtain hmay | ⟨-, hidle⟩ := hallowed
    · cases hexec
      cases stage <;> try cases hmay
      exact owned_read hs hknows
    · cases hidle
  | readVersionType =>
    obtain hmay | ⟨-, hidle⟩ := hallowed
    · cases hexec
      cases stage <;> try cases hmay
      obtain ⟨hholds, hfresh, hloaded⟩ := hknows
      exact owned_read hs ⟨hholds, hfresh, hloaded, rfl⟩
    · cases hidle
  | readHasChecksum =>
    obtain hmay | ⟨-, hidle⟩ := hallowed
    · cases hexec
      cases stage <;> try cases hmay
      obtain ⟨hholds, hfresh, hloaded, hversion⟩ := hknows
      exact owned_read hs ⟨hholds, hfresh, hloaded, hversion, rfl⟩
    · cases hidle
  | readDirectory =>
    obtain hmay | ⟨-, hidle⟩ := hallowed
    · cases hexec
      cases stage <;> try cases hmay
      refine owned_read hs ?_
      cases hfiles : s.checkout i with
      | none => trivial
      | some files =>
        cases hload : loadMigrations files with
        | error message => simp only [protocol, Stage.advance, hload, Knows]
        | ok migrations =>
          simp only [protocol, Stage.advance, hload]
          exact ⟨hknows.1, hknows.2, files, hfiles, hload⟩
    · cases hidle

theorem error_knows {c : Statement} (h : Knows i stage s) (e : String) :
    Knows i (protocol.after stage c (.error e)) s := by
  cases c with
  | change c => cases stage <;> cases c <;> first | exact h | trivial
  | _ => cases stage <;> first | exact h | trivial

theorem machine_owned (initial : Database) :
    machine.Owns protocol (fun _ _ _ => True) (Sound initial) Knows where
  start hs := ⟨⟨fun k hk => hs.later k (by omega), hs.recorded⟩, hs.later _ (Nat.le_refl _)⟩
  exec hi hs hknows hallowed _ hexec := exec_owned hi hs hknows hallowed hexec
  caught := by
    intro n i stage c s answer _ _ hknows _ hcaught
    cases c <;> cases hcaught <;> exact error_knows hknows s.error
  abort hs := ⟨disconnect_sound hs _, fun k w hne hk => disconnect_knows hne hk⟩
  environment := by
    intro n e s hs
    refine ⟨⟨hs.later, ?_⟩, fun k w hk => hk.congr rfl rfl rfl rfl Iff.rfl⟩
    exact hs.recorded.write rfl (fun _ _ => rfl) rfl (fun _ hv => hv) (fun _ hv => .inl hv)
      hs.recorded.genuine hs.recorded.whole

/-! ## The guarantees -/

/-- The guarantees of the runner, over all runs so far. -/
structure ExactlyOnce (initial : Database) (s : Store) : Prop where
  /-- A migration is committed in a transaction at most once. -/
  once : ((s.database.executions.filter Execution.transactional).map
    fun e => e.migration.id).Nodup
  /-- A migration that runs only ever executed in transactions, and that was not recorded to begin
  with, is recorded exactly when it was committed. -/
  recorded : ∀ m : Migration, m.id ∉ initial.versions →
    (∀ e ∈ s.database.executions, e.migration.id = m.id → hasNoTxnFlag e.migration.sql = false) →
    (m.id ∈ s.database.versions ↔ ∃ e ∈ s.database.executions, e.migration.id = m.id)
  /-- A run executes migrations in ascending order of their ids. -/
  ascending : ∀ i, (s.database.executions.filter fun e => e.runner == i).Pairwise
    fun a b => a.migration.id < b.migration.id
  /-- What a run executes was pending when it read the ledger, and it executes nothing while a file
  of it with a smaller id is not recorded: a failure stops it. -/
  stops : ∀ e ∈ s.database.executions,
    (∃ l, s.seen e.runner = some l ∧ e.migration.id ∉ l.versions) ∧
    ∀ migrations, Loaded e.runner migrations s → e.migration ∈ migrations ∧
      ∀ m ∈ migrations, m.id < e.migration.id → m.id ∈ s.database.versions
  /-- A run executes nothing when the ledger that it read has a row which was stamped for another
  text of one of its files, but for a collision of SHA-256. -/
  unchanged : ∀ e ∈ s.database.executions, ∀ l, s.seen e.runner = some l →
    ∀ migrations, Loaded e.runner migrations s → ∀ m ∈ migrations, ∀ row ∈ l.rows,
      row.version = m.id → ∀ sql, row.source = some sql →
      lineFeeds sql.toList ≠ lineFeeds m.sql.toList →
      Sha256.hexDigest (lineFeeds sql.toList) = Sha256.hexDigest (lineFeeds m.sql.toList)
  /-- An integer ledger is as it was, or a text ledger with its columns and its marker. -/
  bootstrap : ∀ l, initial.ledger = some l → l.versionType = .integer →
    s.database.ledger = some l ∨ ∃ l', s.database.ledger = some l' ∧ l'.Bootstrapped

/-- Before the first run: no executions, and a genuine ledger if there is one. -/
structure Untouched (s : Store) : Prop where
  executions : s.database.executions = []
  genuine : ∀ l, s.database.ledger = some l → l.Genuine
  holder : s.holder = none
  sessions : ∀ i, s.sessions i = none

theorem Untouched.sound (h : Untouched s) : Sound s.database 0 s := by
  have hnone : ∀ e, e ∉ s.database.executions := by
    intro e
    rw [h.executions]
    exact not_mem_nil
  refine ⟨?_, ?_⟩
  · intro k _
    refine ⟨⟨?_, h.sessions k⟩, fun e he => absurd he (hnone e)⟩
    rw [h.holder]
    nofun
  · constructor
    · exact fun e he => absurd he (hnone e)
    · exact fun e he => absurd he (hnone e)
    · rw [h.executions]
      exact nodup_nil
    · exact fun v hv => .inl hv
    · intro i
      rw [h.executions]
      exact List.Pairwise.nil
    · exact fun e he => absurd he (hnone e)
    · exact fun e he => absurd he (hnone e)
    · exact h.genuine
    · exact fun l hl _ => .inl rfl

/-- The guarantees hold of a sound database. -/
theorem Recorded.exactly_once (h : Recorded initial s) : ExactlyOnce initial s where
  once := h.once
  recorded m hnew htransactional := by
    constructor
    · intro hrow
      rcases h.origin m.id hrow with hfirst | hmarker | hexecuted
      · exact absurd hfirst hnew
      · exact absurd hmarker m.id_ne_baseline
      · exact hexecuted
    · intro ⟨e, he, hid⟩
      rw [← hid]
      refine h.stamped e he ?_
      rw [h.flagged e he, htransactional e he hid]
      rfl
  ascending := h.ascending
  stops e he := by
    obtain ⟨l, hl, hnew, migrations, hloaded, hfile, -⟩ := h.faithful e he
    refine ⟨⟨l, hl, hnew⟩, ?_⟩
    intro others hothers
    rw [hothers.unique hloaded]
    exact ⟨hfile, h.stops e he migrations hloaded⟩
  unchanged e he l hl migrations hloaded m hm row hrow hid sql hsql _ := by
    obtain ⟨l', hl', -, migrations', hloaded', -, hsame⟩ := h.faithful e he
    rw [hl, Option.some.injEq] at hl'
    subst hl'
    rw [hloaded.unique hloaded'] at hm
    have hsum := hsame m hm row hrow hid sql hsql
    exact String.ofList_injective hsum
  bootstrap l hl hinteger := hl ▸ h.whole l hl hinteger

/-- Two migrations in a directory. -/
def twoFiles : List File :=
  [⟨"01KTV8RWK7W7ZVATATDYHV8AS2_prevention_insights.sql", "CREATE TABLE prevention_insights ();"⟩,
    ⟨"01KTV6K54EHJSP3AVG3M3MC5Z6_opencost_config.sql", "CREATE TABLE opencost_config ();"⟩]

/-- The ledger that the baseline schema leaves. -/
def legacy : Store :=
  { database := ⟨some ⟨.integer, false, false,
      [⟨"1", "ADR-030 Phase 1: initial 7-table app state schema", none, none, none⟩]⟩, []⟩
    holder := none
    sessions := fun _ => none
    checkout := fun _ => some twoFiles
    role := none
    error := "canceling statement due to statement timeout"
    seen := fun _ => none }

/-- `BOOTSTRAP=1 make migrate`. -/
def bootstrapping : Config :=
  { dry := false
    bootstrap := true
    status := false
    offline := false
    appVersion := "2.1.0"
    directory := "terraform/v2/foundation/migrations"
    readerSecretArn := .ok ""
    readerSecret := .error ""
    ciEndpoint := none }

/-- Two runners start. The first bootstraps the ledger, commits one migration and dies inside of
the second one; the other waits for the lock and applies what is left. -/
def twoRunners : List (Event Config String) :=
  [.start bootstrapping, .start bootstrapping, .act 1, .act 1] ++ List.replicate 18 (.act 0) ++
    [.act 1, .crash 0] ++ List.replicate 13 (.act 1)

end AwsOps.Migrate

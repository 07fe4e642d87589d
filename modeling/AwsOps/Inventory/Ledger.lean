import AwsOps.Inventory.Stages

/-!
# The ledger of the inventory sync

`sync_ledger_honest` says what a ledger row can be trusted for, in any interleaving of the runs of
a type in which statements raise, sessions end, answers are lost, statements are executed late and
runs die. While the row says `succeeded`, no run has written or deleted a resource row since the
run that set it unlocked. Only the run whose token the row carries sets a terminal status, and only
a run that has finished advances the last success.

The invariant is about the server alone: who holds the lock has acquired it and has not unlocked,
who has marked the row under the lock owns the token until another run marks it, and so the run
that owns the token and has unlocked has been followed by no write.
-/

namespace AwsOps.Inventory

open List

def Entry.run : Entry → Nat
  | acquired i | began i | wrote i | released i | ended i _ => i

/-- The entry sets the status of the ledger row. -/
def Entry.setsStatus : Entry → Bool
  | began _ | ended .. => true
  | acquired _ | wrote _ | released _ => false

/-- The entry that set the status of the ledger row. -/
def lastStatus (history : List Entry) : Option Entry :=
  history.find? Entry.setsStatus

/-- No run has written or deleted a resource row since run `i` unlocked. -/
def Settled (history : List Entry) (i : Nat) : Prop :=
  ∃ after before, history = after ++ .released i :: before ∧ ∀ j, .wrote j ∉ after

theorem Settled.cons {history : List Entry} {i : Nat} (h : Settled history i) {entry : Entry}
    (hentry : ∀ j, entry ≠ .wrote j) : Settled (entry :: history) i := by
  obtain ⟨after, before, rfl, hafter⟩ := h
  refine ⟨entry :: after, before, rfl, ?_⟩
  intro j hj
  rcases mem_cons.mp hj with hj | hj
  · exact hentry j hj.symm
  · exact hafter j hj

/-- A run can send the statement: it has acquired the lock before it marks the row, it has marked
the row before it writes, and it has unlocked before it sets `succeeded`. -/
def Sendable (i : Nat) (history : List Entry) : Statement → Prop
  | .tryLock => .acquired i ∉ history ∧ .began i ∉ history ∧ .released i ∉ history
  | .upsertRunning token => token = i ∧ .acquired i ∈ history ∧ .released i ∉ history
  | .upsertResource .. | .phase1Prune | .deleteResource _ =>
    .began i ∈ history ∧ .released i ∉ history
  | .finalize token pending =>
    token = i ∧ (pending.status = .succeeded → .released i ∈ history)
  | _ => True

/-- What the server keeps at all times. -/
structure Server.Sound (s : Server) : Prop where
  holder : ∀ i, s.tables.lock = some i → s.session i ≠ .lost ∧ .released i ∉ s.tables.history
  lock : ∀ i, .acquired i ∈ s.tables.history → .released i ∉ s.tables.history →
    s.session i ≠ .lost → s.tables.lock = some i
  owner : ∀ i, .began i ∈ s.tables.history → .acquired i ∈ s.tables.history ∧
    (.released i ∉ s.tables.history → s.session i ≠ .lost →
      ∃ row, s.tables.ledger = some row ∧ row.runToken = i)
  settled : ∀ row, s.tables.ledger = some row → .released row.runToken ∈ s.tables.history →
    Settled s.tables.history row.runToken
  succeeded : ∀ row, s.tables.ledger = some row → row.status = .terminal .succeeded →
    .released row.runToken ∈ s.tables.history ∧
      lastStatus s.tables.history = some (.ended row.runToken .succeeded)
  inflight : ∀ i c, s.inflight i = some c →
    s.session i = .left ∧ c.onWork ∧ Sendable i s.tables.history c

section Server

variable {world : World} {i : Nat} {s : Server}

theorem Server.Sound.lose (h : s.Sound) (i : Nat) : (s.lose i).Sound := by
  have hsession : ∀ {j}, (s.lose i).session j ≠ .lost → j ≠ i ∧ s.session j ≠ .lost := by
    intro j hj
    by_cases hji : j = i
    · subst hji
      exact absurd (Function.update_self ..) hj
    · simp only [Server.lose, Function.update_of_ne hji] at hj
      exact ⟨hji, hj⟩
  refine ⟨?_, ?_, ?_, h.settled, h.succeeded, ?_⟩
  · intro j hj
    simp only [Server.lose, Tables.releaseLock] at hj ⊢
    split at hj
    · cases hj
    · rename_i hne
      have hji : j ≠ i := by
        rintro rfl
        exact hne hj
      rw [Function.update_of_ne hji]
      exact h.holder j hj
  · intro j hacquired hreleased hj
    obtain ⟨hji, hj⟩ := hsession hj
    have hlock := h.lock j hacquired hreleased hj
    simp only [Server.lose, Tables.releaseLock]
    rw [if_neg (by rw [hlock]; simpa using hji)]
    exact hlock
  · intro j hbegan
    refine ⟨(h.owner j hbegan).1, ?_⟩
    intro hreleased hj
    exact (h.owner j hbegan).2 hreleased (hsession hj).2
  · intro j c hj
    by_cases hji : j = i
    · subst hji
      simp [Server.lose] at hj
    · simp only [Server.lose, Function.update_of_ne hji] at hj ⊢
      exact h.inflight j c hj

/-- An entry that says nothing about how far run `j` has got. -/
def Entry.Passes (j : Nat) (entry : Entry) : Prop :=
  entry ≠ .acquired j ∧ entry ≠ .began j ∧ entry ≠ .released j

theorem passes_of_run {j : Nat} {entry : Entry} (h : entry.run ≠ j) : entry.Passes j :=
  ⟨fun he => h (he ▸ rfl), fun he => h (he ▸ rfl), fun he => h (he ▸ rfl)⟩

theorem Sendable.cons {j : Nat} {history : List Entry} {c : Statement}
    (h : Sendable j history c) {entry : Entry} (hentry : entry.Passes j) :
    Sendable j (entry :: history) c := by
  obtain ⟨hacquired, hbegan, hreleased⟩ := hentry
  cases c <;> simp_all [Sendable, Ne.symm]

theorem Server.Sound.tryLock (h : s.Sound) (hsession : s.session i ≠ .lost)
    (hc : Sendable i s.tables.history .tryLock) (hinflight : s.inflight i = none) :
    Server.Sound { s with tables := (s.tables.tryLock i).2 } := by
  unfold Tables.tryLock
  split
  · rename_i hfree
    obtain ⟨hacquired, hbegan, hreleased⟩ := hc
    refine ⟨?_, ?_, ?_, ?_, ?_, ?_⟩
    · rintro j ⟨rfl⟩
      exact ⟨hsession, by simpa using hreleased⟩
    · intro j hj hjreleased hjsession
      simp only [mem_cons, Entry.acquired.injEq, reduceCtorEq, false_or] at hj hjreleased
      rcases hj with rfl | hj
      · rfl
      · have hlock := h.lock j hj hjreleased hjsession
        rcases hfree with hfree | hfree
        · rw [hfree] at hlock
          cases hlock
        · rw [← hfree, hlock]
    · intro j hj
      simp only [mem_cons, reduceCtorEq, false_or] at hj ⊢
      exact ⟨.inr (h.owner j hj).1, (h.owner j hj).2⟩
    · intro row hrow hj
      simp only [mem_cons, reduceCtorEq, false_or] at hj
      exact (h.settled row hrow hj).cons nofun
    · intro row hrow hstatus
      simp only [mem_cons, reduceCtorEq, false_or]
      exact h.succeeded row hrow hstatus
    · intro j c hj
      have hji : i ≠ j := by
        rintro rfl
        rw [hinflight] at hj
        cases hj
      obtain ⟨hleft, hwork, hsend⟩ := h.inflight j c hj
      exact ⟨hleft, hwork, hsend.cons (passes_of_run hji)⟩
  · exact h

theorem Server.Sound.upsertRunning (h : s.Sound) (hsession : s.session i ≠ .lost) {token : Nat}
    (hc : Sendable i s.tables.history (.upsertRunning token)) (hinflight : s.inflight i = none) :
    Server.Sound { s with
      tables := { s.tables with
        ledger := some (runningRow s.tables.ledger token s.tables.clock)
        history := .began i :: s.tables.history } } := by
  obtain ⟨rfl, hacquired, hreleased⟩ := hc
  have hlock := h.lock token hacquired hreleased hsession
  refine ⟨?_, ?_, ?_, ?_, ?_, ?_⟩
  · intro j hj
    simp only [mem_cons, reduceCtorEq, false_or]
    exact h.holder j hj
  · intro j hj
    simp only [mem_cons, reduceCtorEq, false_or] at hj ⊢
    exact h.lock j hj
  · intro j hj
    simp only [mem_cons, Entry.began.injEq, reduceCtorEq, false_or] at hj ⊢
    rcases hj with rfl | hj
    · exact ⟨hacquired, fun _ _ => ⟨_, rfl, rfl⟩⟩
    · refine ⟨(h.owner j hj).1, ?_⟩
      intro hjreleased hjsession
      -- Another run that owns the row would hold the lock.
      have hjlock := h.lock j (h.owner j hj).1 hjreleased hjsession
      rw [hlock] at hjlock
      cases hjlock
      exact ⟨_, rfl, rfl⟩
  · rintro row ⟨rfl⟩ hj
    simp only [mem_cons, reduceCtorEq, false_or] at hj
    exact absurd hj hreleased
  · rintro row ⟨rfl⟩ hstatus
    cases hstatus
  · intro j c hj
    have hji : token ≠ j := by
      rintro rfl
      rw [hinflight] at hj
      cases hj
    obtain ⟨hleft, hwork, hsend⟩ := h.inflight j c hj
    exact ⟨hleft, hwork, hsend.cons (passes_of_run hji)⟩

/-- A write or a deletion of resource rows: the run owns the token and has not unlocked, so the
row does not say `succeeded`. -/
theorem Server.Sound.write (h : s.Sound) (hsession : s.session i ≠ .lost)
    (hbegan : .began i ∈ s.tables.history) (hreleased : .released i ∉ s.tables.history)
    (hinflight : s.inflight i = none) (resources : Resources) :
    Server.Sound { s with
      tables := { s.tables with
        resources := resources, history := .wrote i :: s.tables.history } } := by
  obtain ⟨row, hrow, htoken⟩ := (h.owner i hbegan).2 hreleased hsession
  refine ⟨?_, ?_, ?_, ?_, ?_, ?_⟩
  · intro j hj
    simp only [mem_cons, reduceCtorEq, false_or]
    exact h.holder j hj
  · intro j hj
    simp only [mem_cons, reduceCtorEq, false_or] at hj ⊢
    exact h.lock j hj
  · intro j hj
    simp only [mem_cons, reduceCtorEq, false_or] at hj ⊢
    exact h.owner j hj
  · intro row' hrow' hj
    simp only [mem_cons, reduceCtorEq, false_or] at hj
    cases hrow.symm.trans hrow'
    rw [htoken] at hj
    exact absurd hj hreleased
  · intro row' hrow' hstatus
    have hj := (h.succeeded row' hrow' hstatus).1
    cases hrow.symm.trans hrow'
    rw [htoken] at hj
    exact absurd hj hreleased
  · intro j c hj
    have hji : i ≠ j := by
      rintro rfl
      rw [hinflight] at hj
      cases hj
    obtain ⟨hleft, hwork, hsend⟩ := h.inflight j c hj
    exact ⟨hleft, hwork, hsend.cons (passes_of_run hji)⟩

theorem Server.Sound.unlock (h : s.Sound) (hinflight : s.inflight i = none) :
    Server.Sound { s with
      tables := { s.tables.releaseLock i with history := .released i :: s.tables.history } } := by
  have hkept : ∀ {j}, j ≠ i → .released j ∉ s.tables.history →
      .released j ∉ (.released i :: s.tables.history : List Entry) := by
    intro j hji hj
    simp [hji, hj]
  refine ⟨?_, ?_, ?_, ?_, ?_, ?_⟩
  · intro j hj
    simp only [Tables.releaseLock] at hj ⊢
    split at hj
    · cases hj
    · rename_i hne
      have hji : j ≠ i := by
        rintro rfl
        exact hne hj
      exact ⟨(h.holder j hj).1, hkept hji (h.holder j hj).2⟩
  · intro j hj hjreleased hjsession
    simp only [mem_cons, Entry.released.injEq, reduceCtorEq, false_or, not_or] at hj hjreleased
    have hlock := h.lock j hj hjreleased.2 hjsession
    simp only [Tables.releaseLock]
    rw [if_neg (by rw [hlock]; simpa using hjreleased.1)]
    exact hlock
  · intro j hj
    simp only [mem_cons, Entry.released.injEq, reduceCtorEq, false_or, not_or] at hj ⊢
    exact ⟨(h.owner j hj).1, fun hjreleased => (h.owner j hj).2 hjreleased.2⟩
  · intro row hrow hj
    by_cases htoken : row.runToken = i
    · rw [htoken]
      exact ⟨[], s.tables.history, rfl, by simp⟩
    · simp only [mem_cons, Entry.released.injEq, htoken, false_or] at hj
      exact (h.settled row hrow hj).cons (by simp)
  · intro row hrow hstatus
    obtain ⟨hreleased, hlast⟩ := h.succeeded row hrow hstatus
    exact ⟨mem_cons_of_mem _ hreleased, hlast⟩
  · intro j c hj
    have hji : i ≠ j := by
      rintro rfl
      rw [hinflight] at hj
      cases hj
    obtain ⟨hleft, hwork, hsend⟩ := h.inflight j c hj
    exact ⟨hleft, hwork, hsend.cons (passes_of_run hji)⟩

theorem Server.Sound.finalize (h : s.Sound) {token : Nat} {pending : Pending}
    (hc : Sendable i s.tables.history (.finalize token pending)) :
    Server.Sound { s with tables := (s.tables.finalize i token pending).2 } := by
  obtain ⟨rfl, hreleased⟩ := hc
  unfold Tables.finalize
  split
  · rename_i row hrow
    split
    · rename_i htoken
      have htoken' : (row.finalize pending s.tables.clock).runToken = token := by
        rw [← htoken]
        cases hstatus : pending.status <;> simp [SyncRow.finalize, hstatus]
      have hstatus' : (row.finalize pending s.tables.clock).status = .terminal pending.status := by
        cases hstatus : pending.status <;> simp [SyncRow.finalize, hstatus]
      refine ⟨?_, ?_, ?_, ?_, ?_, ?_⟩
      · intro j hj
        simp only [mem_cons, reduceCtorEq, false_or]
        exact h.holder j hj
      · intro j hj
        simp only [mem_cons, reduceCtorEq, false_or] at hj ⊢
        exact h.lock j hj
      · intro j hj
        simp only [mem_cons, reduceCtorEq, false_or] at hj ⊢
        refine ⟨(h.owner j hj).1, ?_⟩
        intro hjreleased hjsession
        obtain ⟨row', hrow', hj'⟩ := (h.owner j hj).2 hjreleased hjsession
        cases hrow.symm.trans hrow'
        exact ⟨_, rfl, htoken'.trans (htoken.symm.trans hj')⟩
      · rintro row' ⟨rfl⟩ hj
        simp only [mem_cons, reduceCtorEq, false_or] at hj
        rw [htoken', ← htoken] at hj ⊢
        exact (h.settled row hrow hj).cons nofun
      · rintro row' ⟨rfl⟩ hstatus
        rw [hstatus'] at hstatus
        cases hpending : pending.status with
        | succeeded =>
          rw [htoken']
          exact ⟨mem_cons_of_mem _ (hreleased hpending), rfl⟩
        | partially =>
          rw [hpending] at hstatus
          cases hstatus
        | failed =>
          rw [hpending] at hstatus
          cases hstatus
      · intro j c hj
        obtain ⟨hleft, hwork, hsend⟩ := h.inflight j c hj
        exact ⟨hleft, hwork, hsend.cons ⟨nofun, nofun, nofun⟩⟩
    · exact h
  · exact h

/-- The server executes a statement that run `i` can send, over a session that has not ended if it
goes over the work connection. -/
theorem Server.Sound.perform (h : s.Sound) {c : Statement}
    (hsession : c.onWork → s.session i ≠ .lost ∧ s.inflight i = none)
    (hc : Sendable i s.tables.history c) :
    Server.Sound { s with tables := (perform world i c s.tables).2 } := by
  cases c with
  | newRunToken | aurora | targetAccounts | collectSdk | runQuery | probe | listResources
  | writeSnapshot | close => exact h
  | tryLock => exact h.tryLock (hsession rfl).1 hc (hsession rfl).2
  | upsertRunning token => exact h.upsertRunning (hsession rfl).1 hc (hsession rfl).2
  | upsertResource | phase1Prune | deleteResource =>
    exact h.write (hsession rfl).1 hc.1 hc.2 (hsession rfl).2 _
  | unlock => exact h.unlock (hsession rfl).2
  | finalize token pending => exact h.finalize hc

theorem Server.Sound.sessions (h : s.Sound) {session : Nat → Session}
    {inflight : Nat → Option Statement} (hlost : ∀ j, session j = .lost ↔ s.session j = .lost)
    (hinflight : ∀ j c, inflight j = some c →
      session j = .left ∧ c.onWork ∧ Sendable j s.tables.history c) :
    Server.Sound ⟨s.tables, session, inflight⟩ := by
  refine ⟨?_, ?_, ?_, h.settled, h.succeeded, hinflight⟩
  · intro j hj
    rw [Ne, hlost]
    exact h.holder j hj
  · intro j hacquired hreleased hj
    rw [Ne, hlost] at hj
    exact h.lock j hacquired hreleased hj
  · intro j hbegan
    rw [Ne, hlost]
    exact h.owner j hbegan

theorem Server.Sound.disturb (h : s.Sound) (hsession : s.session i = .alive) {session : Session}
    (hlost : session ≠ .lost) :
    Server.Sound { s with session := Function.update s.session i session } := by
  refine h.sessions ?_ ?_
  · intro j
    by_cases hji : j = i
    · subst hji
      simp [hsession, hlost]
    · rw [Function.update_of_ne hji]
  · intro j c hj
    have hleft := h.inflight j c hj
    have hji : j ≠ i := by
      rintro rfl
      rw [hsession] at hleft
      cases hleft.1
    rwa [Function.update_of_ne hji]

theorem inflight_lose {j : Nat} (h : (s.lose i).inflight j ≠ none) : s.inflight j ≠ none := by
  by_cases hji : j = i
  · subst hji
    simp [Server.lose] at h
  · simpa only [Server.lose, Function.update_of_ne hji] using h

/-- A run that has done nothing yet opens its connection. -/
theorem Server.Sound.open (h : s.Sound) (hacquired : .acquired i ∉ s.tables.history)
    (hbegan : .began i ∉ s.tables.history) : (s.open i).Sound := by
  refine ⟨?_, ?_, ?_, h.settled, h.succeeded, ?_⟩
  · intro j hj
    refine ⟨?_, (h.holder j hj).2⟩
    by_cases hji : j = i
    · subst hji
      simp [Server.open]
    · simp only [Server.open, Function.update_of_ne hji]
      exact (h.holder j hj).1
  · intro j hj hreleased hsession
    have hji : j ≠ i := by
      rintro rfl
      exact hacquired hj
    simp only [Server.open, Function.update_of_ne hji] at hsession
    exact h.lock j hj hreleased hsession
  · intro j hj
    have hji : j ≠ i := by
      rintro rfl
      exact hbegan hj
    simp only [Server.open, Function.update_of_ne hji]
    exact h.owner j hj
  · intro j c hj
    by_cases hji : j = i
    · subst hji
      simp [Server.open] at hj
    · simp only [Server.open, Function.update_of_ne hji] at hj ⊢
      exact h.inflight j c hj

end Server

/-! ## What a run knows -/

/-- What holds of the server while run `i` is in this stage. A run that has left a statement behind
has failed. -/
def Knows (i : Nat) (s : Server) (v : Stage) : Prop :=
  (∀ token, v.token = some token → token = i) ∧ (s.inflight i ≠ none → v.phase = .failed) ∧
    match v.phase with
    | .fresh | .connected =>
      .acquired i ∉ s.tables.history ∧ .began i ∉ s.tables.history ∧
        .released i ∉ s.tables.history
    | .locked => .acquired i ∈ s.tables.history ∧ .released i ∉ s.tables.history
    | .marked => .began i ∈ s.tables.history ∧ .released i ∉ s.tables.history
    | .released => .released i ∈ s.tables.history
    | .failed => True

section Knows

variable {world : World} {i : Nat} {s s' : Server} {v : Stage}

theorem Knows.fail (h : Knows i s v) (s' : Server) : Knows i s' v.fail :=
  ⟨h.1, fun _ => rfl, trivial⟩

/-- What a run knows survives what says nothing about it. -/
theorem Knows.of_history (h : Knows i s v)
    (hinflight : s'.inflight i ≠ none → v.phase = .failed)
    (hhistory : s'.tables.history = s.tables.history ∨
      ∃ entry, entry.Passes i ∧ s'.tables.history = entry :: s.tables.history) :
    Knows i s' v := by
  have hmem : ∀ entry, entry = .acquired i ∨ entry = .began i ∨ entry = .released i →
      (entry ∈ s'.tables.history ↔ entry ∈ s.tables.history) := by
    intro entry hentry
    rcases hhistory with hsame | ⟨other, ⟨hacquired, hbegan, hreleased⟩, hcons⟩
    · rw [hsame]
    · rw [hcons, mem_cons, or_iff_right]
      rintro rfl
      rcases hentry with h | h | h
      · exact hacquired h
      · exact hbegan h
      · exact hreleased h
  obtain ⟨htoken, _, hphase⟩ := h
  refine ⟨htoken, hinflight, ?_⟩
  have hacquired := hmem (.acquired i) (.inl rfl)
  have hbegan := hmem (.began i) (.inr (.inl rfl))
  have hreleased := hmem (.released i) (.inr (.inr rfl))
  cases hv : v.phase <;> simp only [hv] at hphase ⊢ <;>
    simpa only [hacquired, hbegan, hreleased] using hphase

theorem Knows.sendable (h : Knows i s v) {c : Statement} (hallowed : (protocol world).allowed v c) :
    Sendable i s.tables.history c := by
  obtain ⟨htoken, _, hphase⟩ := h
  cases c with
  | newRunToken | aurora | targetAccounts | collectSdk | runQuery | probe | listResources
  | writeSnapshot | close | unlock => trivial
  | tryLock =>
    rw [show v.phase = .connected from hallowed] at hphase
    exact hphase
  | upsertRunning token =>
    rw [hallowed.1] at hphase
    exact ⟨htoken token hallowed.2, hphase⟩
  | upsertResource | phase1Prune | deleteResource =>
    rw [show v.phase = .marked from hallowed] at hphase
    exact hphase
  | finalize token pending =>
    refine ⟨htoken token hallowed.1, ?_⟩
    intro hstatus
    rw [(hallowed.2 hstatus).1] at hphase
    exact hphase

theorem history_perform (world : World) (i : Nat) (c : Statement) (t : Tables) :
    (perform world i c t).2.history = t.history ∨
      ∃ entry, entry.run = i ∧ (perform world i c t).2.history = entry :: t.history := by
  cases c with
  | newRunToken | aurora | targetAccounts | collectSdk | runQuery | probe | listResources
  | writeSnapshot | close => exact .inl rfl
  | upsertRunning | upsertResource | phase1Prune | deleteResource | unlock =>
    exact .inr ⟨_, rfl, rfl⟩
  | tryLock =>
    simp only [perform, Tables.tryLock]
    split
    · exact .inr ⟨_, rfl, rfl⟩
    · exact .inl rfl
  | finalize token pending =>
    simp only [perform, Tables.finalize]
    split
    · split
      · exact .inr ⟨_, rfl, rfl⟩
      · exact .inl rfl
    · exact .inl rfl

/-- After a statement that the server has executed and answered, the run knows what its stage
says. -/
theorem Knows.perform (h : Knows i s v) {c : Statement} (hallowed : (protocol world).allowed v c)
    (hs' : s'.tables = (Inventory.perform world i c s.tables).2)
    (hinflight : s'.inflight i ≠ none → v.phase = .failed) :
    Knows i s' ((protocol world).after v c (Inventory.perform world i c s.tables).1) := by
  have hsend := h.sendable hallowed
  obtain ⟨htoken, hleft, hphase⟩ := h
  have hnone : ∀ w : Stage, v.phase ≠ .failed → s'.inflight i ≠ none → w.phase = .failed :=
    fun w hv hne => absurd (hinflight hne) hv
  have hsame : s'.tables.history = s.tables.history ∨
      (∃ entry, entry.Passes i ∧ s'.tables.history = entry :: s.tables.history) → Knows i s' v :=
    Knows.of_history ⟨htoken, hleft, hphase⟩ hinflight
  cases c with
  | newRunToken =>
    have hv := hsame (.inl (congrArg Tables.history hs'))
    exact ⟨fun token hv => (Option.some.inj hv).symm, hv.2⟩
  | aurora =>
    have hv := hsame (.inl (congrArg Tables.history hs'))
    replace hallowed : v.phase = .fresh := hallowed
    refine ⟨htoken, hnone _ (by simp [hallowed]), ?_⟩
    have hfresh := hv.2.2
    rw [hallowed] at hfresh
    exact hfresh
  | targetAccounts | probe | listResources | writeSnapshot | close =>
    exact hsame (.inl (congrArg Tables.history hs'))
  | collectSdk =>
    have hv := hsame (.inl (congrArg Tables.history hs'))
    simp only [Inventory.perform]
    cases world.collectSdk i with
    | error e => exact hv.fail s'
    | ok reply => exact hv
  | runQuery =>
    have hv := hsame (.inl (congrArg Tables.history hs'))
    simp only [Inventory.perform]
    cases world.runQuery i with
    | error e => exact hv.fail s'
    | ok reply => exact hv
  | tryLock =>
    obtain ⟨hacquired, hbegan, hreleased⟩ := hsend
    replace hallowed : v.phase = .connected := hallowed
    simp only [Inventory.perform, Tables.tryLock] at hs' ⊢
    split at hs'
    · rename_i hfree
      rw [if_pos hfree]
      refine ⟨htoken, hnone _ (by simp [hallowed]), ?_⟩
      show _ ∈ s'.tables.history ∧ _ ∉ s'.tables.history
      rw [hs']
      exact ⟨mem_cons_self, by simpa using hreleased⟩
    · rename_i hbusy
      rw [if_neg hbusy]
      exact ⟨htoken, fun _ => rfl, trivial⟩
  | upsertRunning token =>
    refine ⟨htoken, hnone _ (by simp [hallowed.1]), ?_⟩
    show _ ∈ s'.tables.history ∧ _ ∉ s'.tables.history
    rw [hs']
    exact ⟨mem_cons_self, by simpa [Inventory.perform] using hsend.2.2⟩
  | upsertResource | phase1Prune | deleteResource =>
    exact hsame (.inr ⟨.wrote i, ⟨nofun, nofun, nofun⟩, congrArg Tables.history hs'⟩)
  | unlock =>
    show Knows i s' { v with phase := if v.phase = .marked then .released else .failed }
    split
    · rename_i hmarked
      refine ⟨htoken, hnone _ (by simp [hmarked]), ?_⟩
      show _ ∈ s'.tables.history
      rw [hs']
      exact mem_cons_self
    · exact ⟨htoken, fun _ => rfl, trivial⟩
  | finalize token pending =>
    refine hsame ?_
    rw [hs']
    simp only [Inventory.perform, Tables.finalize]
    split
    · split
      · exact .inr ⟨.ended i pending.status, ⟨nofun, nofun, nofun⟩, rfl⟩
      · exact .inl rfl
    · exact .inl rfl

/-- A step of run `i` adds at most one entry of its own, and leaves the statements that other runs
have left behind. -/
structure Touches (i : Nat) (s s' : Server) : Prop where
  history : s'.tables.history = s.tables.history ∨
    ∃ entry, entry.run = i ∧ s'.tables.history = entry :: s.tables.history
  inflight : ∀ j, j ≠ i → s'.inflight j = s.inflight j

theorem Touches.knows (h : Touches i s s') {j : Nat} (hj : j ≠ i) (hv : Knows j s v) :
    Knows j s' v := by
  refine hv.of_history (by rw [h.inflight j hj]; exact hv.2.1) (h.history.imp id ?_)
  rintro ⟨entry, hrun, hentry⟩
  exact ⟨entry, passes_of_run (by rw [hrun]; exact Ne.symm hj), hentry⟩

/-- A statement that a run executes keeps the server sound, and the run knows what its stage says
then. -/
theorem exec_sound (hs : s.Sound) (hv : Knows i s v) {c : Statement} {r : Answer c}
    (hallowed : (protocol world).allowed v c) (hexec : exec world i c s = some (r, s')) :
    s'.Sound ∧ Knows i s' ((protocol world).after v c r) ∧ Touches i s s' := by
  have hsend := hv.sendable hallowed
  have hperform : Touches i s { s with tables := (perform world i c s.tables).2 } :=
    ⟨history_perform world i c s.tables, fun _ _ => rfl⟩
  unfold exec at hexec
  split at hexec
  · rename_i hwork
    unfold execWork at hexec
    split at hexec
    · rename_i hsession
      have hinflight : s.inflight i = none := by
        cases hleft : s.inflight i with
        | none => rfl
        | some c' =>
          have hgone := (hs.inflight i c' hleft).1
          rw [hsession] at hgone
          cases hgone
      cases hexec
      exact ⟨hs.perform (fun _ => ⟨by simp [hsession], hinflight⟩) hsend,
        hv.perform hallowed rfl fun hne => absurd hinflight hne, hperform⟩
    · rename_i hsession
      have hinflight : s.inflight i = none := by
        cases hleft : s.inflight i with
        | none => rfl
        | some c' =>
          have hgone := (hs.inflight i c' hleft).1
          rw [hsession] at hgone
          cases hgone
      cases hexec
      refine ⟨(hs.perform (fun _ => ⟨by simp [hsession], hinflight⟩) hsend).lose i, hv.fail _,
        hperform.history, ?_⟩
      intro j hj
      simp [Server.lose, Function.update_of_ne hj]
    · rename_i hsession
      cases hexec
      refine ⟨hs.sessions ?_ ?_, hv.fail _, .inl rfl, fun j hj => Function.update_of_ne hj ..⟩
      · intro j
        by_cases hj : j = i
        · subst hj
          simp [hsession]
        · rw [Function.update_of_ne hj]
      · intro j c' hj
        by_cases hji : j = i
        · subst hji
          rw [Function.update_self] at hj ⊢
          cases hj
          exact ⟨rfl, hwork, hsend⟩
        · rw [Function.update_of_ne hji] at hj ⊢
          exact hs.inflight j c' hj
    · cases hexec
    · cases hexec
  · rename_i hwork
    have hrest : Server.Sound { s with tables := (perform world i c s.tables).2 } :=
      hs.perform (fun h => absurd h hwork) hsend
    split at hexec
    · cases hexec
      have hfresh := hv.2.2
      rw [show v.phase = .fresh from hallowed] at hfresh
      refine ⟨hs.open hfresh.1 hfresh.2.1, ?_, .inl rfl, fun j hj => Function.update_of_ne hj ..⟩
      exact hv.perform (c := .aurora) hallowed rfl fun hne => absurd (Function.update_self ..) hne
    · cases hexec
      split
      · exact ⟨hs, hv, .inl rfl, fun _ _ => rfl⟩
      · refine ⟨hs.lose i, hv.of_history ?_ (.inl rfl), .inl rfl,
          fun j hj => Function.update_of_ne hj ..⟩
        intro hne
        simp [Server.lose] at hne
    · rename_i c' _ _
      cases hexec
      exact ⟨hrest, hv.perform hallowed rfl hv.2.1, hperform⟩

end Knows

/-! ## The runs -/

/-- The state of the runs of the type. -/
abbrev Syncs := System Statement Answer Stage Server Result

/-- The server is sound, its history is about runs that have started, and every run knows what its
stage says. -/
structure Syncs.Sound (s : Syncs) : Prop where
  server : s.shared.Sound
  history : ∀ entry ∈ s.shared.tables.history, entry.run < s.threads.length
  inflight : ∀ i, s.shared.inflight i ≠ none → i < s.threads.length
  knows : ∀ (i : Nat) v p, s.threads[i]? = some ⟨v, some p⟩ → Knows i s.shared v

section Syncs

variable {world : World} {s : Syncs}

theorem Syncs.Sound.set (hs : s.Sound) {i : Nat} {server : Server}
    {thread thread' : Thread Statement Answer Stage Result} (hi : s.threads[i]? = some thread)
    (hserver : server.Sound) (htouches : Touches i s.shared server)
    (hthread : ∀ v p, thread' = ⟨v, some p⟩ → Knows i server v) :
    Syncs.Sound ⟨server, s.threads.set i thread'⟩ := by
  have hlt : i < s.threads.length := (List.getElem?_eq_some_iff.mp hi).1
  refine ⟨hserver, ?_, ?_, ?_⟩
  · intro entry hentry
    rw [length_set]
    rcases htouches.history with hsame | ⟨other, hrun, hcons⟩
    · rw [hsame] at hentry
      exact hs.history entry hentry
    · rw [hcons] at hentry
      rcases mem_cons.mp hentry with rfl | hentry
      · rw [hrun]
        exact hlt
      · exact hs.history entry hentry
  · intro j hj
    rw [length_set]
    by_cases hji : j = i
    · rw [hji]
      exact hlt
    · rw [htouches.inflight j hji] at hj
      exact hs.inflight j hj
  · intro j v p hj
    rw [List.getElem?_set] at hj
    split at hj
    · rename_i hij
      subst hij
      exact hthread v p (Option.some.inj hj)
    · rename_i hij
      exact htouches.knows (Ne.symm hij) (hs.knows j v p hj)

theorem Syncs.Sound.outside (hs : s.Sound) {server : Server} (hserver : server.Sound)
    (hhistory : server.tables.history = s.shared.tables.history)
    (hinflight : ∀ i, server.inflight i ≠ none → s.shared.inflight i ≠ none) :
    Syncs.Sound { s with shared := server } := by
  refine ⟨hserver, ?_, fun i hi => hs.inflight i (hinflight i hi), ?_⟩
  · rw [hhistory]
    exact hs.history
  · intro i v p hi
    have hv := hs.knows i v p hi
    exact hv.of_history (fun hne => hv.2.1 (hinflight i hne)) (.inl hhistory)

/-- The server gets to a statement that a run has left behind. -/
theorem Syncs.Sound.deliver (hs : s.Sound) {i : Nat} {c : Statement}
    (hc : s.shared.inflight i = some c) :
    Syncs.Sound { s with shared := { s.shared with
      tables := (perform world i c s.shared.tables).2
      inflight := Function.update s.shared.inflight i none } } := by
  obtain ⟨hleft, hwork, hsend⟩ := hs.server.inflight i c hc
  have hlt := hs.inflight i (by simp [hc])
  have hother : ∀ j c', Function.update s.shared.inflight i none j = some c' →
      s.shared.inflight j = some c' := by
    intro j c' hj
    by_cases hji : j = i
    · subst hji
      simp at hj
    · rwa [Function.update_of_ne hji] at hj
  have hcleared : Server.Sound
      ⟨s.shared.tables, s.shared.session, Function.update s.shared.inflight i none⟩ :=
    hs.server.sessions (fun _ => Iff.rfl) fun j c' hj => hs.server.inflight j c' (hother j c' hj)
  have hserver := @Server.Sound.perform world i _ hcleared c
    (fun _ => ⟨by simp [hleft], Function.update_self ..⟩) hsend
  have htouches : Touches i s.shared { s.shared with
      tables := (perform world i c s.shared.tables).2
      inflight := Function.update s.shared.inflight i none } :=
    ⟨history_perform world i c s.shared.tables, fun j hj => Function.update_of_ne hj ..⟩
  cases hi : s.threads[i]? with
  | none =>
    rw [List.getElem?_eq_none_iff] at hi
    omega
  | some thread =>
    have hself : s.threads.set i thread = s.threads := by
      rw [← (List.getElem?_eq_some_iff.mp hi).2]
      exact set_getElem_self _
    rw [← hself]
    refine hs.set hi hserver htouches ?_
    -- A run that has left a statement behind has failed and knows nothing about the lock.
    intro v p hthread
    subst hthread
    have hv := hs.knows i v p hi
    have hfailed := hv.2.1 (by simp [hc])
    refine ⟨hv.1, fun _ => hfailed, ?_⟩
    rw [hfailed]
    trivial

theorem Syncs.Sound.step (hyields : s.Yields (protocol world) fun _ _ => True) (hs : s.Sound)
    (event : Event Unit Outage) :
    Syncs.Sound (s.step (machine world) (protocol world) event) := by
  have hmoves := s.step_moves (machine world) (protocol world) event
  generalize s.step (machine world) (protocol world) event = s' at hmoves ⊢
  cases hmoves with
  | start input =>
    refine ⟨hs.server, ?_, ?_, ?_⟩
    · intro entry hentry
      have hlt := hs.history entry hentry
      rw [length_append, length_singleton]
      omega
    · intro i hi
      have hlt := hs.inflight i hi
      rw [length_append, length_singleton]
      omega
    · intro i v p hi
      rw [List.getElem?_append] at hi
      split at hi
      · exact hs.knows i v p hi
      · rename_i hge
        rw [List.getElem?_singleton] at hi
        split at hi
        · cases hi
          -- No entry and no statement is that of a run that has not started.
          have hnone : ∀ entry ∈ s.shared.tables.history, entry.run ≠ i := by
            intro entry hentry
            have hlt := hs.history entry hentry
            omega
          refine ⟨nofun, ?_, fun h => hnone _ h rfl, fun h => hnone _ h rfl,
            fun h => hnone _ h rfl⟩
          intro hne
          have hlt := hs.inflight i hne
          omega
        · cases hi
  | stays => exact hs
  | act hi hexec =>
    obtain ⟨hserver, hknows, htouches⟩ :=
      exec_sound hs.server (hs.knows _ _ _ hi) (hyields.next hi).1 hexec
    refine hs.set hi hserver htouches ?_
    rintro v p ⟨rfl, rfl⟩
    exact hknows
  | @raise i _ c _ _ hi hcaught =>
    have hv := hs.knows i _ _ hi
    refine hs.set hi hs.server ⟨.inl rfl, fun _ _ => rfl⟩ ?_
    rintro v p ⟨rfl, rfl⟩
    cases hcaught
    cases c with
    | probe => exact hv
    | newRunToken | aurora | targetAccounts | collectSdk | runQuery | listResources
    | writeSnapshot | close | tryLock | upsertRunning | upsertResource | phase1Prune
    | deleteResource | unlock | finalize => exact hv.fail _
  | dies i | crash i =>
    cases hi : s.threads[i]? with
    | none =>
      have hset : s.threads.set i (Thread.dead (protocol world)) = s.threads :=
        set_eq_of_length_le (List.getElem?_eq_none_iff.mp hi)
      simp only [System.crash, hset]
      exact hs
    | some thread => exact hs.set hi hs.server ⟨.inl rfl, fun _ _ => rfl⟩ nofun
  | environment e =>
    cases e with
    | lose i =>
      exact hs.outside (hs.server.lose i) rfl fun j => inflight_lose
    | drop i =>
      simp only [machine, Server.suffer]
      split
      · rename_i hsession
        exact hs.outside (hs.server.disturb hsession nofun) rfl fun _ h => h
      · exact hs
    | detach i =>
      simp only [machine, Server.suffer]
      split
      · rename_i hsession
        exact hs.outside (hs.server.disturb hsession nofun) rfl fun _ h => h
      · exact hs
    | deliver i =>
      simp only [machine, Server.suffer]
      split
      · rename_i c hc
        exact hs.deliver hc
      · exact hs
    | tick n =>
      exact hs.outside ⟨hs.server.holder, hs.server.lock, hs.server.owner, hs.server.settled,
        hs.server.succeeded, hs.server.inflight⟩ rfl fun _ h => h
    | register registry =>
      exact hs.outside ⟨hs.server.holder, hs.server.lock, hs.server.owner, hs.server.settled,
        hs.server.succeeded, hs.server.inflight⟩ rfl fun _ h => h

end Syncs

/-! ## What a step does to the ledger -/

/-- What a step of the runs, from one state to the next, does to the ledger row of the type. -/
structure Honest (world : World) (s s' : Syncs) (event : Event Unit Outage) : Prop where
  succeeded : ∀ row, s'.shared.tables.ledger = some row → row.status = .terminal .succeeded →
    ∃ i, lastStatus s'.shared.tables.history = some (.ended i .succeeded) ∧
      Settled s'.shared.tables.history i
  terminal : ∀ row' outcome, s'.shared.tables.ledger = some row' →
    row'.status = .terminal outcome → s'.shared.tables.ledger ≠ s.shared.tables.ledger →
    ∃ i v p row, event = .act i ∧ s.threads[i]? = some ⟨v, p⟩ ∧
      s.shared.tables.ledger = some row ∧ v.token = some row.runToken
  advanced : s'.shared.tables.ledger.bind SyncRow.lastSuccessAt ≠
      s.shared.tables.ledger.bind SyncRow.lastSuccessAt →
    ∃ i v p collected, event = .act i ∧ s.threads[i]? = some ⟨v, p⟩ ∧ v.phase = .released ∧
      v.Finished world collected

section Steps

variable {world : World} {i : Nat} {s s' : Server}

/-- What a statement does to the ledger row. -/
inductive Writes (i : Nat) (c : Statement) (t t' : Tables) : Prop
  | nothing (h : t'.ledger = t.ledger)
  | running (row : SyncRow) (hrow : t'.ledger = some row) (hstatus : row.status = .running)
      (hlast : row.lastSuccessAt = t.ledger.bind SyncRow.lastSuccessAt)
  | terminal (token : Nat) (pending : Pending) (row : SyncRow) (hc : c = .finalize token pending)
      (hrow : t.ledger = some row) (htoken : row.runToken = token)
      (hrow' : t'.ledger = some (row.finalize pending t.clock))

theorem writes_perform (world : World) (i : Nat) (c : Statement) (t : Tables) :
    Writes i c t (perform world i c t).2 := by
  cases c with
  | newRunToken | aurora | targetAccounts | collectSdk | runQuery | probe | listResources
  | writeSnapshot | close | upsertResource | phase1Prune | deleteResource | unlock =>
    exact .nothing rfl
  | tryLock =>
    refine .nothing ?_
    simp only [perform, Tables.tryLock]
    split <;> rfl
  | upsertRunning token => exact .running _ rfl rfl rfl
  | finalize token pending =>
    simp only [perform, Tables.finalize]
    split
    · rename_i row hrow
      split
      · rename_i htoken
        exact .terminal token pending row rfl hrow htoken rfl
      · exact .nothing rfl
    · exact .nothing rfl

theorem writes_exec {c : Statement} {r : Answer c} (hexec : exec world i c s = some (r, s')) :
    Writes i c s.tables s'.tables := by
  unfold exec at hexec
  split at hexec
  · unfold execWork at hexec
    split at hexec
    · cases hexec
      exact writes_perform world i c s.tables
    · cases hexec
      -- The end of the session takes the lock, not the row.
      cases writes_perform world i c s.tables with
      | nothing h => exact .nothing h
      | running row hrow hstatus hlast => exact .running row hrow hstatus hlast
      | terminal token pending row hc hrow htoken hrow' =>
        exact .terminal token pending row hc hrow htoken hrow'
    · cases hexec
      exact .nothing rfl
    · cases hexec
    · cases hexec
  · split at hexec
    · cases hexec
      exact .nothing rfl
    · cases hexec
      split <;> exact .nothing rfl
    · cases hexec
      exact writes_perform world i _ s.tables

/-- A statement left behind never sets a terminal status. -/
theorem writes_suffer (hs : s.Sound) (outage : Outage) :
    (s.suffer world outage).tables.ledger = s.tables.ledger ∨
      ∃ row, (s.suffer world outage).tables.ledger = some row ∧ row.status = .running ∧
        row.lastSuccessAt = s.tables.ledger.bind SyncRow.lastSuccessAt := by
  cases outage with
  | lose | tick | register => exact .inl rfl
  | drop | detach =>
    simp only [Server.suffer]
    split <;> exact .inl rfl
  | deliver i =>
    simp only [Server.suffer]
    split
    · rename_i c hc
      cases writes_perform world i c s.tables with
      | nothing h => exact .inl h
      | running row hrow hstatus hlast => exact .inr ⟨row, hrow, hstatus, hlast⟩
      | terminal token pending row hc' hrow htoken hrow' =>
        have hwork := (hs.inflight i c hc).2.1
        rw [hc'] at hwork
        cases hwork
    · exact .inl rfl

end Steps

theorem honest_step {world : World} {s : Syncs}
    (hyields : s.Yields (protocol world) fun _ _ => True) (hs : s.Sound)
    (event : Event Unit Outage) :
    Honest world s (s.step (machine world) (protocol world) event) event := by
  have hs' := hs.step hyields event
  have hmoves := s.step_moves (machine world) (protocol world) event
  generalize s.step (machine world) (protocol world) event = s' at hs' hmoves ⊢
  have hsucceeded : ∀ row, s'.shared.tables.ledger = some row → row.status = .terminal .succeeded →
      ∃ i, lastStatus s'.shared.tables.history = some (.ended i .succeeded) ∧
        Settled s'.shared.tables.history i := by
    intro row hrow hstatus
    obtain ⟨hreleased, hlast⟩ := hs'.server.succeeded row hrow hstatus
    exact ⟨row.runToken, hlast, hs'.server.settled row hrow hreleased⟩
  have hquiet : (s'.shared.tables.ledger = s.shared.tables.ledger ∨
        ∃ row, s'.shared.tables.ledger = some row ∧ row.status = .running ∧
          row.lastSuccessAt = s.shared.tables.ledger.bind SyncRow.lastSuccessAt) →
      Honest world s s' event := by
    rintro (hsame | ⟨row, hrow, hstatus, hlast⟩)
    · exact ⟨hsucceeded, fun _ _ _ _ h => absurd hsame h, fun h => absurd (by rw [hsame]) h⟩
    · refine ⟨hsucceeded, ?_, ?_⟩
      · intro row' outcome hrow' hterminal _
        cases hrow.symm.trans hrow'
        rw [hstatus] at hterminal
        cases hterminal
      · intro h
        rw [hrow] at h
        exact absurd hlast h
  cases hmoves with
  | start | raise | dies | crash | stays => exact hquiet (.inl rfl)
  | @act i v c _ _ _ hi hexec =>
    cases writes_exec hexec with
    | nothing h => exact hquiet (.inl h)
    | running row hrow hstatus hlast => exact hquiet (.inr ⟨row, hrow, hstatus, hlast⟩)
    | terminal token pending row hc hrow htoken hrow' =>
      subst hc
      have hallowed := (hyields.next hi).1
      refine ⟨hsucceeded, ?_, ?_⟩
      · intro row' outcome _ _ _
        exact ⟨i, v, _, row, rfl, hi, hrow, by rw [htoken]; exact hallowed.1⟩
      · intro hadvanced
        -- Only the update for `succeeded` touches the last success.
        have hstatus : pending.status = .succeeded := by
          rw [hrow', hrow] at hadvanced
          cases hpending : pending.status with
          | succeeded => rfl
          | partially | failed => simp [SyncRow.finalize, hpending] at hadvanced
        obtain ⟨hreleased, collected, hfinished⟩ := hallowed.2 hstatus
        exact ⟨i, v, _, collected, rfl, hi, hreleased, hfinished⟩
  | environment e => exact hquiet (writes_suffer hs.server e)

/-- The server before the first run: rows that are there, a registry, and no ledger row. -/
def Server.start (resources : Resources) (registry : Registry) : Server :=
  ⟨⟨none, none, resources, registry, 0, []⟩, fun _ => .lost, fun _ => none⟩

theorem Server.sound_start (resources : Resources) (registry : Registry) :
    (Server.start resources registry).Sound :=
  ⟨nofun, nofun, nofun, nofun, nofun, nofun⟩

/-- **The sync ledger.** In every interleaving of the runs of a type, with exceptions, lost
sessions, lost answers, late statements and deaths at any point, every step treats the ledger row
honestly. -/
theorem sync_ledger_honest (world : World) (resources : Resources) (registry : Registry)
    (events : List (Event Unit Outage)) (event : Event Unit Outage) :
    Honest world
      (System.run (machine world) (protocol world) ⟨Server.start resources registry, []⟩ events)
      (System.run (machine world) (protocol world) ⟨Server.start resources registry, []⟩
        (events ++ [event])) event := by
  obtain ⟨hyields, hsound⟩ := System.run_yields (Q := fun _ _ => True)
    (fun _ => follows_sync world)
    (fun s event hyields (hs : Syncs.Sound s) _ => hs.step hyields event)
    (System.meets_true _ _ ⟨Server.start resources registry, []⟩ events) nofun
    ⟨Server.sound_start resources registry, nofun, fun _ h => absurd rfl h, nofun⟩
  rw [System.run_concat]
  exact honest_step hyields hsound event

end AwsOps.Inventory

import AwsOps.Auth.Revocation

/-!
# Cutoffs and connections

What holds in every run: a call reads its rows from the table and gives its connection up once, and
the cutoffs that are stored, cached and read were stored at the start or passed to
`revokeSessionsFor`.
-/

namespace AwsOps.Auth

open List Runs Option TimeoutRace

/-! ## The stored cutoff -/

/-- The rows hold a cutoff that revokes the token. -/
def Covers (rows : Option Int) (iat : Int) : Prop :=
  ∃ cutoff ∈ rows, iat ≤ cutoff

theorem upsert_covers (stored : Cutoffs) (sub : String) (iat : Int) :
    Covers (stored.upsert sub iat sub) iat := by
  unfold Cutoffs.upsert
  rw [if_pos rfl]
  cases stored sub with
  | none => exact ⟨iat, rfl, Int.le_refl iat⟩
  | some cutoff =>
    dsimp only
    split
    · exact ⟨iat, rfl, Int.le_refl iat⟩
    · rename_i h
      exact ⟨cutoff, rfl, Int.not_lt.mp h⟩

variable {stored : Cutoffs} {sub : String} {calls : List TimeoutRace}

variable {job : Statement}

theorem commit_covers {n : Int} (h : Covers (stored sub) n) : Covers (job.commit stored sub) n := by
  cases job with
  | selectCutoff _ => exact h
  | upsertCutoff user iat =>
    unfold Statement.commit Cutoffs.upsert
    dsimp only
    split
    · rename_i hsub
      obtain ⟨cutoff, hcutoff, hle⟩ := h
      rw [hsub] at hcutoff
      rw [mem_def.mp hcutoff]
      dsimp only
      split
      · rename_i hlt
        exact ⟨iat, rfl, by omega⟩
      · exact ⟨cutoff, rfl, hle⟩
    · exact h

theorem commit_known {cutoff : Int} (h : job.commit stored sub = some cutoff) :
    stored sub = some cutoff ∨ job = .upsertCutoff sub cutoff := by
  cases job with
  | selectCutoff _ => exact .inl h
  | upsertCutoff user iat =>
    unfold Statement.commit Cutoffs.upsert at h
    dsimp only at h
    split at h
    · rename_i hsub
      subst hsub
      split at h
      · cases h
        exact .inr rfl
      · split at h <;> cases h
        · exact .inr rfl
        · exact .inl ‹_›
    · exact .inl h

/-! ## The rows of a call -/

/-- The call has read the rows: it is about to commit, or they are its outcome. -/
def TimeoutRace.HasRows (call : TimeoutRace) (rows : Option Int) : Prop :=
  call.stage = .commit rows ∨ call.raced = some (.rows rows)

theorem raced_race {call : TimeoutRace} {o o' : Outcome} (h : (call.race o).raced = some o') :
    call.raced = some o' ∨ o = o' := by
  unfold race at h
  cases hraced : call.raced with
  | none =>
    rw [hraced] at h
    exact .inr (Option.some.inj h)
  | some first =>
    rw [hraced] at h
    exact .inl h

theorem dispose_frame (call : TimeoutRace) (how : Disposal) :
    (call.dispose how).job = call.job ∧ (call.dispose how).stage = call.stage ∧
      (call.dispose how).raced = call.raced := by
  unfold dispose
  split <;> exact ⟨rfl, rfl, rfl⟩

theorem raced_finish {call : TimeoutRace} {o o' : Outcome} (h : (call.finish o).raced = some o') :
    call.raced = some o' ∨ o = o' := by
  rcases raced_race h with h | h
  · exact .inl ((dispose_frame call .returned).2.2.symm.trans h)
  · exact .inr h

theorem job_finish (call : TimeoutRace) (o : Outcome) : (call.finish o).job = call.job :=
  (dispose_frame call .returned).1

/-- A reply keeps the statement, reads the stored cutoff, and reports rows after a commit only. -/
theorem reply_rows {call call' : TimeoutRace} {r : Reply}
    (hreply : call.reply stored r = some call') :
    call'.job = call.job ∧
      (∀ rows, call'.HasRows rows → call.HasRows rows ∨ rows = call.job.rows stored) ∧
      ∀ rows, call'.raced = some (.rows rows) →
        call.raced = some (.rows rows) ∨ call.commits r = true := by
  unfold reply at hreply
  split at hreply
  case h_1 =>
    cases hreply
    split
    · refine ⟨job_finish _ _, ?_, ?_⟩
      · intro rows h
        rcases h with h | h
        · cases h
        · rcases raced_finish h with h | h
          · exact .inl (.inr h)
          · cases h
      · intro rows h
        rcases raced_finish h with h | h
        · exact .inl h
        · cases h
    · refine ⟨rfl, ?_, fun rows h => .inl h⟩
      intro rows h
      rcases h with h | h
      · cases h
      · exact .inl (.inr h)
  case h_2 =>
    cases hreply
    refine ⟨rfl, ?_, ?_⟩
    · intro rows h
      rcases h with h | h
      · cases h
      · rcases raced_race h with h | h
        · exact .inl (.inr h)
        · cases h
    · intro rows h
      rcases raced_race h with h | h
      · exact .inl h
      · cases h
  case h_5 =>
    cases hreply
    refine ⟨rfl, ?_, fun rows h => .inl h⟩
    intro rows h
    rcases h with h | h
    · cases h
      exact .inr rfl
    · exact .inl (.inr h)
  case h_6 read hstage =>
    cases hreply
    refine ⟨job_finish _ _, ?_, ?_⟩
    · intro rows h
      rcases h with h | h
      · cases h
      · rcases raced_finish h with h | h
        · exact .inl (.inr h)
        · cases h
          exact .inl (.inl hstage)
    · intro rows h
      right
      simp [commits, hstage]
  case h_12 | h_13 =>
    cases hreply
    refine ⟨job_finish _ _, ?_, ?_⟩
    · intro rows h
      rcases h with h | h
      · cases h
      · rcases raced_finish h with h | h
        · exact .inl (.inr h)
        · cases h
    · intro rows h
      rcases raced_finish h with h | h
      · exact .inl h
      · cases h
  case h_14 => cases hreply
  all_goals
    cases hreply
    refine ⟨rfl, ?_, fun rows h => .inl h⟩
    intro rows h
    rcases h with h | h
    · cases h
    · exact .inl (.inr h)

theorem timeout_rows {call call' : TimeoutRace} (htimeout : call.timeout = some call') :
    call'.job = call.job ∧ call'.stage = call.stage ∧
      ∀ rows, call'.raced = some (.rows rows) → call.raced = some (.rows rows) := by
  unfold timeout at htimeout
  split at htimeout
  · cases htimeout
    have hframe := dispose_frame { call with cancelled := true, timer := .fired } .destroyed
    refine ⟨?_, ?_, ?_⟩
    · show job (ite _ _ _) = _
      split
      · exact hframe.1
      · rfl
    · show stage (ite _ _ _) = _
      split
      · exact hframe.2.1
      · rfl
    · intro rows h
      rcases raced_race h with h | h
      · split at h
        · exact hframe.2.2.symm.trans h
        · exact h
      · cases h
  · cases htimeout

/-! ## The calls -/

/-- The calls of `s` go on: each keeps its statement and reads at most the stored cutoff. -/
def Extends (stored : Cutoffs) (calls calls' : List TimeoutRace) : Prop :=
  ∀ (i : Nat) (call : TimeoutRace), calls[i]? = some call →
    ∃ call' : TimeoutRace, calls'[i]? = some call' ∧ call'.job = call.job ∧
      ∀ rows, call'.HasRows rows → call.HasRows rows ∨ rows = call.job.rows stored

theorem Extends.refl (stored : Cutoffs) (calls : List TimeoutRace) : Extends stored calls calls :=
  fun _ call hcall => ⟨call, hcall, rfl, fun _ h => .inl h⟩

theorem Extends.append (stored : Cutoffs) (calls : List TimeoutRace) (call : TimeoutRace) :
    Extends stored calls (calls ++ [call]) := by
  intro i old hold
  have hlt := (List.getElem?_eq_some_iff.mp hold).1
  exact ⟨old, (List.getElem?_append_left hlt).trans hold, rfl, fun _ h => .inl h⟩

theorem Extends.set {i : Nat} {call call' : TimeoutRace} (hcall : calls[i]? = some call)
    (hjob : call'.job = call.job)
    (hrows : ∀ rows, call'.HasRows rows → call.HasRows rows ∨ rows = call.job.rows stored) :
    Extends stored calls (calls.set i call') := by
  intro k old hold
  by_cases hk : i = k
  · subst hk
    rw [hcall] at hold
    cases hold
    have hlt := (List.getElem?_eq_some_iff.mp hcall).1
    exact ⟨call', List.getElem?_set_self hlt, hjob, hrows⟩
  · exact ⟨old, (List.getElem?_set_ne hk).trans hold, rfl, fun _ h => .inl h⟩

/-- A call with its statement and the rows it may have read. -/
def Reads (calls : List TimeoutRace) (n : Nat) (sub : String) (P : Option Int → Prop) : Prop :=
  ∃ call : TimeoutRace, calls[n]? = some call ∧ call.job = .selectCutoff sub ∧
    ∀ rows, call.HasRows rows → P rows

theorem Reads.extends {calls' : List TimeoutRace} {n : Nat} {P : Option Int → Prop}
    (h : Reads calls n sub P) (hext : Extends stored calls calls')
    (hstored : P (stored sub)) : Reads calls' n sub P := by
  obtain ⟨call, hcall, hjob, hrows⟩ := h
  obtain ⟨call', hcall', hjob', hrows'⟩ := hext n call hcall
  refine ⟨call', hcall', hjob'.trans hjob, ?_⟩
  intro rows h
  rcases hrows' rows h with h | h
  · exact hrows rows h
  · rw [h, hjob]
    exact hstored

theorem Reads.mono {n : Nat} {P Q : Option Int → Prop} (h : Reads calls n sub P)
    (hPQ : ∀ rows, P rows → Q rows) : Reads calls n sub Q := by
  obtain ⟨call, hcall, hjob, hrows⟩ := h
  exact ⟨call, hcall, hjob, fun rows hr => hPQ rows (hrows rows hr)⟩

theorem reads_new (calls : List TimeoutRace) (sub : String) (P : Option Int → Prop) :
    Reads (calls ++ [.new (.selectCutoff sub)]) calls.length sub P := by
  refine ⟨.new (.selectCutoff sub), by simp, rfl, ?_⟩
  intro rows h
  rcases h with h | h <;> cases h

/-! ## What holds in every run -/

/-- The cutoff was stored at the start or was passed to `revokeSessionsFor`. -/
def Known (initial : Cutoffs) (made : List (String × Int)) (sub : String) (cutoff : Int) : Prop :=
  initial sub = some cutoff ∨ (sub, cutoff) ∈ made

/-- What a check relies on. -/
structure CheckKnown (initial : Cutoffs) (s : State) (check : Check) : Prop where
  cutoff : ∀ iat n, check.stage = .cutoff iat n → check.token.iat = some iat ∧
    Reads s.calls n check.token.sub fun rows =>
      ∀ cutoff ∈ rows, Known initial s.made check.token.sub cutoff
  revoked : check.stage = .ended .revoked → ∀ iat, check.token.iat = some iat → iat ≠ 0 →
    ∃ cutoff, iat ≤ cutoff ∧ Known initial s.made check.token.sub cutoff

/-- The connections are given up once, and the cutoffs are known. -/
structure State.Sound (initial : Cutoffs) (s : State) : Prop where
  calls : ∀ call ∈ s.calls, call.Sound
  writes : ∀ call ∈ s.calls, ∀ sub iat, call.job = .upsertCutoff sub iat → (sub, iat) ∈ s.made
  stored : ∀ sub cutoff, s.stored sub = some cutoff → Known initial s.made sub cutoff
  cached : ∀ sub entry, s.revocationCutoffCache sub = some entry →
    Reads s.calls entry.call sub fun rows => ∀ cutoff ∈ rows, Known initial s.made sub cutoff
  checks : ∀ check ∈ s.checks, CheckKnown initial s check

variable {initial : Cutoffs} {s : State}

theorem Known.mono {made made' : List (String × Int)} {cutoff : Int}
    (h : Known initial made sub cutoff) (hmade : made ⊆ made') :
    Known initial made' sub cutoff :=
  h.imp_right fun hm => hmade hm

theorem CheckKnown.evolve {t : State} {check : Check} (h : CheckKnown initial s check)
    (hs : s.Sound initial) (hext : Extends s.stored s.calls t.calls) (hmade : s.made ⊆ t.made) :
    CheckKnown initial t check where
  cutoff iat n hstage := by
    obtain ⟨hiat, hreads⟩ := h.cutoff iat n hstage
    exact ⟨hiat, (hreads.extends hext (hs.stored _)).mono
      fun rows hrows cutoff hc => (hrows cutoff hc).mono hmade⟩
  revoked hstage iat hiat hne := by
    obtain ⟨cutoff, hle, hknown⟩ := h.revoked hstage iat hiat hne
    exact ⟨cutoff, hle, hknown.mono hmade⟩

theorem State.Sound.evolve {t : State} (h : s.Sound initial)
    (hext : Extends s.stored s.calls t.calls) (hmade : s.made ⊆ t.made)
    (hcalls : ∀ call ∈ t.calls, call.Sound)
    (hwrites : ∀ call ∈ t.calls, ∀ sub iat, call.job = .upsertCutoff sub iat → (sub, iat) ∈ t.made)
    (hstored : ∀ sub cutoff, t.stored sub = some cutoff → Known initial t.made sub cutoff)
    (hcache : ∀ sub entry, t.revocationCutoffCache sub = some entry →
      s.revocationCutoffCache sub = some entry)
    (hchecks : t.checks = s.checks) : t.Sound initial where
  calls := hcalls
  writes := hwrites
  stored := hstored
  cached sub entry hentry :=
    ((h.cached sub entry (hcache sub entry hentry)).extends hext (h.stored sub)).mono
      fun rows hrows cutoff hc => (hrows cutoff hc).mono hmade
  checks check hcheck := by
    rw [hchecks] at hcheck
    exact (h.checks check hcheck).evolve h hext hmade

theorem State.Sound.call (h : s.Sound initial) {i : Nat} {call call' : TimeoutRace}
    (hcall : s.calls[i]? = some call) (hsound : call'.Sound) (hjob : call'.job = call.job)
    (hrows : ∀ rows, call'.HasRows rows → call.HasRows rows ∨ rows = call.job.rows s.stored)
    (hstored : ∀ sub cutoff, stored sub = some cutoff → Known initial s.made sub cutoff) :
    State.Sound initial { s with stored, calls := s.calls.set i call' } := by
  refine h.evolve (Extends.set hcall hjob hrows) (List.Subset.refl _) ?_ ?_ hstored
    (fun _ _ he => he) rfl
  · intro c hc
    rcases mem_or_eq_of_mem_set hc with hc | rfl
    · exact h.calls c hc
    · exact hsound
  · intro c hc sub iat hjobc
    rcases mem_or_eq_of_mem_set hc with hc | rfl
    · exact h.writes c hc sub iat hjobc
    · exact h.writes call (mem_of_getElem? hcall) sub iat (hjob.symm.trans hjobc)

theorem State.Sound.check (h : s.Sound initial) {i : Nat} {check : Check}
    (hcheck : CheckKnown initial s check) :
    State.Sound initial { s with checks := s.checks.set i check } where
  calls := h.calls
  writes := h.writes
  stored := h.stored
  cached := h.cached
  checks c hc := by
    rcases mem_or_eq_of_mem_set hc with hc | rfl
    · exact ⟨(h.checks c hc).cutoff, (h.checks c hc).revoked⟩
    · exact ⟨hcheck.cutoff, hcheck.revoked⟩

theorem frame_revocationCutoff (s : State) (sub : String) (now : Int) :
    (s.revocationCutoff sub now).1.stored = s.stored ∧
      (s.revocationCutoff sub now).1.checks = s.checks ∧
      (s.revocationCutoff sub now).1.made = s.made ∧
      (s.revocationCutoff sub now).1.returned = s.returned := by
  unfold State.revocationCutoff
  split <;> exact ⟨rfl, rfl, rfl, rfl⟩

theorem State.Sound.revocationCutoff (h : s.Sound initial) (sub : String) (now : Int) :
    (s.revocationCutoff sub now).1.Sound initial ∧
      Reads (s.revocationCutoff sub now).1.calls (s.revocationCutoff sub now).2 sub
        fun rows => ∀ cutoff ∈ rows, Known initial s.made sub cutoff := by
  unfold State.revocationCutoff
  split
  · rename_i hit hfilter
    exact ⟨h, h.cached sub hit (filter_eq_some_iff.mp hfilter).1⟩
  · refine ⟨?_, reads_new s.calls sub _⟩
    have hext := Extends.append s.stored s.calls (.new (.selectCutoff sub))
    refine ⟨?_, ?_, h.stored, ?_, ?_⟩
    · intro c hc
      rcases mem_append.mp hc with hc | hc
      · exact h.calls c hc
      · rw [mem_singleton.mp hc]
        exact sound_new _
    · intro c hc user iat hjob
      rcases mem_append.mp hc with hc | hc
      · exact h.writes c hc user iat hjob
      · rw [mem_singleton.mp hc] at hjob
        cases hjob
    · intro user entry hentry
      dsimp only [setEntry] at hentry
      split at hentry
      · rename_i huser
        cases hentry
        rw [huser]
        exact reads_new s.calls sub _
      · exact (h.cached user entry hentry).extends hext (h.stored user)
    · intro c hc
      exact (h.checks c hc).evolve h hext (List.Subset.refl _)

theorem State.Sound.isRevoked (h : s.Sound initial) (check : Check) (now : Int) :
    (s.isRevoked check.token now).1.Sound initial ∧
      CheckKnown initial (s.isRevoked check.token now).1
        { check with stage := (s.isRevoked check.token now).2 } := by
  unfold State.isRevoked
  split
  · rename_i hiat
    refine ⟨h, nofun, ?_⟩
    intro _ iat hsome
    rw [hiat] at hsome
    cases hsome
  · rename_i iat hiat
    split
    · rename_i hzero
      refine ⟨h, nofun, ?_⟩
      intro _ iat' hsome hne
      rw [hiat] at hsome
      cases hsome
      exact absurd hzero hne
    · obtain ⟨hsound, hreads⟩ := h.revocationCutoff check.token.sub now
      refine ⟨hsound, ?_, nofun⟩
      rintro iat' n ⟨⟩
      refine ⟨hiat, ?_⟩
      rw [(frame_revocationCutoff s check.token.sub now).2.2.1]
      exact hreads

theorem verdict_revoked {iat : Int} {o : Outcome} (h : o.verdict iat = .revoked) :
    ∃ cutoff, o = .rows (some cutoff) ∧ iat ≤ cutoff := by
  unfold Outcome.verdict at h
  split at h
  · cases h
  · split at h
    · exact ⟨_, rfl, ‹_›⟩
    · cases h
  · cases h

theorem State.Sound.step {t : State} {a : Action} (h : s.Sound initial)
    (hstep : s.step a = some t) : t.Sound initial := by
  cases a with
  | verifyUser token =>
    cases hstep
    refine ⟨h.calls, h.writes, h.stored, h.cached, ?_⟩
    intro c hc
    rcases mem_append.mp hc with hc | hc
    · exact ⟨(h.checks c hc).cutoff, (h.checks c hc).revoked⟩
    · rw [mem_singleton.mp hc]
      exact ⟨nofun, nofun⟩
  | jwtVerify i valid =>
    obtain ⟨check, hcheck, hif⟩ := bind_eq_some_iff.mp hstep
    split at hif <;> cases hif
    refine h.check ?_
    cases valid <;> exact ⟨nofun, nofun⟩
  | isRevoked i now =>
    obtain ⟨check, hcheck, hif⟩ := bind_eq_some_iff.mp hstep
    split at hif <;> cases hif
    obtain ⟨hsound, hknown⟩ := h.isRevoked check now
    exact hsound.check hknown
  | answer i =>
    obtain ⟨check, hcheck, hmatch⟩ := bind_eq_some_iff.mp hstep
    split at hmatch
    · rename_i iat n hstage
      obtain ⟨call, hcall, hrest⟩ := bind_eq_some_iff.mp hmatch
      obtain ⟨o, ho, hif⟩ := bind_eq_some_iff.mp hrest
      split at hif <;> cases hif
      refine h.check ⟨nofun, ?_⟩
      intro hrevoked iat' hiat' _
      have hverdict : o.verdict iat = .revoked := by
        injection hrevoked
      obtain ⟨cutoff, rfl, hle⟩ := verdict_revoked hverdict
      obtain ⟨hiat, call', hcall', -, hrows⟩ :=
        (h.checks check (mem_of_getElem? hcheck)).cutoff iat n hstage
      rw [hcall] at hcall'
      cases hcall'
      rw [hiat] at hiat'
      cases hiat'
      exact ⟨cutoff, hle, hrows (some cutoff) (.inr ho) cutoff rfl⟩
    · cases hmatch
  | revokeSessionsFor sub iat now =>
    have hmade : s.made ⊆ (sub, iat) :: s.made := subset_cons_self _ _
    have hbefore : State.Sound initial { s with made := (sub, iat) :: s.made } :=
      h.evolve (Extends.refl _ _) hmade h.calls
        (fun c hc user n hjob => hmade (h.writes c hc user n hjob))
        (fun user c hc => (h.stored user c hc).mono hmade) (fun _ _ he => he) rfl
    simp only [State.step] at hstep
    split at hstep
    · cases hstep
      exact ⟨hbefore.calls, hbefore.writes, hbefore.stored, hbefore.cached,
        fun c hc => ⟨(hbefore.checks c hc).cutoff, (hbefore.checks c hc).revoked⟩⟩
    · cases hstep
      refine hbefore.evolve (Extends.append _ _ _) (List.Subset.refl _) ?_ ?_ hbefore.stored
        (fun _ _ he => he) rfl
      · intro c hc
        rcases mem_append.mp hc with hc | hc
        · exact h.calls c hc
        · rw [mem_singleton.mp hc]
          exact sound_new _
      · intro c hc user n hjob
        rcases mem_append.mp hc with hc | hc
        · exact hbefore.writes c hc user n hjob
        · rw [mem_singleton.mp hc] at hjob
          cases hjob
          exact mem_cons_self
  | reply i r =>
    obtain ⟨call, hcall, hrest⟩ := bind_eq_some_iff.mp hstep
    obtain ⟨next, hnext, heq⟩ := bind_eq_some_iff.mp hrest
    cases heq
    obtain ⟨hjob, hrows, -⟩ := reply_rows hnext
    have hmem := mem_of_getElem? hcall
    refine h.call hcall ((h.calls call hmem).reply hnext) hjob hrows ?_
    intro sub cutoff hcutoff
    split at hcutoff
    · rcases commit_known hcutoff with hcutoff | hupsert
      · exact h.stored sub cutoff hcutoff
      · exact .inr (h.writes call hmem sub cutoff hupsert)
    · exact h.stored sub cutoff hcutoff
  | timeout i =>
    obtain ⟨call, hcall, hrest⟩ := bind_eq_some_iff.mp hstep
    obtain ⟨next, hnext, heq⟩ := bind_eq_some_iff.mp hrest
    cases heq
    obtain ⟨hjob, hstage, hraced⟩ := timeout_rows hnext
    exact h.call hcall ((h.calls call (mem_of_getElem? hcall)).timeout hnext) hjob
      (fun rows hr => .inl (hr.imp (hstage ▸ ·) (hraced rows))) h.stored
  | settle i =>
    obtain ⟨call, hcall, hrest⟩ := bind_eq_some_iff.mp hstep
    obtain ⟨o, ho, hif⟩ := bind_eq_some_iff.mp hrest
    split at hif <;> cases hif
    have hsettled := (h.calls call (mem_of_getElem? hcall)).settle
      (isSome_iff_exists.mpr ⟨o, ho⟩)
    have hbefore : State.Sound initial { s with calls := s.calls.set i call.settle } :=
      h.call hcall hsettled rfl (fun rows hr => .inl hr) h.stored
    unfold State.settled
    split
    · refine hbefore.evolve (Extends.refl _ _) (List.Subset.refl _) hbefore.calls
        hbefore.writes hbefore.stored ?_ rfl
      intro user entry hentry
      dsimp only [setEntry] at hentry
      split at hentry
      · cases hentry
      · exact hentry
    · exact hbefore
  | dropCutoff i =>
    obtain ⟨call, hcall, hmatch⟩ := bind_eq_some_iff.mp hstep
    split at hmatch
    · split at hmatch <;> cases hmatch
      refine h.evolve (Extends.refl _ _) (List.Subset.refl _) h.calls h.writes h.stored ?_ rfl
      intro user entry hentry
      dsimp only [setEntry] at hentry
      split at hentry
      · cases hentry
      · exact hentry
    · cases hmatch
  | dropWrite sub iat at_ =>
    simp only [State.step] at hstep
    split at hstep <;> cases hstep
    exact h.evolve (Extends.refl _ _) (List.Subset.refl _) h.calls h.writes h.stored
      (fun _ _ he => he) rfl

theorem sound_initial (stored : Cutoffs) : (State.initial stored).Sound stored where
  calls _ hc := by cases hc
  writes _ hc := by cases hc
  stored _ _ h := Or.inl h
  cached _ _ h := by cases h
  checks _ hc := by cases hc

end AwsOps.Auth

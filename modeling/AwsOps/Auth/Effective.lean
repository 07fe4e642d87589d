import AwsOps.Auth.Sessions

/-!
# Revoked sessions stay revoked

A query that starts after a write has committed reads its cutoff, and `revokeSessionsFor` drops the
cached promise before it returns, so every later check waits for such a query. A debounced call
returns with the state of the earlier call with the same arguments: its write may still be running
or have failed.
-/

namespace AwsOps.Auth

open List Runs Option

/-- What a check owes to the calls that had returned when it started. -/
structure CheckOwed (s : State) (check : Check) : Prop where
  seen : check.seen ⊆ s.returned
  cutoff : ∀ iat n, check.stage = .cutoff iat n →
    Reads s.calls n check.token.sub fun rows =>
      ∀ r ∈ check.seen, r.1 = check.token.sub → Covers rows r.2
  live : check.stage = .ended .live → ∀ iat, check.token.iat = some iat →
    ∀ r ∈ check.seen, r.1 = check.token.sub → r.2 < iat

/-- The calls that have returned are stored, and every promise that a later check may get reads
them. -/
structure State.Effective (s : State) : Prop where
  returned : ∀ r ∈ s.returned, Covers (s.stored r.1) r.2
  landed : ∀ call ∈ s.calls, ∀ sub iat, call.job = .upsertCutoff sub iat →
    ∀ rows, call.raced = some (.rows rows) → Covers (s.stored sub) iat
  cached : ∀ sub entry, s.revocationCutoffCache sub = some entry →
    Reads s.calls entry.call sub fun rows => ∀ r ∈ s.returned, r.1 = sub → Covers rows r.2
  checks : ∀ check ∈ s.checks, CheckOwed s check

variable {s : State}

variable {t : State}

theorem CheckOwed.evolve {check : Check} (h : CheckOwed s check) (hs : s.Effective)
    (hext : Extends s.stored s.calls t.calls) (hreturned : s.returned ⊆ t.returned) :
    CheckOwed t check where
  seen := fun _ hr => hreturned (h.seen hr)
  cutoff iat n hstage := by
    refine (h.cutoff iat n hstage).extends hext ?_
    intro r hr hsub
    rw [← hsub]
    exact hs.returned r (h.seen hr)
  live := h.live

theorem State.Effective.evolve (h : s.Effective) (hext : Extends s.stored s.calls t.calls)
    (hmono : ∀ sub n, Covers (s.stored sub) n → Covers (t.stored sub) n)
    (hlanded : ∀ call ∈ t.calls, ∀ sub iat, call.job = .upsertCutoff sub iat →
      ∀ rows, call.raced = some (.rows rows) → Covers (t.stored sub) iat)
    (hcache : ∀ sub entry, t.revocationCutoffCache sub = some entry →
      s.revocationCutoffCache sub = some entry) (hreturned : t.returned = s.returned)
    (hchecks : t.checks = s.checks) : t.Effective where
  returned r hr := by
    rw [hreturned] at hr
    exact hmono r.1 r.2 (h.returned r hr)
  landed := hlanded
  cached sub entry hentry := by
    rw [hreturned]
    refine (h.cached sub entry (hcache sub entry hentry)).extends hext ?_
    intro r hr hsub
    rw [← hsub]
    exact h.returned r hr
  checks check hcheck := by
    rw [hchecks] at hcheck
    exact (h.checks check hcheck).evolve h hext (hreturned ▸ List.Subset.refl _)

theorem State.Effective.call (h : s.Effective) {i : Nat} {call call' : TimeoutRace}
    (hcall : s.calls[i]? = some call) (hjob : call'.job = call.job) {stored : Cutoffs}
    (hrows : ∀ rows, call'.HasRows rows → call.HasRows rows ∨ rows = call.job.rows s.stored)
    (hmono : ∀ sub n, Covers (s.stored sub) n → Covers (stored sub) n)
    (hlanded : ∀ sub iat, call.job = .upsertCutoff sub iat →
      ∀ rows, call'.raced = some (.rows rows) → Covers (stored sub) iat) :
    State.Effective { s with stored, calls := s.calls.set i call' } := by
  refine h.evolve (Extends.set hcall hjob hrows) hmono ?_ (fun _ _ he => he) rfl rfl
  intro c hc sub iat hjobc rows hraced
  rcases mem_or_eq_of_mem_set hc with hc | rfl
  · exact hmono sub iat (h.landed c hc sub iat hjobc rows hraced)
  · exact hlanded sub iat (hjob.symm.trans hjobc) rows hraced

theorem State.Effective.check (h : s.Effective) {i : Nat} {check : Check}
    (hcheck : CheckOwed s check) :
    State.Effective { s with checks := s.checks.set i check } where
  returned := h.returned
  landed := h.landed
  cached := h.cached
  checks c hc := by
    rcases mem_or_eq_of_mem_set hc with hc | rfl
    · exact ⟨(h.checks c hc).seen, (h.checks c hc).cutoff, (h.checks c hc).live⟩
    · exact ⟨hcheck.seen, hcheck.cutoff, hcheck.live⟩

theorem State.Effective.revocationCutoff (h : s.Effective) (sub : String) (now : Int) :
    (s.revocationCutoff sub now).1.Effective ∧
      Reads (s.revocationCutoff sub now).1.calls (s.revocationCutoff sub now).2 sub
        fun rows => ∀ r ∈ s.returned, r.1 = sub → Covers rows r.2 := by
  unfold State.revocationCutoff
  split
  · rename_i hit hfilter
    exact ⟨h, h.cached sub hit (filter_eq_some_iff.mp hfilter).1⟩
  · have hext := Extends.append s.stored s.calls (.new (.selectCutoff sub))
    refine ⟨⟨h.returned, ?_, ?_, ?_⟩, reads_new s.calls sub _⟩
    · intro c hc user iat hjob
      rcases mem_append.mp hc with hc | hc
      · exact h.landed c hc user iat hjob
      · rw [mem_singleton.mp hc] at hjob
        cases hjob
    · intro user entry hentry
      dsimp only [setEntry] at hentry
      split at hentry
      · rename_i huser
        cases hentry
        rw [huser]
        exact reads_new s.calls sub _
      · refine (h.cached user entry hentry).extends hext ?_
        intro r hr hsub
        rw [← hsub]
        exact h.returned r hr
    · intro c hc
      exact (h.checks c hc).evolve h hext (List.Subset.refl _)

theorem State.Effective.isRevoked (h : s.Effective) {check : Check} (hcheck : CheckOwed s check)
    (now : Int) :
    (s.isRevoked check.token now).1.Effective ∧ CheckOwed (s.isRevoked check.token now).1
        { check with stage := (s.isRevoked check.token now).2 } := by
  unfold State.isRevoked
  split
  · exact ⟨h, hcheck.seen, nofun, nofun⟩
  · rename_i iat hiat
    split
    · exact ⟨h, hcheck.seen, nofun, nofun⟩
    · obtain ⟨heffective, hreads⟩ := h.revocationCutoff check.token.sub now
      have hreturned := (frame_revocationCutoff s check.token.sub now).2.2.2
      refine ⟨heffective, fun r hr => ?_, ?_, nofun⟩
      · rw [hreturned]
        exact hcheck.seen hr
      · rintro iat' n ⟨⟩
        exact hreads.mono fun rows hrows r hr hsub => hrows r (hcheck.seen hr) hsub

theorem lt_of_live {iat n : Int} {rows : Option Int} (h : (Outcome.rows rows).verdict iat = .live)
    (hcovers : Covers rows n) : n < iat := by
  obtain ⟨cutoff, hcutoff, hle⟩ := hcovers
  cases hcutoff
  unfold Outcome.verdict at h
  dsimp only at h
  split at h
  · cases h
  · omega

/-- A call that returns without a write repeats one that has returned. -/
def State.Landed (s : State) : Action → Prop
  | .revokeSessionsFor sub iat now => s.debounced sub iat now = true → (sub, iat) ∈ s.returned
  | _ => True

instance (s : State) : ∀ a, Decidable (s.Landed a)
  | .revokeSessionsFor sub iat now =>
    inferInstanceAs (Decidable (s.debounced sub iat now = true → (sub, iat) ∈ s.returned))
  | .verifyUser _ | .jwtVerify .. | .isRevoked .. | .answer _ | .reply .. | .timeout _ | .settle _
  | .dropCutoff _ | .dropWrite .. => isTrue trivial

theorem State.Effective.step {initial : Cutoffs} {a : Action} (hsound : s.Sound initial)
    (h : s.Effective) (hlanded : s.Landed a) (hstep : s.step a = some t) : t.Effective := by
  cases a with
  | verifyUser token =>
    cases hstep
    refine ⟨h.returned, h.landed, h.cached, ?_⟩
    intro c hc
    rcases mem_append.mp hc with hc | hc
    · exact ⟨(h.checks c hc).seen, (h.checks c hc).cutoff, (h.checks c hc).live⟩
    · rw [mem_singleton.mp hc]
      exact ⟨List.Subset.refl _, nofun, nofun⟩
  | jwtVerify i valid =>
    obtain ⟨check, hcheck, hif⟩ := bind_eq_some_iff.mp hstep
    split at hif <;> cases hif
    have hseen := (h.checks check (mem_of_getElem? hcheck)).seen
    refine h.check ?_
    cases valid <;> exact ⟨hseen, nofun, nofun⟩
  | isRevoked i now =>
    obtain ⟨check, hcheck, hif⟩ := bind_eq_some_iff.mp hstep
    split at hif <;> cases hif
    obtain ⟨heffective, howed⟩ := h.isRevoked (h.checks check (mem_of_getElem? hcheck)) now
    exact heffective.check howed
  | answer i =>
    obtain ⟨check, hcheck, hmatch⟩ := bind_eq_some_iff.mp hstep
    split at hmatch
    · rename_i iat n hstage
      obtain ⟨call, hcall, hrest⟩ := bind_eq_some_iff.mp hmatch
      obtain ⟨o, ho, hif⟩ := bind_eq_some_iff.mp hrest
      split at hif <;> cases hif
      have hmem := mem_of_getElem? hcheck
      refine h.check ⟨(h.checks check hmem).seen, nofun, ?_⟩
      intro hlive iat' hiat' r hr hsub
      have hverdict : o.verdict iat = .live := by
        injection hlive
      obtain ⟨call', hcall', -, hrows⟩ := (h.checks check hmem).cutoff iat n hstage
      rw [hcall] at hcall'
      cases hcall'
      have hiat := ((hsound.checks check hmem).cutoff iat n hstage).1
      rw [hiat] at hiat'
      cases hiat'
      cases o with
      | failed e => cases hverdict
      | rows rows => exact lt_of_live hverdict (hrows rows (.inr ho) r hr hsub)
    · cases hmatch
  | revokeSessionsFor sub iat now =>
    simp only [State.step] at hstep
    split at hstep
    · rename_i hdebounced
      cases hstep
      -- the call adds nothing to what has returned
      have hmem : (sub, iat) ∈ s.returned := hlanded hdebounced
      have hsubset : (sub, iat) :: s.returned ⊆ s.returned :=
        cons_subset.mpr ⟨hmem, List.Subset.refl _⟩
      refine ⟨fun r hr => h.returned r (hsubset hr), h.landed, ?_, ?_⟩
      · intro user entry hentry
        exact (h.cached user entry hentry).mono fun rows hrows r hr => hrows r (hsubset hr)
      · intro c hc
        exact ⟨fun r hr => mem_cons_of_mem _ ((h.checks c hc).seen hr),
          (h.checks c hc).cutoff, (h.checks c hc).live⟩
    · cases hstep
      refine h.evolve (Extends.append _ _ _) (fun _ _ hc => hc) ?_ (fun _ _ he => he) rfl rfl
      intro c hc user n hjob rows hraced
      rcases mem_append.mp hc with hc | hc
      · exact h.landed c hc user n hjob rows hraced
      · rw [mem_singleton.mp hc] at hraced
        cases hraced
  | reply i r =>
    obtain ⟨call, hcall, hrest⟩ := bind_eq_some_iff.mp hstep
    obtain ⟨next, hnext, heq⟩ := bind_eq_some_iff.mp hrest
    cases heq
    obtain ⟨hjob, hrows, hraced⟩ := reply_rows hnext
    have hmono : ∀ sub n, Covers (s.stored sub) n →
        Covers ((if call.commits r then call.job.commit s.stored else s.stored) sub) n := by
      intro sub n hc
      split
      · exact commit_covers hc
      · exact hc
    refine h.call hcall hjob hrows hmono ?_
    intro sub iat hupsert rows hr
    rcases hraced rows hr with hr | hcommits
    · exact hmono sub iat
        (h.landed call (mem_of_getElem? hcall) sub iat hupsert rows hr)
    · rw [if_pos hcommits, hupsert]
      exact upsert_covers s.stored sub iat
  | timeout i =>
    obtain ⟨call, hcall, hrest⟩ := bind_eq_some_iff.mp hstep
    obtain ⟨next, hnext, heq⟩ := bind_eq_some_iff.mp hrest
    cases heq
    obtain ⟨hjob, hstage, hraced⟩ := timeout_rows hnext
    refine h.call hcall hjob (fun rows hr => .inl (hr.imp (hstage ▸ ·) (hraced rows)))
      (fun _ _ hc => hc) ?_
    intro sub iat hupsert rows hr
    exact h.landed call (mem_of_getElem? hcall) sub iat hupsert rows (hraced rows hr)
  | settle i =>
    obtain ⟨call, hcall, hrest⟩ := bind_eq_some_iff.mp hstep
    obtain ⟨o, ho, hif⟩ := bind_eq_some_iff.mp hrest
    split at hif <;> cases hif
    have hlandedCall := h.landed call (mem_of_getElem? hcall)
    have hbefore : State.Effective { s with calls := s.calls.set i call.settle } :=
      h.call hcall (show call.settle.job = call.job from rfl) (fun rows hr => .inl hr)
        (fun _ _ hc => hc) hlandedCall
    unfold State.settled
    split
    · rename_i sub iat rows hjob
      refine ⟨?_, hbefore.landed, ?_, ?_⟩
      · intro r hr
        rcases mem_cons.mp hr with rfl | hr
        · exact hlandedCall sub iat hjob rows ho
        · exact h.returned r hr
      · intro user entry hentry
        dsimp only [setEntry] at hentry
        split at hentry
        · cases hentry
        · rename_i huser
          refine (hbefore.cached user entry hentry).mono ?_
          intro rows' hrows r hr hsub
          rcases mem_cons.mp hr with rfl | hr
          · exact absurd hsub.symm huser
          · exact hrows r hr hsub
      · intro c hc
        exact ⟨fun r hr => mem_cons_of_mem _ ((hbefore.checks c hc).seen hr),
          (hbefore.checks c hc).cutoff, (hbefore.checks c hc).live⟩
    · exact hbefore
  | dropCutoff i =>
    obtain ⟨call, hcall, hmatch⟩ := bind_eq_some_iff.mp hstep
    split at hmatch
    · split at hmatch <;> cases hmatch
      refine h.evolve (Extends.refl _ _) (fun _ _ hc => hc) h.landed ?_ rfl rfl
      intro user entry hentry
      dsimp only [setEntry] at hentry
      split at hentry
      · cases hentry
      · exact hentry
    · cases hmatch
  | dropWrite sub iat at_ =>
    simp only [State.step] at hstep
    split at hstep <;> cases hstep
    exact h.evolve (Extends.refl _ _) (fun _ _ hc => hc) h.landed (fun _ _ he => he) rfl rfl

theorem effective_initial (stored : Cutoffs) : (State.initial stored).Effective where
  returned _ hr := by cases hr
  landed _ hc := by cases hc
  cached _ _ h := by cases h
  checks _ hc := by cases hc

/-! ## Revocation -/

/-- A check that has passed the lookup of the cutoff is about a token that is newer than every
call for its subject that had returned when the check started. A step does not move a stored
cutoff back; what is stored, and what a token is revoked by, was stored at the start or passed to a
call. An acquired connection has been given up once, or its transaction runs and its timer has not
fired. -/
structure State.Revokes (initial : Cutoffs) (s : State) : Prop where
  effective : ∀ check ∈ s.checks, check.stage = .ended .live →
    ∀ iat, check.token.iat = some iat →
      ∀ revoked, (check.token.sub, revoked) ∈ check.seen → revoked < iat
  advances : ∀ a t, s.step a = some t → ∀ sub cutoff, s.stored sub = some cutoff →
    ∃ cutoff' ∈ t.stored sub, cutoff ≤ cutoff'
  known : ∀ sub cutoff, s.stored sub = some cutoff → Known initial s.made sub cutoff
  spares : ∀ check ∈ s.checks, check.stage = .ended .revoked →
    ∀ iat, check.token.iat = some iat → iat ≠ 0 →
      ∃ cutoff, iat ≤ cutoff ∧ Known initial s.made check.token.sub cutoff
  connections : ∀ call ∈ s.calls,
    (call.client = false → call.disposals = []) ∧
      (call.client = true → call.disposals.length = 1 ∨
        call.disposals = [] ∧ call.stage ≠ .ended ∧ call.timer = .armed)

theorem step_covers {s t : State} {a : Action} {sub : String} {n : Int}
    (hstep : s.step a = some t) (h : Covers (s.stored sub) n) : Covers (t.stored sub) n := by
  cases a with
  | verifyUser token =>
    cases hstep
    exact h
  | jwtVerify i valid =>
    obtain ⟨check, hcheck, hif⟩ := bind_eq_some_iff.mp hstep
    split at hif <;> cases hif
    exact h
  | isRevoked i now =>
    obtain ⟨check, hcheck, hif⟩ := bind_eq_some_iff.mp hstep
    split at hif <;> cases hif
    show Covers ((s.isRevoked check.token now).1.stored sub) n
    unfold State.isRevoked
    split
    · exact h
    · split
      · exact h
      · exact (frame_revocationCutoff s check.token.sub now).1 ▸ h
  | answer i =>
    obtain ⟨check, hcheck, hmatch⟩ := bind_eq_some_iff.mp hstep
    split at hmatch
    · obtain ⟨call, hcall, hrest⟩ := bind_eq_some_iff.mp hmatch
      obtain ⟨o, ho, hif⟩ := bind_eq_some_iff.mp hrest
      split at hif <;> cases hif
      exact h
    · cases hmatch
  | revokeSessionsFor user iat now =>
    simp only [State.step] at hstep
    split at hstep <;> cases hstep <;> exact h
  | reply i r =>
    obtain ⟨call, hcall, hrest⟩ := bind_eq_some_iff.mp hstep
    obtain ⟨next, hnext, heq⟩ := bind_eq_some_iff.mp hrest
    cases heq
    dsimp only
    split
    · exact commit_covers h
    · exact h
  | timeout i =>
    obtain ⟨call, hcall, hrest⟩ := bind_eq_some_iff.mp hstep
    obtain ⟨next, hnext, heq⟩ := bind_eq_some_iff.mp hrest
    cases heq
    exact h
  | settle i =>
    obtain ⟨call, hcall, hrest⟩ := bind_eq_some_iff.mp hstep
    obtain ⟨o, ho, hif⟩ := bind_eq_some_iff.mp hrest
    split at hif <;> cases hif
    unfold State.settled
    split <;> exact h
  | dropCutoff i =>
    obtain ⟨call, hcall, hmatch⟩ := bind_eq_some_iff.mp hstep
    split at hmatch
    · split at hmatch <;> cases hmatch
      exact h
    · cases hmatch
  | dropWrite user iat at_ =>
    simp only [State.step] at hstep
    split at hstep <;> cases hstep
    exact h

/-- An acquired connection has been given up, or the transaction and the timer are still at it. -/
theorem TimeoutRace.Sound.connection {call : TimeoutRace} (h : call.Sound)
    (hclient : call.client = true) : call.disposals.length = 1 ∨
      call.disposals = [] ∧ call.stage ≠ .ended ∧ call.timer = .armed := by
  cases hreleased : call.released with
  | true => exact .inl (h.released hreleased)
  | false =>
    have hended : call.stage ≠ .ended := fun hs =>
      absurd (hreleased.symm.trans (h.ended hs hclient)) (by decide)
    refine .inr ⟨h.unreleased hreleased, hended, ?_⟩
    cases htimer : call.timer with
    | armed => rfl
    | fired => exact absurd (hreleased.symm.trans (h.fired htimer hclient)) (by decide)
    | cleared => exact absurd (h.cleared htimer) hended

/-- Sessions are revoked in every run in which a call that returns without a write repeats one
that has returned. -/
theorem sessions_revoked {stored : Cutoffs} {as : List Action} {s : State}
    (hlanded : Meets State.step State.Landed (State.initial stored) as)
    (hrun : run State.step (State.initial stored) as = some s) : s.Revokes stored := by
  have hkept : s.Sound stored ∧ s.Effective :=
    run_keeps (I := fun s => s.Sound stored ∧ s.Effective)
      (fun s a t hs hmeets hstep => ⟨hs.1.step hstep, hs.2.step hs.1 hmeets hstep⟩)
      ⟨sound_initial stored, effective_initial stored⟩ hlanded hrun
  obtain ⟨hsound, heffective⟩ := hkept
  refine ⟨?_, ?_, hsound.stored, fun check hc => (hsound.checks check hc).revoked, ?_⟩
  · intro check hc hlive iat hiat revoked hseen
    exact (heffective.checks check hc).live hlive iat hiat _ hseen rfl
  · intro a t hstep sub cutoff hcutoff
    exact step_covers hstep ⟨cutoff, hcutoff, Int.le_refl cutoff⟩
  · intro call hc
    exact ⟨fun hclient => ((hsound.calls call hc).outside hclient).1,
      (hsound.calls call hc).connection⟩

/-- A session of `u` is checked, revoked, replayed and checked again. -/
def signout : List Action :=
  List.flatten
    [[.verifyUser ⟨"u", some 10⟩, .jwtVerify 0 true, .isRevoked 0 0], List.replicate 5 (.reply 0 .ok),
      [.settle 0, .answer 0, .revokeSessionsFor "u" 10 1000], List.replicate 5 (.reply 1 .ok),
      [.settle 1, .revokeSessionsFor "u" 10 2000, .verifyUser ⟨"u", some 10⟩, .jwtVerify 1 true,
        .isRevoked 1 2001], List.replicate 5 (.reply 2 .ok), [.settle 2, .answer 1]]

theorem sessions_revoked_signout :
    ∃ s, run State.step (State.initial fun _ => none) signout = some s ∧
      s.checks.map Check.stage = [.ended .live, .ended .revoked] ∧ s.Revokes fun _ => none :=
  ⟨(run State.step (State.initial fun _ => none) signout).get (by decide +kernel),
    (some_get _).symm, by decide +kernel,
    sessions_revoked (by decide +kernel) (some_get _).symm⟩

/-- The write of the first call fails, and the second call returns without a write. -/
def failedSignout : List Action :=
  List.flatten
    [[.revokeSessionsFor "u" 10 0, .reply 0 (.error "timeout exceeded when trying to connect"),
      .settle 0, .revokeSessionsFor "u" 10 1000, .verifyUser ⟨"u", some 10⟩, .jwtVerify 0 true,
      .isRevoked 0 1500], List.replicate 5 (.reply 1 .ok), [.settle 1, .answer 0]]

/-- The replayed call has returned, and the token passes the lookup. -/
theorem sessions_not_revoked :
    ¬ ∀ stored as s, run State.step (State.initial stored) as = some s → s.Revokes stored := by
  intro h
  have hrun : ∃ s, run State.step (State.initial fun _ => none) failedSignout = some s ∧
      s.checks = [⟨⟨"u", some 10⟩, .ended .live, [("u", 10)]⟩] :=
    ⟨(run State.step (State.initial fun _ => none) failedSignout).get (by decide +kernel),
      (some_get _).symm, by decide +kernel⟩
  obtain ⟨s, hs, hchecks⟩ := hrun
  have hlt := (h _ failedSignout s hs).effective ⟨⟨"u", some 10⟩, .ended .live, [("u", 10)]⟩
    (by rw [hchecks]; exact mem_singleton_self _) rfl 10 rfl 10 (mem_singleton_self _)
  omega

end AwsOps.Auth

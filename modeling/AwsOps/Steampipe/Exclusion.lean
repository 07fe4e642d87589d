import AwsOps.Steampipe.Supervisor

/-!
# One child at a time

What holds whatever the two threads do: the lock is held exactly in the critical sections, every
running child is the one in `proc_ref` or the one that was just started, and no child is started
once `stop` is set. So at most one child runs, and after the watchdog has published `stop` the
process ends with exit code 1.
-/

namespace AwsOps.Steampipe

open Option Shared

/-! ## Control ranges -/

/-- The call holds the lock. -/
def Restart.holds : Restart → Bool
  | .enter _ => false
  | _ => true

/-- The child that was started and is not stored yet. -/
def Restart.flight : Restart → Option Nat
  | .store child => some child
  | _ => none

def Watchdog.holds : Watchdog → Bool
  | .restarting _ r => r.holds
  | .publish | .inspect | .terminate _ | .clear | .release => true
  | _ => false

def Watchdog.flight : Watchdog → Option Nat
  | .restarting _ r => r.flight
  | _ => none

/-- The watchdog has met an error of the host scope. -/
def Watchdog.rejecting : Watchdog → Bool
  | .acquire | .publish | .inspect | .terminate _ | .clear | .release => true
  | _ => false

/-- The watchdog has published `stop`. -/
def Watchdog.publishing : Watchdog → Bool
  | .inspect | .terminate _ | .clear | .release => true
  | _ => false

def Supervisor.holds : Supervisor → Bool
  | .restarting _ r => r.holds
  | .inside _ | .read _ | .leave .. | .breakInside | .finalStop _ | .finalInspect _
  | .finalTerminate .. | .finalClear _ | .finalRelease _ => true
  | _ => false

def Supervisor.flight : Supervisor → Option Nat
  | .restarting _ r => r.flight
  | _ => none

/-- The supervisor has set `stop`. -/
def Supervisor.stopping : Supervisor → Bool
  | .finalInspect _ | .finalTerminate .. | .finalClear _ | .finalRelease _ | .finalTest _
  | .exited _ => true
  | _ => false

/-- The supervisor has given up `proc_ref`. -/
def Supervisor.cleared : Supervisor → Bool
  | .finalRelease _ | .finalTest _ | .exited _ => true
  | _ => false

/-- The supervisor leaves its loop without an error. -/
def Supervisor.quits : Supervisor → Bool
  | .breakInside => true
  | .finalAcquire raised | .finalStop raised | .finalInspect raised | .finalTerminate raised _
  | .finalClear raised | .finalRelease raised | .finalTest raised => !raised
  | _ => false

/-- The call has seen inside of the lock that `stop` is not set. -/
def Restart.active : Restart → Bool
  | .terminate _ | .recheck | .start | .store _ => true
  | _ => false

/-- The call is active after the step. -/
def Progress.active : Progress → Bool
  | .goes r => r.active
  | .finished _ => false

/-- The watchdog has seen inside of the lock that `stop` is not set. -/
def Watchdog.active : Watchdog → Bool
  | .restarting _ r => r.active
  | _ => false

/-- The supervisor has seen inside of the lock that `stop` is not set. -/
def Supervisor.active : Supervisor → Bool
  | .restarting _ r => r.active
  | .read _ | .leave .. => true
  | _ => false

theorem watchdog_active_holds {w : Watchdog} (h : w.active = true) : w.holds = true := by
  cases w with
  | restarting current r => cases r <;> first | rfl | cases h
  | _ => first | rfl | cases h

theorem supervisor_active_holds {v : Supervisor} (h : v.active = true) : v.holds = true := by
  cases v with
  | restarting b r => cases r <;> first | rfl | cases h
  | _ => first | rfl | cases h

/-! ## The children -/

theorem runs_reap (s : Shared) (a c : Nat) : (s.reap a).runs c = (s.runs c && decide (c ≠ a)) := by
  unfold runs reap
  rw [List.getElem?_modify]
  by_cases h : a = c
  · cases s.children[c]? <;> simp [h]
  · cases s.children[c]? <;> simp [h, Ne.symm h]

theorem runs_start (s : Shared) (c : Nat) :
    s.start.runs c = (s.runs c || decide (c = s.children.length)) := by
  unfold runs start
  rcases Nat.lt_trichotomy c s.children.length with h | h | h
  · rw [List.getElem?_append_left h]
    simp [Nat.ne_of_lt h]
  · subst h
    simp
  · rw [List.getElem?_append_right (Nat.le_of_lt h),
      List.getElem?_eq_none (Nat.le_of_lt h)]
    have hpos : c - s.children.length ≠ 0 := by omega
    simp [Nat.ne_of_gt h, hpos]

theorem lt_of_runs {s : Shared} {c : Nat} (h : s.runs c = true) : c < s.children.length := by
  unfold runs at h
  by_contra hle
  rw [List.getElem?_eq_none (Nat.le_of_not_lt hle)] at h
  cases h

/-! ## The lock -/

/-- The call holds the lock after the step. -/
def Progress.holds : Progress → Bool
  | .goes r => r.holds
  | .finished _ => false

/-- What a step of a thread does with the lock: nothing, or it takes it or gives it up. -/
inductive LockMove (p : Party) (lock : Option Party) : Option Party → Bool → Bool → Prop
  | keep (b : Bool) : LockMove p lock lock b b
  | take : lock = none → LockMove p lock (some p) false true
  | give : LockMove p lock none true false

theorem restart_lock_move {p : Party} {s s' : Shared} {r : Restart} {o : Outcome} {next : Progress}
    (hstep : r.step p s o = some (s', next)) : LockMove p s.lock s'.lock r.holds next.holds := by
  unfold Restart.step at hstep
  split at hstep
  · split at hstep
    · rename_i hfree
      cases hstep
      exact .take hfree
    · cases hstep
  · split at hstep
    · cases hstep
      exact .keep true
    · split at hstep <;> cases hstep <;> exact .keep true
  · cases hstep
    exact .keep true
  · cases hstep
    exact .keep true
  · cases hstep
    cases s.stop <;> exact .keep true
  · cases hstep
    exact .keep true
  · cases hstep
    exact .keep true
  · cases hstep
    exact .keep true
  · cases hstep
    exact .give
  · cases hstep

theorem watchdog_lock_move {s s' : Shared} {w w' : Watchdog} {o : Outcome}
    (hstep : w.step s o = some (s', w')) :
    LockMove .watchdog s.lock s'.lock w.holds w'.holds := by
  unfold Watchdog.step at hstep
  split at hstep
  case h_8 current r o =>
    obtain ⟨⟨t, next⟩, hr, heq⟩ := map_eq_some_iff.mp hstep
    cases heq
    have hmove := restart_lock_move hr
    cases next <;> exact hmove
  case h_10 =>
    split at hstep
    · rename_i hfree
      cases hstep
      exact .take hfree
    · cases hstep
  case h_17 => cases hstep
  all_goals
    cases hstep
    first
      | exact .keep _
      | exact .give
      | split <;> exact .keep _

theorem supervisor_lock_move {s s' : Shared} {v v' : Supervisor} {o : Outcome}
    (hstep : v.step s o = some (s', v')) :
    LockMove .supervisor s.lock s'.lock v.holds v'.holds := by
  unfold Supervisor.step at hstep
  split at hstep
  case h_14 b r o =>
    obtain ⟨⟨t, next⟩, hr, heq⟩ := map_eq_some_iff.mp hstep
    cases heq
    have hmove := restart_lock_move hr
    cases next with
    | goes r => exact hmove
    | finished raised => cases raised <;> exact hmove
  case h_2 | h_15 =>
    split at hstep
    · rename_i hfree
      cases hstep
      exact .take hfree
    · cases hstep
  case h_7 =>
    split at hstep
    · cases hstep
    · cases hstep
      exact .keep _
  case h_23 => cases hstep
  all_goals
    cases hstep
    first
      | exact .keep _
      | exact .give
      | split <;> exact .keep _

/-- The lock is held exactly in the critical sections. -/
structure State.Locked (s : State) : Prop where
  watchdog : s.shared.lock = some .watchdog ↔ s.watchdog.holds = true
  supervisor : s.shared.lock = some .supervisor ↔ s.supervisor.holds = true

theorem State.Locked.exclusive {s : State} (h : s.Locked) (hw : s.watchdog.holds = true) :
    s.supervisor.holds = false := by
  cases hv : s.supervisor.holds with
  | false => rfl
  | true =>
    have hlock := h.watchdog.mpr hw
    rw [h.supervisor.mpr hv] at hlock
    cases hlock

theorem LockMove.locked {p q : Party} {lock lock' : Option Party} {own own' other : Bool}
    (hmove : LockMove p lock lock' own own') (hne : p ≠ q) (hown : lock = some p ↔ own = true)
    (hother : lock = some q ↔ other = true) :
    (lock' = some p ↔ own' = true) ∧ (lock' = some q ↔ other = true) := by
  cases hmove with
  | keep => exact ⟨hown, hother⟩
  | take hfree => simp_all
  | give => simp_all

theorem State.Locked.step {s s' : State} {a : Action} (h : s.Locked) (hstep : s.step a = some s') :
    s'.Locked := by
  obtain ⟨hw, hv⟩ := h
  cases State.steps_of_step hstep with
  | exit _ =>
    exact ⟨hw, hv⟩
  | watchdog hmoved =>
    have hkept := (watchdog_lock_move hmoved).locked (by decide) hw hv
    exact ⟨hkept.1, hkept.2⟩
  | supervisor hmoved =>
    have hkept := (supervisor_lock_move hmoved).locked (by decide) hv hw
    exact ⟨hkept.2, hkept.1⟩

/-! ## The flags -/

/-- Only the watchdog and the final block of the supervisor set `stop`, outside of the critical
sections that rely on it, and the process ends with exit code 1. -/
structure State.Flagged (s : State) : Prop where
  stopped : s.shared.stop = true → s.shared.published.isSome = true ∨ s.supervisor.stopping = true
  published : ∀ n, s.shared.published = some n →
    s.shared.stop = true ∧ s.shared.fatal = true ∧ s.shared.children.length = n ∧
      (s.watchdog.publishing = true ∨ s.watchdog = .ended)
  rejecting : s.watchdog.rejecting = true → s.shared.fatal = true
  publishing : s.watchdog.publishing = true → s.shared.published.isSome = true
  quits : s.supervisor.quits = true → s.shared.fatal = true
  stopping : s.supervisor.stopping = true → s.shared.stop = true
  watchdogActive : s.watchdog.active = true → s.shared.stop = false
  supervisorActive : s.supervisor.active = true → s.shared.stop = false
  exited : ∀ code, s.supervisor = .exited code → code = 1

variable {o : Outcome} {s : State} {shared : Shared}

theorem restart_flags {p : Party} {s s' : Shared} {r : Restart} {next : Progress}
    (hactive : r.active = true → s.stop = false) (hstep : r.step p s o = some (s', next)) :
    s'.stop = s.stop ∧ s'.fatal = s.fatal ∧ s'.published = s.published ∧
      (s'.children.length = s.children.length ∨ s.stop = false) ∧
      (next.active = true → s.stop = false) := by
  unfold Restart.step at hstep
  split at hstep
  case h_1 => 
    split at hstep <;> cases hstep
    exact ⟨rfl, rfl, rfl, .inl rfl, nofun⟩
  case h_2 => 
    split at hstep
    · cases hstep
      exact ⟨rfl, rfl, rfl, .inl rfl, nofun⟩
    · rename_i hcond
      rw [not_or, Bool.not_eq_true] at hcond
      split at hstep <;> cases hstep <;> exact ⟨rfl, rfl, rfl, .inl rfl, fun _ => hcond.1⟩
  case h_5 =>
    cases hstep
    exact ⟨rfl, rfl, rfl, .inl rfl, fun _ => hactive rfl⟩
  case h_10 => cases hstep
  all_goals
    cases hstep
    exact ⟨rfl, rfl, rfl, by first | exact .inr (hactive rfl) | exact .inl rfl, by first | exact fun _ => hactive rfl | nofun⟩

theorem State.Flagged.watchdog_quiet (h : s.Flagged) {w : Watchdog}
    (hstop : shared.stop = s.shared.stop) (hfatal : shared.fatal = s.shared.fatal)
    (hpublished : shared.published = s.shared.published)
    (hlength : shared.children.length = s.shared.children.length ∨ s.shared.stop = false)
    (hrejecting : w.rejecting = true → s.shared.fatal = true)
    (hpublishing : w.publishing = true → s.watchdog.publishing = true)
    (hkept : s.watchdog.publishing = true ∨ s.watchdog = .ended →
      w.publishing = true ∨ w = .ended) (hactive : w.active = true → s.shared.stop = false) :
    State.Flagged { s with shared, watchdog := w } where
  stopped := by
    rw [hstop, hpublished]
    exact h.stopped
  published n hn := by
    rw [hpublished] at hn
    obtain ⟨h1, h2, h3, h4⟩ := h.published n hn
    refine ⟨hstop ▸ h1, hfatal ▸ h2, ?_, hkept h4⟩
    rcases hlength with hlength | hnot
    · exact hlength.trans h3
    · rw [h1] at hnot
      cases hnot
  rejecting hw := hfatal ▸ hrejecting hw
  publishing hw := hpublished ▸ h.publishing (hpublishing hw)
  quits := hfatal ▸ h.quits
  stopping := hstop ▸ h.stopping
  watchdogActive hw := hstop ▸ hactive hw
  supervisorActive := hstop ▸ h.supervisorActive
  exited := h.exited

theorem State.Flagged.watchdog (hl : s.Locked) (h : s.Flagged) {w : Watchdog}
    (hstep : s.watchdog.step s.shared o = some (shared, w)) :
    State.Flagged { s with shared, watchdog := w } := by
  obtain ⟨s, w₀, v⟩ := s
  have hrejecting := h.rejecting
  have hactive := h.watchdogActive
  dsimp only at hstep hrejecting hactive
  unfold Watchdog.step at hstep
  split at hstep
  case h_17 => cases hstep
  case h_8 current r o =>
    obtain ⟨⟨t, next⟩, hr, heq⟩ := map_eq_some_iff.mp hstep
    cases heq
    obtain ⟨hstop, hfatal, hpublished, hlength, hnext⟩ := restart_flags hactive hr
    refine h.watchdog_quiet hstop hfatal hpublished hlength ?_ ?_ ?_ ?_ <;> cases next <;>
      simp_all [Watchdog.rejecting, Watchdog.publishing, Watchdog.active, Progress.active]
  case h_9 =>
    cases hstep
    exact ⟨h.stopped, fun n hn => ⟨(h.published n hn).1, rfl, (h.published n hn).2.2.1, by
      simpa [Watchdog.publishing] using (h.published n hn).2.2.2⟩, fun _ => rfl, by simp [Watchdog.publishing],
      fun _ => rfl, h.stopping, by simp [Watchdog.active], h.supervisorActive, h.exited⟩
  case h_10 =>
    split at hstep <;> cases hstep
    refine h.watchdog_quiet rfl rfl rfl (.inl rfl) ?_ ?_ ?_ ?_ <;>
      simp_all [Watchdog.rejecting, Watchdog.publishing, Watchdog.active]
  case h_11 =>
    cases hstep
    have hfatal : s.fatal = true := hrejecting rfl
    have hinactive : v.active = true → False := by
      intro hv
      have hholds := hl.exclusive rfl
      rw [show v.holds = true from supervisor_active_holds hv] at hholds
      cases hholds
    refine ⟨fun _ => .inl rfl, ?_, fun _ => hfatal, fun _ => rfl, fun _ => hfatal, fun _ => rfl,
      by simp [Watchdog.active], fun hv => (hinactive hv).elim, h.exited⟩
    rintro n ⟨rfl⟩
    exact ⟨rfl, hfatal, rfl, .inl rfl⟩
  all_goals
    cases hstep
    refine h.watchdog_quiet rfl rfl rfl (.inl ?_) ?_ ?_ ?_ ?_ <;> first | rfl | (try split) <;>
      simp_all [Watchdog.rejecting, Watchdog.publishing, Watchdog.active, Restart.active, reap]

theorem State.Flagged.supervisor_quiet (h : s.Flagged) {v : Supervisor}
    (hstop : shared.stop = s.shared.stop) (hfatal : shared.fatal = s.shared.fatal)
    (hpublished : shared.published = s.shared.published)
    (hlength : shared.children.length = s.shared.children.length ∨ s.shared.stop = false)
    (hquits : v.quits = true → s.shared.fatal = true)
    (hstopping : v.stopping = true → s.shared.stop = true)
    (hkept : s.supervisor.stopping = true → v.stopping = true)
    (hactive : v.active = true → s.shared.stop = false)
    (hexited : ∀ code, v = .exited code → code = 1) :
    State.Flagged { s with shared, supervisor := v } where
  stopped := by
    rw [hstop, hpublished]
    exact fun hset => (h.stopped hset).imp id hkept
  published n hn := by
    rw [hpublished] at hn
    obtain ⟨h1, h2, h3, h4⟩ := h.published n hn
    refine ⟨hstop ▸ h1, hfatal ▸ h2, ?_, h4⟩
    rcases hlength with hlength | hnot
    · exact hlength.trans h3
    · rw [h1] at hnot
      cases hnot
  rejecting := hfatal ▸ h.rejecting
  publishing := hpublished ▸ h.publishing
  quits hv := hfatal ▸ hquits hv
  stopping hv := hstop ▸ hstopping hv
  watchdogActive := hstop ▸ h.watchdogActive
  supervisorActive hv := hstop ▸ hactive hv
  exited := hexited

theorem State.Flagged.fatal_of_stop (h : s.Flagged) (hstop : s.shared.stop = true)
    (hnot : s.supervisor.stopping = false) : s.shared.fatal = true := by
  rcases h.stopped hstop with hsome | hstopping
  · obtain ⟨n, hn⟩ := isSome_iff_exists.mp hsome
    exact (h.published n hn).2.1
  · rw [hnot] at hstopping
    cases hstopping

theorem State.Flagged.supervisor (hl : s.Locked) (h : s.Flagged) {v : Supervisor}
    (hstep : s.supervisor.step s.shared o = some (shared, v)) :
    State.Flagged { s with shared, supervisor := v } := by
  obtain ⟨s, w, v₀⟩ := s
  have hquits := h.quits
  have hstopping := h.stopping
  have hactive := h.supervisorActive
  have hfatal := h.fatal_of_stop
  dsimp only at hstep hquits hstopping hactive hfatal
  unfold Supervisor.step at hstep
  split at hstep
  case h_23 => cases hstep
  case h_14 b r o =>
    obtain ⟨⟨t, next⟩, hr, heq⟩ := map_eq_some_iff.mp hstep
    cases heq
    obtain ⟨hstop, hfatal, hpublished, hlength, hnext⟩ := restart_flags hactive hr
    refine h.supervisor_quiet hstop hfatal hpublished hlength ?_ ?_ ?_ ?_ ?_ <;> rcases next with r | (_ | _) <;>
      simp_all [Supervisor.quits, Supervisor.stopping, Supervisor.active, Progress.active]
  case h_2 | h_15 =>
    split at hstep <;> cases hstep
    refine h.supervisor_quiet rfl rfl rfl (.inl rfl) ?_ ?_ ?_ ?_ ?_ <;>
      simp_all [Supervisor.quits, Supervisor.stopping, Supervisor.active]
  case h_7 =>
    split at hstep <;> cases hstep
    refine h.supervisor_quiet rfl rfl rfl (.inl rfl) ?_ ?_ ?_ ?_ ?_ <;>
      simp_all [Supervisor.quits, Supervisor.stopping, Supervisor.active]
  case h_16 raised =>
    cases hstep
    have hinactive : w.active = true → False := by
      intro hw
      have hholds := hl.exclusive (watchdog_active_holds hw)
      cases hholds
    refine ⟨fun _ => .inr rfl, ?_, h.rejecting, h.publishing, hquits, fun _ => rfl,
      fun hw => (hinactive hw).elim, by simp [Supervisor.active], by simp⟩
    intro n hn
    exact ⟨rfl, (h.published n hn).2⟩
  all_goals
    cases hstep
    refine h.supervisor_quiet rfl rfl rfl (.inl ?_) ?_ ?_ ?_ ?_ ?_ <;> first | rfl | (try split) <;>
      simp_all [Supervisor.quits, Supervisor.stopping, Supervisor.active, Restart.active, reap]

theorem State.Flagged.step {s' : State} {a : Action} (hl : s.Locked) (h : s.Flagged)
    (hstep : s.step a = some s') : s'.Flagged := by
  cases State.steps_of_step hstep with
  | exit _ =>
    refine ⟨h.stopped, ?_, h.rejecting, h.publishing, h.quits, h.stopping, h.watchdogActive,
      h.supervisorActive, h.exited⟩
    intro n hn
    obtain ⟨h1, h2, h3, h4⟩ := h.published n hn
    exact ⟨h1, h2, by simpa [reap] using h3, h4⟩
  | watchdog hmoved =>
    exact h.watchdog hl hmoved
  | supervisor hmoved =>
    exact h.supervisor hl hmoved

theorem locked_initial (spc : String) : (State.initial spc).Locked :=
  ⟨⟨nofun, nofun⟩, ⟨nofun, nofun⟩⟩

theorem flagged_initial (spc : String) : (State.initial spc).Flagged where
  stopped := nofun
  published _ h := by cases h
  rejecting := nofun
  publishing := nofun
  quits := nofun
  stopping := nofun
  watchdogActive _ := rfl
  supervisorActive _ := rfl
  exited _ h := by cases h

end AwsOps.Steampipe

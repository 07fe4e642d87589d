import AwsOps.Steampipe.Exclusion

/-!
# The running child

At most one child runs. Before `stop` is set it is the one in `proc_ref` or the one that a call of
`_restart_steampipe` has started and not stored yet, so the call that has stopped `old` may start
the next one.
-/

namespace AwsOps.Steampipe

open Option

/-! ## What a call relies on -/

/-- What a call of `_restart_steampipe` relies on while it holds the lock. -/
def Restart.Knows (s : Shared) : Restart → Prop
  | .terminate old => s.procRef = some old
  | .recheck | .start => ∀ c, s.runs c = false
  | .store child => ∀ c, s.runs c = true → c = child
  | _ => True

/-- What the watchdog relies on. -/
def Watchdog.Knows (s : Shared) : Watchdog → Prop
  | .restarting _ r => r.Knows s
  | _ => True

/-- What the supervisor relies on. -/
def Supervisor.Knows (s : Shared) : Supervisor → Prop
  | .restarting _ r => r.Knows s
  | _ => True

/-- What a call relies on after the step. -/
def Progress.Knows (s : Shared) : Progress → Prop
  | .goes r => r.Knows s
  | .finished _ => True

/-- The child in flight after the step. -/
def Progress.flight : Progress → Option Nat
  | .goes r => r.flight
  | .finished _ => none

variable {s : Shared} {r : Restart}

theorem Restart.Knows.congr {t : Shared} (h : r.Knows s) (hchildren : t.children = s.children)
    (hproc : t.procRef = s.procRef) : r.Knows t := by
  have hruns : ∀ c, t.runs c = s.runs c := fun c => by rw [Shared.runs, Shared.runs, hchildren]
  cases r with
  | terminate old => exact hproc.trans h
  | recheck | start => exact fun c => (hruns c).trans (h c)
  | store child => exact fun c hc => h c ((hruns c).symm.trans hc)
  | _ => trivial

theorem Restart.Knows.reap (h : r.Knows s) (a : Nat) : r.Knows (s.reap a) := by
  have hruns : ∀ c, (s.reap a).runs c = true → s.runs c = true := by
    intro c hc
    rw [runs_reap, Bool.and_eq_true] at hc
    exact hc.1
  cases r with
  | terminate old => exact h
  | recheck | start =>
    intro c
    cases hc : (s.reap a).runs c with
    | false => rfl
    | true => rw [← h c, hruns c hc]
  | store child => exact fun c hc => h c (hruns c hc)
  | _ => trivial

theorem restart_knows_outside (h : r.holds = false) : r.Knows s := by
  cases r with
  | enter old => trivial
  | _ => cases h

theorem watchdog_knows_outside {w : Watchdog} (h : w.holds = false) : w.Knows s := by
  cases w with
  | restarting current r => exact restart_knows_outside (r := r) h
  | _ => trivial

theorem supervisor_knows_outside {v : Supervisor} (h : v.holds = false) : v.Knows s := by
  cases v with
  | restarting b r => exact restart_knows_outside (r := r) h
  | _ => trivial

theorem watchdog_flight_outside {w : Watchdog} (h : w.holds = false) : w.flight = none := by
  cases w with
  | restarting current r => cases r <;> first | rfl | cases h
  | _ => rfl

theorem supervisor_flight_outside {v : Supervisor} (h : v.holds = false) : v.flight = none := by
  cases v with
  | restarting b r => cases r <;> first | rfl | cases h
  | _ => rfl

/-! ## One child -/

/-- At most one child runs, and before `stop` is set it is in `proc_ref` or in flight. -/
structure Shared.Tended (s : Shared) (mine others : Option Nat) : Prop where
  alone : ∀ c d, s.runs c = true → s.runs d = true → c = d
  held : s.stop = false → ∀ c, s.runs c = true →
    s.procRef = some c ∨ mine = some c ∨ others = some c

variable {others : Option Nat} {o : Outcome}

variable {mine : Option Nat} {s' : Shared} {next : Progress}

theorem Shared.Tended.symm (h : s.Tended mine others) : s.Tended others mine :=
  ⟨h.alone, fun hstop c hc => (h.held hstop c hc).imp_right Or.symm⟩

theorem Shared.Tended.reap (h : s.Tended mine others)
    (a : Nat) : (s.reap a).Tended mine others := by
  have hruns : ∀ c, (s.reap a).runs c = true → s.runs c = true := by
    intro c hc
    rw [runs_reap, Bool.and_eq_true] at hc
    exact hc.1
  exact ⟨fun c d hc hd => h.alone c d (hruns c hc) (hruns d hd),
    fun hstop c hc => h.held hstop c (hruns c hc)⟩

theorem Shared.Tended.stopped {t : Shared} {mine' others' : Option Nat} (h : s.Tended mine others)
    (hchildren : t.children = s.children) (hstop : t.stop = true) :
    t.Tended mine' others' := by
  have hruns : ∀ c, t.runs c = s.runs c := fun c => by rw [Shared.runs, Shared.runs, hchildren]
  refine ⟨fun c d hc hd => h.alone c d ((hruns c).symm.trans hc) ((hruns d).symm.trans hd), ?_⟩
  intro hnot
  rw [hstop] at hnot
  cases hnot

theorem Shared.Tended.restart {p : Party} (h : s.Tended r.flight others) (hknows : r.Knows s)
    (hactive : r.active = true → s.stop = false) (halone : r.holds = true → others = none)
    (hstep : r.step p s o = some (s', next)) : s'.Tended next.flight others ∧ next.Knows s' := by
  unfold Restart.step at hstep
  split at hstep
  case h_1 =>
    split at hstep <;> cases hstep
    exact ⟨⟨h.alone, h.held⟩, trivial⟩
  case h_2 old =>
    split at hstep
    · cases hstep
      exact ⟨h, trivial⟩
    · rename_i hcond
      have hproc : s.procRef = old := by
        by_contra hne
        exact hcond (.inr hne)
      cases old with
      | some child =>
        cases hstep
        exact ⟨h, hproc⟩
      | none =>
        cases hstep
        exact ⟨h, trivial⟩
  case h_3 old =>
    cases hstep
    refine ⟨h.reap old, ?_⟩
    -- the only child that may run is the one that has been stopped
    intro c
    rw [runs_reap]
    cases hc : s.runs c with
    | false => rfl
    | true =>
      have hold : c = old := by
        rcases h.held (hactive rfl) c hc with hproc | hflight | hother
        · rw [show s.procRef = some old from hknows] at hproc
          exact (Option.some.inj hproc).symm
        · cases hflight
        · rw [halone rfl] at hother
          cases hother
      rw [hold]
      simp
  case h_4 =>
    cases hstep
    exact ⟨h, trivial⟩
  case h_5 =>
    cases hstep
    cases s.stop with
    | true => exact ⟨h, trivial⟩
    | false => exact ⟨h, hknows⟩
  case h_6 =>
    cases hstep
    have hnew : ∀ c, s.start.runs c = true → c = s.children.length := by
      intro c hc
      rw [runs_start, show s.runs c = false from hknows c] at hc
      simpa using hc
    refine ⟨⟨fun c d hc hd => (hnew c hc).trans (hnew d hd).symm, ?_⟩, hnew⟩
    intro hstop c hc
    exact .inr (.inl (congrArg some (hnew c hc).symm))
  case h_7 =>
    cases hstep
    exact ⟨h, trivial⟩
  case h_8 child =>
    cases hstep
    refine ⟨⟨h.alone, fun hstop c hc => .inl ?_⟩, trivial⟩
    exact congrArg some (hknows c hc).symm
  case h_9 =>
    cases hstep
    exact ⟨⟨h.alone, h.held⟩, trivial⟩
  case h_10 => cases hstep

theorem restart_outside {p : Party} (hout : r.holds = false)
    (hstep : r.step p s o = some (s', next)) :
    s'.children = s.children ∧ s'.procRef = s.procRef := by
  cases r with
  | enter old =>
    unfold Restart.step at hstep
    split at hstep <;> first | contradiction | skip
    split at hstep <;> cases hstep
    exact ⟨rfl, rfl⟩
  | _ => cases hout

theorem watchdog_outside {w w' : Watchdog} (hout : w.holds = false)
    (hstep : w.step s o = some (s', w')) :
    s'.children = s.children ∧ s'.procRef = s.procRef := by
  unfold Watchdog.step at hstep
  split at hstep
  case h_8 current r o =>
    obtain ⟨⟨t, next⟩, hr, heq⟩ := map_eq_some_iff.mp hstep
    cases heq
    exact restart_outside hout hr
  case h_10 =>
    split at hstep <;> cases hstep
    exact ⟨rfl, rfl⟩
  case h_17 => cases hstep
  all_goals
    cases hstep
    first
      | exact ⟨rfl, rfl⟩
      | cases hout

theorem supervisor_outside {v v' : Supervisor} (hout : v.holds = false)
    (hstep : v.step s o = some (s', v')) :
    s'.children = s.children ∧ s'.procRef = s.procRef := by
  unfold Supervisor.step at hstep
  split at hstep
  case h_14 b r o =>
    obtain ⟨⟨t, next⟩, hr, heq⟩ := map_eq_some_iff.mp hstep
    cases heq
    exact restart_outside hout hr
  case h_2 | h_15 =>
    split at hstep <;> cases hstep
    exact ⟨rfl, rfl⟩
  case h_7 =>
    split at hstep <;> cases hstep
    exact ⟨rfl, rfl⟩
  case h_23 => cases hstep
  all_goals
    cases hstep
    first
      | exact ⟨rfl, rfl⟩
      | cases hout

/-- One child, what each thread relies on, and no `proc_ref` after the final block. -/
structure State.Tended (s : State) : Prop where
  children : s.shared.Tended s.watchdog.flight s.supervisor.flight
  watchdog : s.watchdog.Knows s.shared
  supervisor : s.supervisor.Knows s.shared
  cleared : s.supervisor.cleared = true → s.shared.procRef = none

theorem supervisor_cleared_stopping {v : Supervisor} (h : v.cleared = true) :
    v.stopping = true := by
  cases v <;> first | rfl | cases h

theorem Shared.Tended.watchdog {s' : Shared} {w w' : Watchdog} (h : s.Tended w.flight others)
    (hknows : w.Knows s) (hactive : w.active = true → s.stop = false)
    (hpublishing : w.publishing = true → s.stop = true) (halone : w.holds = true → others = none)
    (hstep : w.step s o = some (s', w')) :
    s'.Tended w'.flight others ∧ w'.Knows s' := by
  unfold Watchdog.step at hstep
  split at hstep
  case h_8 current r o =>
    obtain ⟨⟨t, next⟩, hr, heq⟩ := map_eq_some_iff.mp hstep
    cases heq
    have hnext := h.restart hknows hactive halone hr
    cases next <;> exact hnext
  case h_10 =>
    split at hstep <;> cases hstep
    exact ⟨⟨h.alone, h.held⟩, trivial⟩
  case h_11 =>
    cases hstep
    exact ⟨h.stopped rfl rfl, trivial⟩
  case h_13 child =>
    cases hstep
    exact ⟨h.reap child, trivial⟩
  case h_15 =>
    cases hstep
    exact ⟨h.stopped rfl (hpublishing rfl), trivial⟩
  case h_17 => cases hstep
  all_goals
    cases hstep
    first
      | exact ⟨⟨h.alone, h.held⟩, trivial⟩
      | split <;> exact ⟨⟨h.alone, h.held⟩, trivial⟩

theorem Shared.Tended.supervisor {s' : Shared} {v v' : Supervisor} (h : s.Tended v.flight others)
    (hknows : v.Knows s) (hactive : v.active = true → s.stop = false)
    (hstopping : v.stopping = true → s.stop = true) (halone : v.holds = true → others = none)
    (hstep : v.step s o = some (s', v')) :
    s'.Tended v'.flight others ∧ v'.Knows s' := by
  unfold Supervisor.step at hstep
  split at hstep
  case h_14 b r o =>
    obtain ⟨⟨t, next⟩, hr, heq⟩ := map_eq_some_iff.mp hstep
    cases heq
    have hnext := h.restart hknows hactive halone hr
    cases next with
    | goes r => exact hnext
    | finished raised => cases raised <;> exact hnext
  case h_2 | h_15 =>
    split at hstep <;> cases hstep
    exact ⟨⟨h.alone, h.held⟩, trivial⟩
  case h_7 =>
    split at hstep <;> cases hstep
    exact ⟨h, trivial⟩
  case h_16 =>
    cases hstep
    exact ⟨h.stopped rfl rfl, trivial⟩
  case h_18 raised child =>
    cases hstep
    exact ⟨h.reap child, trivial⟩
  case h_20 =>
    cases hstep
    exact ⟨h.stopped rfl (hstopping rfl), trivial⟩
  case h_23 => cases hstep
  all_goals
    cases hstep
    first
      | exact ⟨⟨h.alone, h.held⟩, trivial⟩
      | split <;> exact ⟨⟨h.alone, h.held⟩, trivial⟩

theorem watchdog_proc_ref {s' : Shared} {w w' : Watchdog}
    (hactive : w.active = true → s.stop = false) (hstop : s.stop = true) (hnone : s.procRef = none)
    (hstep : w.step s o = some (s', w')) : s'.procRef = none := by
  unfold Watchdog.step at hstep
  split at hstep
  case h_8 current r o =>
    obtain ⟨⟨t, next⟩, hr, heq⟩ := map_eq_some_iff.mp hstep
    cases heq
    unfold Restart.step at hr
    split at hr
    case h_1 =>
      split at hr <;> cases hr
      exact hnone
    case h_2 =>
      split at hr
      · cases hr
        exact hnone
      · split at hr <;> cases hr <;> exact hnone
    case h_8 =>
      have hset := hactive rfl
      rw [hstop] at hset
      cases hset
    case h_10 => cases hr
    all_goals
      cases hr
      exact hnone
  case h_10 =>
    split at hstep <;> cases hstep
    exact hnone
  case h_17 => cases hstep
  all_goals
    cases hstep
    first
      | exact hnone
      | rfl

theorem supervisor_cleared {s' : Shared} {v v' : Supervisor}
    (hcleared : v.cleared = true → s.procRef = none) (hstep : v.step s o = some (s', v'))
    (hnext : v'.cleared = true) : s'.procRef = none := by
  unfold Supervisor.step at hstep
  split at hstep
  case h_14 b r o =>
    obtain ⟨⟨t, next⟩, hr, heq⟩ := map_eq_some_iff.mp hstep
    cases heq
    cases next with
    | goes r => cases hnext
    | finished raised => cases raised <;> cases hnext
  case h_17 =>
    cases hstep
    cases hproc : s.procRef with
    | none => rfl
    | some child =>
      rw [hproc] at hnext
      cases hnext
  case h_2 | h_7 | h_15 =>
    split at hstep <;> cases hstep
    cases hnext
  case h_20 =>
    cases hstep
    rfl
  case h_21 | h_22 =>
    cases hstep
    exact hcleared rfl
  case h_23 => cases hstep
  all_goals
    cases hstep
    first
      | cases hnext
      | (split at hnext <;> cases hnext)

theorem State.Tended.step {s s' : State} {a : Action} (hl : s.Locked) (hf : s.Flagged)
    (h : s.Tended) (hstep : s.step a = some s') : s'.Tended := by
  cases State.steps_of_step hstep with
  | @exit child _ =>
    refine ⟨h.children.reap child, ?_, ?_, h.cleared⟩
    · obtain ⟨s, w, v⟩ := s
      cases w with
      | restarting current r => exact Restart.Knows.reap h.watchdog child
      | _ => trivial
    · obtain ⟨s, w, v⟩ := s
      cases v with
      | restarting b r => exact Restart.Knows.reap h.supervisor child
      | _ => trivial
  | watchdog hmoved =>
    have hkept := h.children.watchdog h.watchdog hf.watchdogActive
      (fun hw => (hf.published _ (some_get (hf.publishing hw)).symm).1)
      (fun hw => supervisor_flight_outside (hl.exclusive hw)) hmoved
    refine ⟨hkept.1, hkept.2, ?_, fun hv => ?_⟩
    · cases hw : s.watchdog.holds with
      | true => exact supervisor_knows_outside (hl.exclusive hw)
      | false =>
        obtain ⟨hchildren, hproc⟩ := watchdog_outside hw hmoved
        have hknows := h.supervisor
        dsimp only
        cases hv : s.supervisor with
        | restarting b r =>
          rw [hv] at hknows
          exact Restart.Knows.congr hknows hchildren hproc
        | _ => trivial
    · exact watchdog_proc_ref hf.watchdogActive
        (hf.stopping (supervisor_cleared_stopping hv)) (h.cleared hv) hmoved
  | supervisor hmoved =>
    have hexclusive : s.supervisor.holds = true → s.watchdog.holds = false := by
      intro hv
      cases hw : s.watchdog.holds with
      | false => rfl
      | true => rw [← hv, hl.exclusive hw]
    have hkept := h.children.symm.supervisor h.supervisor hf.supervisorActive hf.stopping
      (fun hv => watchdog_flight_outside (hexclusive hv)) hmoved
    refine ⟨hkept.1.symm, ?_, hkept.2, supervisor_cleared h.cleared hmoved⟩
    cases hv : s.supervisor.holds with
    | true => exact watchdog_knows_outside (hexclusive hv)
    | false =>
      obtain ⟨hchildren, hproc⟩ := supervisor_outside hv hmoved
      have hknows := h.watchdog
      dsimp only
      cases hw : s.watchdog with
      | restarting current r =>
        rw [hw] at hknows
        exact Restart.Knows.congr hknows hchildren hproc
      | _ => trivial

theorem tended_initial (spc : String) : (State.initial spc).Tended where
  children := by
    have hruns : ∀ c, (State.initial spc).shared.runs c = true → c = 0 := by
      intro c hc
      have hlt := lt_of_runs hc
      exact Nat.lt_one_iff.mp hlt
    exact ⟨fun c d hc hd => (hruns c hc).trans (hruns d hd).symm,
      fun _ c hc => .inl (congrArg some (hruns c hc).symm)⟩
  watchdog := trivial
  supervisor := trivial
  cleared := nofun

/-! ## Reachable states -/

/-- What holds in every reachable state. -/
structure State.Sound (s : State) : Prop where
  locked : s.Locked
  flagged : s.Flagged
  tended : s.Tended

theorem State.Sound.step {s s' : State} {a : Action} (h : s.Sound) (hstep : s.step a = some s') :
    s'.Sound :=
  ⟨h.locked.step hstep, h.flagged.step h.locked hstep, h.tended.step h.locked h.flagged hstep⟩

theorem sound_initial (spc : String) : (State.initial spc).Sound :=
  ⟨locked_initial spc, flagged_initial spc, tended_initial spc⟩

end AwsOps.Steampipe

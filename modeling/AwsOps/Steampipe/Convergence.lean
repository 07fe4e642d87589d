import AwsOps.Foundation.Runs
import AwsOps.Steampipe.Freshness

/-!
# Convergence to the accepted scope

Once the watchdog has published `stop`, every step lowers a rank, so no run goes on for ever, and
a thread can always take a step until the process has exited with code 1, unless the supervisor
waits for a child that still runs. Before, the children follow the scope of the watchdog in every
run that does not lose a restart.
-/

namespace AwsOps.Steampipe

open List Runs Option Supervisor

/-! ## The rank -/

/-- The number of running children. -/
def Shared.running (s : Shared) : Nat :=
  s.children.countP Child.running

theorem running_reap_le (s : Shared) (a : Nat) : (s.reap a).running ≤ s.running := by
  obtain ⟨file, writes, children, procRef, lock, stop, fatal, published⟩ := s
  unfold Shared.running Shared.reap
  dsimp only
  induction children generalizing a with
  | nil => simp
  | cons c cs ih =>
    cases a with
    | zero =>
      rw [modify_zero_cons, countP_cons, countP_cons]
      simp
    | succ a =>
      rw [modify_succ_cons, countP_cons, countP_cons]
      have hrest := ih a
      omega

variable {s : Shared} {o : Outcome} {n : Nat}

theorem running_reap_lt {a : Nat} (h : s.runs a = true) : (s.reap a).running < s.running := by
  obtain ⟨file, writes, children, procRef, lock, stop, fatal, published⟩ := s
  unfold Shared.running Shared.reap
  unfold Shared.runs at h
  dsimp only at h ⊢
  induction children generalizing a with
  | nil => cases h
  | cons c cs ih =>
    cases a with
    | zero =>
      have hc : c.running = true := h
      rw [modify_zero_cons, countP_cons, countP_cons]
      simp [hc]
    | succ a =>
      rw [modify_succ_cons, countP_cons, countP_cons]
      have hrest := ih (a := a) h
      omega

/-- How far a call is from returning, once `stop` is set. -/
def Restart.rank : Restart → Nat
  | .enter _ => 14
  | .check _ => 13
  | _ => 12

/-- How far the supervisor is from its end after a step of its call. -/
def Progress.rank : Progress → Nat
  | .goes r => r.rank
  | .finished _ => 11

/-- How far the watchdog is from its end, once it has published `stop`. -/
def Watchdog.rank : Watchdog → Nat
  | .inspect => 4
  | .terminate _ => 3
  | .clear => 2
  | .release => 1
  | _ => 0

/-- How far the supervisor is from its end, once `stop` is set. -/
def Supervisor.rank : Supervisor → Nat
  | .read _ => 22
  | .leave .. => 21
  | .waiting .. => 20
  | .stopTest .. => 19
  | .compare .. => 18
  | .measure .. => 17
  | .backoff .. => 16
  | .stamp .. => 15
  | .restarting _ r => r.rank
  | .test _ => 11
  | .acquire _ => 10
  | .inside _ => 9
  | .breakInside => 8
  | .finalAcquire _ => 7
  | .finalStop _ => 6
  | .finalInspect _ => 5
  | .finalTerminate .. => 4
  | .finalClear _ => 3
  | .finalRelease _ => 2
  | .finalTest _ => 1
  | .exited _ => 0

/-- How far the process is from its end. -/
def State.rank (s : State) : Nat :=
  s.shared.running + s.watchdog.rank + s.supervisor.rank

theorem watchdog_rank {s' : Shared} {w w' : Watchdog} (hpublishing : w.publishing = true)
    (hstep : w.step s o = some (s', w')) :
    s'.running ≤ s.running ∧ w'.rank < w.rank ∧ s'.published = s.published := by
  unfold Watchdog.step at hstep
  split at hstep
  case h_12 =>
    cases hstep
    refine ⟨Nat.le_refl _, ?_, rfl⟩
    split <;> simp [Watchdog.rank]
  case h_13 child =>
    cases hstep
    exact ⟨running_reap_le s child, by simp [Watchdog.rank], rfl⟩
  case h_14 | h_15 | h_16 =>
    cases hstep
    exact ⟨Nat.le_refl _, by simp [Watchdog.rank], rfl⟩
  case h_17 => cases hstep
  all_goals cases hpublishing

theorem restart_rank {p : Party} {s' : Shared} {r : Restart} {next : Progress}
    (hstop : s.stop = true) (hactive : r.active = false) (hstep : r.step p s o = some (s', next)) :
    s'.running = s.running ∧ next.rank < r.rank := by
  unfold Restart.step at hstep
  split at hstep
  case h_1 =>
    split at hstep <;> cases hstep
    exact ⟨rfl, by simp [Progress.rank, Restart.rank]⟩
  case h_2 =>
    split at hstep
    · cases hstep
      exact ⟨rfl, by simp [Progress.rank, Restart.rank]⟩
    · rename_i hcond
      exact absurd (.inl hstop) hcond
  case h_9 =>
    cases hstep
    exact ⟨rfl, by simp [Progress.rank, Restart.rank]⟩
  case h_10 => cases hstep
  all_goals cases hactive

theorem supervisor_rank {s' : Shared} {v v' : Supervisor} (hstop : s.stop = true)
    (hactive : v.active = false) (hstep : v.step s o = some (s', v')) :
    s'.running ≤ s.running ∧ v'.rank < v.rank := by
  unfold step at hstep
  split at hstep
  case h_14 b r =>
    obtain ⟨⟨t, next⟩, hr, heq⟩ := map_eq_some_iff.mp hstep
    cases heq
    obtain ⟨hrunning, hrank⟩ := restart_rank hstop hactive hr
    refine ⟨Nat.le_of_eq hrunning, ?_⟩
    cases next with
    | goes r' => exact hrank
    | finished raised =>
      have hover : 11 < r.rank := hrank
      cases raised
      · exact hover
      · show 7 < r.rank
        omega
  case h_2 | h_7 | h_15 =>
    split at hstep <;> cases hstep
    exact ⟨Nat.le_refl _, by simp [rank]⟩
  case h_18 raised child =>
    cases hstep
    exact ⟨running_reap_le s child, by simp [rank]⟩
  case h_23 => cases hstep
  all_goals
    cases hstep
    refine ⟨Nat.le_refl _, ?_⟩
    first
      | (simp [rank, Restart.rank]; done)
      | (split <;> simp [rank])

theorem State.Sound.rank_step {s s' : State} {a : Action} (h : s.Sound)
    (hpublished : s.shared.published = some n) (hstep : s.step a = some s') :
    s'.rank < s.rank := by
  obtain ⟨hstop, -, -, hw⟩ := h.flagged.published n hpublished
  unfold State.rank
  cases State.steps_of_step hstep with
  | exit hruns =>
    have hlower := running_reap_lt hruns
    dsimp only
    omega
  | watchdog hmoved =>
    rcases hw with hpublishing | hended
    · have hlower := watchdog_rank hpublishing hmoved
      dsimp only
      omega
    · rw [hended] at hmoved
      cases hmoved
  | supervisor hmoved =>
    have hactive : s.supervisor.active = false := by
      cases hactive : s.supervisor.active with
      | false => rfl
      | true => exact absurd ((h.flagged.supervisorActive hactive).symm.trans hstop) (by decide)
    have hlower := supervisor_rank hstop hactive hmoved
    dsimp only
    omega

theorem State.Sound.published_step {s s' : State} {a : Action} (h : s.Sound)
    (hpublished : s.shared.published = some n) (hstep : s.step a = some s') :
    s'.shared.published = some n := by
  cases State.steps_of_step hstep with
  | exit _ => exact hpublished
  | watchdog hmoved =>
    rcases (h.flagged.published n hpublished).2.2.2 with hpublishing | hended
    · exact (watchdog_rank hpublishing hmoved).2.2.trans hpublished
    · rw [hended] at hmoved
      cases hmoved
  | supervisor hmoved =>
    exact (supervisor_keeps hmoved).published.trans hpublished

/-! ## No thread is stuck -/

/-- Neither thread can take a step. -/
def State.Stuck (s : State) : Prop :=
  ∀ o, s.step (.watchdog o) = none ∧ s.step (.supervisor o) = none

theorem restart_goes {p : Party} {r : Restart}
    (hfree : r.holds = false → s.lock = none) : (r.step p s .ok).isSome = true := by
  cases r with
  | enter old =>
    simp [Restart.step, hfree rfl]
  | check old =>
    simp only [Restart.step]
    split
    · rfl
    · cases old <;> rfl
  | _ => rfl

theorem supervisor_goes {v : Supervisor} (hexited : v.isExited = false)
    (hfree : v.holds = false → s.lock = none) :
    (∃ o, (v.step s o).isSome = true) ∨ ∃ b c, v = .waiting b (some c) ∧ s.runs c = true := by
  cases v with
  | acquire b | finalAcquire raised =>
    refine .inl ⟨.ok, ?_⟩
    simp [step, hfree rfl]
  | waiting b current =>
    cases current with
    | none => exact .inl ⟨.ok, rfl⟩
    | some c =>
      cases hc : s.runs c with
      | true => exact .inr ⟨b, c, rfl, hc⟩
      | false =>
        refine .inl ⟨.ok, ?_⟩
        simp [step, hc]
  | measure b current | stamp b current => exact .inl ⟨.time 0, rfl⟩
  | restarting b r =>
    refine .inl ⟨.ok, ?_⟩
    simp only [step, isSome_map]
    exact restart_goes hfree
  | exited code => cases hexited
  | _ => exact .inl ⟨.ok, rfl⟩

/-- Where no thread can take a step after the watchdog has published `stop`, the process has
exited with code 1, or it waits for a child that still runs. -/
theorem State.Sound.stuck {s : State} (h : s.Sound) (hpublished : s.shared.published = some n)
    (hstuck : s.Stuck) :
    s.supervisor = .exited 1 ∨ ∃ b c, s.watchdog = .ended ∧ s.supervisor = .waiting b (some c) ∧
      s.shared.runs c = true := by
  cases hexited : s.supervisor.isExited with
  | true =>
    left
    cases hv : s.supervisor with
    | exited code => rw [h.flagged.exited code hv]
    | _ =>
      rw [hv] at hexited
      cases hexited
  | false =>
    right
    -- the watchdog has come to its end, so it does not hold the lock
    have hw : s.watchdog = .ended := by
      rcases (h.flagged.published n hpublished).2.2.2 with hpublishing | hended
      · have hnone := (hstuck .ok).1
        unfold State.step at hnone
        rw [hexited] at hnone
        cases hw : s.watchdog <;> rw [hw] at hnone hpublishing <;>
          first
            | (cases hpublishing; done)
            | cases hnone
      · exact hended
    have hfree : s.supervisor.holds = false → s.shared.lock = none := by
      intro hv
      cases hlock : s.shared.lock with
      | none => rfl
      | some p =>
        cases p with
        | watchdog =>
          have hholds := h.locked.watchdog.mp hlock
          rw [hw] at hholds
          cases hholds
        | supervisor =>
          exact absurd ((h.locked.supervisor.mp hlock).symm.trans hv) (by decide)
    rcases supervisor_goes hexited hfree with ⟨o, hgoes⟩ | ⟨b, c, hv, hc⟩
    · have hnone := (hstuck o).2
      unfold State.step at hnone
      rw [map_eq_none_iff.mp hnone] at hgoes
      cases hgoes
    · exact ⟨b, c, hw, hv, hc⟩

/-! ## Convergence -/

/-- At most one child runs. After the watchdog has published `stop`, no child is started, no run
goes on for ever, and the threads come to a stand only when the process has exited with code 1.
When the watchdog waits and no restart is in progress, the file holds the text in `current` and the
child in `proc_ref` was started after it was written. -/
structure State.Converges (s : State) : Prop where
  alone : ∀ c d, s.shared.runs c = true → s.shared.runs d = true → c = d
  ends : ∀ n, s.shared.published = some n →
    s.shared.children.length = n ∧
      (∃ bound, ∀ as t, run State.step s as = some t → as.length ≤ bound) ∧
      (s.Stuck → s.supervisor = .exited 1)
  settled : ∀ current, s.watchdog = .wait current → (∀ b r, s.supervisor ≠ .restarting b r) →
    s.shared.file = current ∧
      ∀ c, s.shared.procRef = some c → s.shared.stale c = false

theorem State.Sound.bounded {s t : State} (h : s.Sound) (hpublished : s.shared.published = some n)
    {as : List Action} (hrun : run State.step s as = some t) : as.length ≤ s.rank := by
  refine length_le_rank (I := fun s => s.Sound ∧ s.shared.published = some n) ?_ ?_
    ⟨h, hpublished⟩ hrun
  · intro s a t hs hstep
    exact ⟨hs.1.step hstep, hs.1.published_step hs.2 hstep⟩
  · intro s a t hs hstep
    exact hs.1.rank_step hs.2 hstep

theorem State.Sound.converges {s : State} (h : s.Sound) (hfresh : s.Fresh) : s.Converges where
  alone := h.tended.children.alone
  ends n hpublished := by
    refine ⟨(h.flagged.published n hpublished).2.2.1,
      ⟨s.rank, fun as t hrun => h.bounded hpublished hrun⟩, ?_⟩
    intro hstuck
    rcases h.stuck hpublished hstuck with hexited | ⟨b, c, hw, hv, hc⟩
    · exact hexited
    · have hleaves := hfresh.remains (isSome_iff_exists.mpr ⟨n, hpublished⟩)
        (by rw [hv]; rfl) c hc
      rw [hw] at hleaves
      cases hleaves
  settled current hw _ := by
    refine ⟨hfresh.file current (by rw [hw]; rfl), ?_⟩
    intro c hproc
    cases hs : s.shared.stale c with
    | false => rfl
    | true =>
      have hallows := hfresh.held c hproc hs
      rw [hw] at hallows
      cases hallows

/-- In every run whose steps do not lose a restart, every state converges. -/
theorem supervisor_converges {spc : String} {as : List Action} {s : State}
    (htimely : Meets State.step State.Timely (State.initial spc) as)
    (hrun : run State.step (State.initial spc) as = some s) : s.Converges := by
  have hkept : s.Sound ∧ s.Fresh :=
    run_keeps (I := fun s => s.Sound ∧ s.Fresh)
      (fun s a t hs hmeets hstep => ⟨hs.1.step hstep, hs.2.step hs.1 hmeets hstep⟩)
      ⟨sound_initial spc, fresh_initial spc⟩ htimely hrun
  exact hkept.1.converges hkept.2

/-- The watchdog restarts the child with the scope `b` and later meets a scope that the host does
not accept; the supervisor ends the process. -/
def rejectedScope : List Action :=
  List.flatten
    [[.watchdog .ok, .watchdog (.scope "b")], List.replicate 11 (.watchdog .ok),
      [.watchdog .hostScopeError], List.replicate 7 (.watchdog .ok),
      List.replicate 6 (.supervisor .ok)]

theorem supervisor_converges_rejected_scope :
    ∃ s, run State.step (State.initial "a") rejectedScope = some s ∧ s.supervisor = .exited 1 ∧
      s.Converges :=
  ⟨(run State.step (State.initial "a") rejectedScope).get (by decide +kernel),
    (some_get _).symm, by decide +kernel,
    supervisor_converges (by decide +kernel) (some_get _).symm⟩

/-- The child exits, and the supervisor starts the next one with the old file. Before it is stored,
the watchdog writes the scope `b` and reads `proc_ref`. -/
def lostRestart : List Action :=
  List.flatten
    [List.replicate 5 (.supervisor .ok), [.exit 0], List.replicate 3 (.supervisor .ok),
      List.replicate 2 (.supervisor (.time 100000000)), List.replicate 5 (.supervisor .ok),
      [.watchdog .ok, .watchdog (.scope "b")], List.replicate 3 (.watchdog .ok),
      List.replicate 2 (.supervisor .ok), List.replicate 3 (.watchdog .ok)]

/-- The watchdog waits with the scope `b`, and the running child was started before it. -/
theorem supervisor_loses_restart :
    ¬ ∀ spc as s, run State.step (State.initial spc) as = some s → s.Converges := by
  intro h
  have hrun : ∃ s, run State.step (State.initial "a") lostRestart = some s ∧
      s.watchdog = .wait "b" ∧ s.supervisor = .test ⟨0, 100000000⟩ ∧ s.shared.procRef = some 1 ∧
      s.shared.stale 1 = true :=
    ⟨(run State.step (State.initial "a") lostRestart).get (by decide +kernel),
      (some_get _).symm, by decide +kernel⟩
  obtain ⟨s, hs, hw, hv, hproc, hstale⟩ := hrun
  have hnot := ((h "a" lostRestart s hs).settled "b" hw (by rw [hv]; exact nofun)).2 1 hproc
  rw [hstale] at hnot
  cases hnot

/-! ## What holds in every run -/

/-- The threads are not in their critical sections together. At most one child runs, and before
`stop` is set it is in `proc_ref` or in the hands of a thread. After the watchdog has published
`stop`, no child is started and no run goes on for ever; the threads come to a stand only when the
process has exited or waits for a child that runs. It exits with code 1. -/
structure State.Safe (s : State) : Prop where
  exclusive : s.watchdog.holds = false ∨ s.supervisor.holds = false
  alone : ∀ c d, s.shared.runs c = true → s.shared.runs d = true → c = d
  known : s.shared.stop = false → ∀ c, s.shared.runs c = true →
    s.shared.procRef = some c ∨ s.watchdog.flight = some c ∨ s.supervisor.flight = some c
  ends : ∀ n, s.shared.published = some n →
    s.shared.stop = true ∧ s.shared.children.length = n ∧
      (∀ as t, run State.step s as = some t → t.shared.children.length = n ∧ as.length ≤ s.rank) ∧
      (s.Stuck → s.supervisor = .exited 1 ∨ ∃ b c, s.watchdog = .ended ∧
        s.supervisor = .waiting b (some c) ∧ s.shared.runs c = true)
  code : ∀ code, s.supervisor = .exited code → code = 1

theorem State.Sound.published_run {s t : State} (h : s.Sound)
    (hpublished : s.shared.published = some n) {as : List Action}
    (hrun : run State.step s as = some t) : t.shared.children.length = n := by
  have hkept : t.Sound ∧ t.shared.published = some n :=
    run_always (I := fun s => s.Sound ∧ s.shared.published = some n)
      (fun s a t hs hstep => ⟨hs.1.step hstep, hs.1.published_step hs.2 hstep⟩)
      ⟨h, hpublished⟩ hrun
  exact (hkept.1.flagged.published n hkept.2).2.2.1

theorem State.Sound.safe {s : State} (h : s.Sound) : s.Safe where
  exclusive := by
    cases hw : s.watchdog.holds with
    | false => exact .inl rfl
    | true => exact .inr (h.locked.exclusive hw)
  alone := h.tended.children.alone
  known := h.tended.children.held
  ends n hpublished :=
    have hflags := h.flagged.published n hpublished
    ⟨hflags.1, hflags.2.2.1,
      fun _ _ hrun => ⟨h.published_run hpublished hrun, h.bounded hpublished hrun⟩,
      h.stuck hpublished⟩
  code := h.flagged.exited

end AwsOps.Steampipe

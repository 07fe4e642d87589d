import AwsOps.Steampipe.Children

/-!
# The scope of the running child

The file holds the scope of `current`, and the child in `proc_ref` was started after it was
written, unless a step loses the restart. When the watchdog reads `proc_ref`, the supervisor may
have a child in flight that was started before the write: its store makes the watchdog's restart
return without a restart. And when the watchdog fails to stop the child, `current` has already
moved on, so the restart is not tried again.
-/

namespace AwsOps.Steampipe

open Option Bool Shared Supervisor

/-! ## Stale children -/

/-- The child runs and was started before the last write of the file. -/
def Shared.stale (s : Shared) (child : Nat) : Bool :=
  s.children[child]?.any fun c => c.running && decide (c.generation ≠ s.writes)

theorem runs_of_stale {s : Shared} {c : Nat} (h : s.stale c = true) : s.runs c = true := by
  unfold stale at h
  unfold runs
  cases hc : s.children[c]? with
  | none =>
    rw [hc] at h
    cases h
  | some child =>
    rw [hc] at h
    simp only [any_some, and_eq_true] at h
    exact h.1

theorem stale_reap (s : Shared) (a c : Nat) :
    (s.reap a).stale c = (s.stale c && decide (c ≠ a)) := by
  unfold stale reap
  rw [List.getElem?_modify]
  by_cases h : a = c
  · cases s.children[c]? <;> simp [h]
  · cases s.children[c]? <;> simp [h, Ne.symm h]

theorem stale_of_reap {s : Shared} {a c : Nat} (h : (s.reap a).stale c = true) :
    s.stale c = true := by
  rw [stale_reap, and_eq_true] at h
  exact h.1

theorem stale_start (s : Shared) (c : Nat) : s.start.stale c = s.stale c := by
  unfold stale start
  rcases Nat.lt_trichotomy c s.children.length with h | h | h
  · rw [List.getElem?_append_left h]
  · subst h
    simp
  · rw [List.getElem?_append_right (Nat.le_of_lt h), List.getElem?_eq_none (Nat.le_of_lt h)]
    have hpos : c - s.children.length ≠ 0 := by omega
    simp [hpos]

theorem stale_length (s : Shared) : s.stale s.children.length = false := by
  unfold stale
  rw [List.getElem?_eq_none (Nat.le_refl _)]
  rfl

/-! ## What each control point allows -/

/-- The call of the watchdog is about to stop this child. -/
def Restart.allows : Restart → Nat → Bool
  | .enter old, c | .check old, c => decide (old = some c)
  | .terminate old, c => decide (old = c)
  | _, _ => false

/-- The watchdog has written the file and not read `proc_ref` since. -/
def Watchdog.catching : Watchdog → Bool
  | .assign .. | .readOld _ => true
  | _ => false

/-- The child in `proc_ref` may be stale: the watchdog is about to replace it. -/
def Watchdog.allows : Watchdog → Nat → Bool
  | .restarting _ r, c => r.allows c
  | w, _ => w.catching

/-- The scope that the file holds. -/
def Watchdog.text : Watchdog → Option String
  | .wait current | .render current | .write current _ | .readOld current
  | .restarting current _ => some current
  | .assign _ new => some new
  | _ => none

/-- The children that may still run after the watchdog has published `stop`. -/
def Watchdog.leaves (s : Shared) : Watchdog → Nat → Bool
  | .inspect, c => decide (s.procRef = some c)
  | .terminate child, c => decide (c = child)
  | _, _ => false

theorem leaves_congr {s t : Shared} (hproc : t.procRef = s.procRef) (w : Watchdog) (c : Nat) :
    w.leaves t c = w.leaves s c := by
  cases w with
  | inspect => exact congrArg (fun held => decide (held = some c)) hproc
  | _ => rfl

/-- The scope of the watchdog reaches the file and the child. -/
structure State.Fresh (s : State) : Prop where
  file : ∀ text, s.watchdog.text = some text → s.shared.file = text
  held : ∀ c, s.shared.procRef = some c → s.shared.stale c = true → s.watchdog.allows c = true
  flight : ∀ c, s.supervisor.flight = some c → s.shared.stale c = true →
    s.watchdog.catching = true
  own : ∀ c, s.watchdog.flight = some c → s.shared.stale c = false
  remains : s.shared.published.isSome = true → s.supervisor.stopping = false →
    ∀ c, s.shared.runs c = true → s.watchdog.leaves s.shared c = true

/-- The step does not lose a restart: when the watchdog reads `proc_ref`, no stale child is in
flight, and a stop that fails leaves no child running. -/
def State.Timely (s : State) : Action → Prop
  | .watchdog .ok =>
    match s.watchdog with
    | .readOld _ => ∀ c ∈ s.supervisor.flight, s.shared.stale c = false
    | _ => True
  | .watchdog .error =>
    match s.watchdog with
    | .restarting _ (.terminate c) | .terminate c => s.shared.runs c = false
    | _ => True
  | _ => True

instance (s : State) (a : Action) : Decidable (s.Timely a) := by
  unfold State.Timely
  split <;> try infer_instance
  all_goals split <;> infer_instance

/-! ## Steps of the watchdog -/

theorem cleared_of_stopping {v : Supervisor} (hstopping : v.stopping = true)
    (hout : v.holds = false) : v.cleared = true := by
  cases v <;> simp_all [stopping, holds, cleared]

/-- The stale child that the watchdog is about to stop, after the step. -/
def Progress.allows : Progress → Nat → Bool
  | .goes r, c => r.allows c
  | .finished _, _ => false

theorem restart_fresh {p : Party} {s s' : Shared} {r : Restart} {o : Outcome} {next : Progress}
    (hheld : ∀ c, s.procRef = some c → s.stale c = true → r.allows c = true)
    (hown : ∀ c, r.flight = some c → s.stale c = false)
    (hstopped : r.holds = true → s.stop = true → s.procRef = none)
    (htimely : ∀ c, r = .terminate c → o = .error → s.runs c = false)
    (hstep : r.step p s o = some (s', next)) :
    (∀ c, s'.procRef = some c → s'.stale c = true → next.allows c = true) ∧
      (∀ c, next.flight = some c → s'.stale c = false) ∧
      (∀ c, s'.stale c = true → s.stale c = true) ∧ s'.file = s.file := by
  unfold Restart.step at hstep
  split at hstep
  case h_1 =>
    split at hstep <;> cases hstep
    exact ⟨hheld, nofun, fun _ h => h, rfl⟩
  case h_2 old =>
    split at hstep
    · rename_i hcond
      cases hstep
      refine ⟨?_, nofun, fun _ h => h, rfl⟩
      intro c hproc hstale
      rcases hcond with hstop | hne
      · rw [hstopped rfl hstop] at hproc
        cases hproc
      · have hold : old = some c := of_decide_eq_true (hheld c hproc hstale)
        exact absurd (hproc.trans hold.symm) hne
    · cases old with
      | some child =>
        cases hstep
        refine ⟨?_, nofun, fun _ h => h, rfl⟩
        intro c hproc hstale
        have hold : some child = some c := of_decide_eq_true (hheld c hproc hstale)
        exact decide_eq_true (Option.some.inj hold)
      | none =>
        cases hstep
        refine ⟨?_, nofun, fun _ h => h, rfl⟩
        intro c hproc hstale
        have hold : none = some c := of_decide_eq_true (hheld c hproc hstale)
        cases hold
  case h_3 old =>
    cases hstep
    refine ⟨?_, nofun, fun _ h => stale_of_reap h, rfl⟩
    intro c hproc hstale
    have hold : old = c := of_decide_eq_true (hheld c hproc (stale_of_reap hstale))
    rw [stale_reap, hold] at hstale
    simp at hstale
  case h_4 old =>
    cases hstep
    refine ⟨?_, nofun, fun _ h => h, rfl⟩
    intro c hproc hstale
    have hold : old = c := of_decide_eq_true (hheld c hproc hstale)
    have hruns := runs_of_stale hstale
    rw [← hold, htimely old rfl rfl] at hruns
    cases hruns
  case h_5 =>
    cases hstep
    cases s.stop <;> exact ⟨hheld, nofun, fun _ h => h, rfl⟩
  case h_6 =>
    cases hstep
    have hkept : ∀ c, s.start.stale c = true → s.stale c = true := fun c hc => stale_start s c ▸ hc
    refine ⟨fun c hproc hstale => hheld c hproc (hkept c hstale), ?_, hkept, rfl⟩
    intro c hc
    cases hc
    exact (stale_start s _).trans (stale_length s)
  case h_7 =>
    cases hstep
    exact ⟨hheld, nofun, fun _ h => h, rfl⟩
  case h_8 child =>
    cases hstep
    refine ⟨?_, nofun, fun _ h => h, rfl⟩
    intro c hproc hstale
    have hfresh : s.stale c = false := hown c hproc
    exact absurd (hfresh.symm.trans hstale) (by decide)
  case h_9 =>
    cases hstep
    exact ⟨hheld, nofun, fun _ h => h, rfl⟩
  case h_10 => cases hstep

theorem State.Fresh.watchdog_quiet {s : State} (h : s.Fresh) {shared : Shared} {w : Watchdog}
    (hsame : shared.file = s.shared.file ∧ shared.writes = s.shared.writes ∧
      shared.children = s.shared.children ∧ shared.procRef = s.shared.procRef ∧
      shared.published = s.shared.published)
    (htext : ∀ text, w.text = some text → s.watchdog.text = some text)
    (hallows : ∀ c, s.shared.procRef = some c → s.watchdog.allows c = true → w.allows c = true)
    (hcatching : ∀ c, s.supervisor.flight = some c → s.shared.stale c = true →
      s.watchdog.catching = true → w.catching = true)
    (hown : w.flight = none)
    (hleaves : ∀ c, s.shared.runs c = true → s.watchdog.leaves s.shared c = true →
      w.leaves s.shared c = true) :
    State.Fresh { s with shared, watchdog := w } := by
  obtain ⟨hfile, hwrites, hchildren, hproc, hpublished⟩ := hsame
  have hstale : ∀ c, shared.stale c = s.shared.stale c := fun c => by
    rw [stale, stale, hchildren, hwrites]
  have hruns : ∀ c, shared.runs c = s.shared.runs c := fun c => by
    rw [runs, runs, hchildren]
  refine ⟨fun text ht => hfile.trans (h.file text (htext text ht)), ?_, ?_, ?_, ?_⟩
  · intro c hc hs
    rw [hproc] at hc
    exact hallows c hc (h.held c hc (hstale c ▸ hs))
  · intro c hc hs
    exact hcatching c hc (hstale c ▸ hs) (h.flight c hc (hstale c ▸ hs))
  · intro c hc
    rw [show w.flight = none from hown] at hc
    cases hc
  · intro hsome hstopping c hc
    rw [hpublished] at hsome
    rw [hruns c] at hc
    exact (leaves_congr hproc w c).trans (hleaves c hc (h.remains hsome hstopping c hc))

theorem State.Fresh.watchdog {s : State} (hsound : s.Sound) (h : s.Fresh) {o : Outcome}
    (htimely : s.Timely (.watchdog o)) {shared : Shared} {w : Watchdog}
    (hstep : s.watchdog.step s.shared o = some (shared, w)) :
    State.Fresh { s with shared, watchdog := w } := by
  obtain ⟨s, w₀, v⟩ := s
  dsimp only at hstep
  unfold Watchdog.step at hstep
  split at hstep
  case h_5 current new =>
    cases hstep
    refine ⟨?_, fun _ _ _ => rfl, fun _ _ _ => rfl, nofun, ?_⟩
    · rintro text ⟨⟩
      rfl
    · exact h.remains
  case h_7 current =>
    cases hstep
    refine h.watchdog_quiet ⟨rfl, rfl, rfl, rfl, rfl⟩ (fun _ ht => ht) ?_ ?_ rfl (fun _ _ hl => hl)
    · intro c hproc _
      exact decide_eq_true hproc
    · intro c hflight hstale _
      have hfresh : shared.stale c = false := htimely c hflight
      exact absurd (hfresh.symm.trans hstale) (by decide)
  case h_8 current r =>
    obtain ⟨⟨t, next⟩, hr, heq⟩ := map_eq_some_iff.mp hstep
    cases heq
    have hquiet : s.published = none := by
      cases hpublished : s.published with
      | none => rfl
      | some n =>
        rcases (hsound.flagged.published n hpublished).2.2.2 with hp | hp <;> cases hp
    have hstopped : r.holds = true → s.stop = true → s.procRef = none := by
      intro hholds hstop
      have hout : v.holds = false := hsound.locked.exclusive (by exact hholds)
      rcases hsound.flagged.stopped hstop with hsome | hstopping
      · rw [show s.published = none from hquiet] at hsome
        cases hsome
      · exact hsound.tended.cleared (cleared_of_stopping hstopping hout)
    have htimely' : ∀ c, r = .terminate c → o = .error → s.runs c = false := by
      intro c hr ho
      subst hr ho
      exact htimely
    obtain ⟨hheld, hown, hstale, hfile⟩ :=
      restart_fresh (r := r) h.held h.own hstopped htimely' hr
    have hpublished : shared.published = none :=
      (restart_flags (r := r) hsound.flagged.watchdogActive hr).2.2.1.trans hquiet
    refine ⟨fun text ht => ?_, ?_, ?_, ?_, ?_⟩
    · refine hfile.trans (h.file text ?_)
      cases next <;> exact ht
    · cases next <;> exact hheld
    · intro c hflight hs
      have hcatching := h.flight c hflight (hstale c hs)
      cases hcatching
    · cases next with
      | goes r => exact hown
      | finished raised => exact nofun
    · intro hsome
      rw [show shared.published = none from hpublished] at hsome
      cases hsome
  case h_11 =>
    cases hstep
    refine ⟨nofun, h.held, h.flight, nofun, ?_⟩
    intro _ hstopping c hc
    have hstop : s.stop = false := by
      cases hset : s.stop with
      | false => rfl
      | true =>
        rcases hsound.flagged.stopped hset with hsome | hstopping'
        · obtain ⟨n, hn⟩ := isSome_iff_exists.mp hsome
          rcases (hsound.flagged.published n hn).2.2.2 with hp | hp <;> cases hp
        · exact absurd (hstopping'.symm.trans hstopping) (by decide)
    rcases hsound.tended.children.held hstop c hc with hproc | hflight | hflight
    · exact decide_eq_true hproc
    · cases hflight
    · rw [show v.flight = none from supervisor_flight_outside (hsound.locked.exclusive rfl)]
        at hflight
      cases hflight
  case h_13 child =>
    cases hstep
    refine ⟨nofun, fun c hproc hs => h.held c hproc (stale_of_reap hs),
      fun c hf hs => h.flight c hf (stale_of_reap hs), nofun, ?_⟩
    intro hsome hstopping c hc
    rw [runs_reap, and_eq_true] at hc
    have hchild := of_decide_eq_true (h.remains hsome hstopping c hc.1)
    exact absurd hchild (of_decide_eq_true hc.2)
  case h_14 child =>
    cases hstep
    refine h.watchdog_quiet ⟨rfl, rfl, rfl, rfl, rfl⟩ nofun (fun _ _ ha => ha)
      (fun _ _ _ hc => hc) rfl ?_
    intro c hc hleaves
    rw [of_decide_eq_true hleaves] at hc
    exact absurd (Eq.symm (show shared.runs child = false from htimely) |>.trans hc) (by decide)
  case h_15 =>
    cases hstep
    exact ⟨nofun, nofun, h.flight, nofun, h.remains⟩
  case h_10 =>
    split at hstep <;> cases hstep
    exact h.watchdog_quiet ⟨rfl, rfl, rfl, rfl, rfl⟩ nofun (fun _ _ ha => ha)
      (fun _ _ _ hc => hc) rfl (fun _ _ hl => hl)
  case h_12 =>
    cases hstep
    cases hproc : shared.procRef with
    | none =>
      refine h.watchdog_quiet ⟨rfl, rfl, rfl, rfl, rfl⟩ nofun (fun _ _ ha => ha)
        (fun _ _ _ hc => hc) rfl ?_
      intro c _ hl
      have hheld := of_decide_eq_true hl
      rw [show shared.procRef = none from hproc] at hheld
      cases hheld
    | some child =>
      refine h.watchdog_quiet ⟨rfl, rfl, rfl, rfl, rfl⟩ nofun (fun _ _ ha => ha)
        (fun _ _ _ hc => hc) rfl ?_
      intro c _ hl
      have hheld := of_decide_eq_true hl
      rw [show shared.procRef = some child from hproc] at hheld
      exact decide_eq_true (Option.some.inj hheld).symm
  case h_17 => cases hstep
  all_goals
    cases hstep
    first
      | exact h.watchdog_quiet ⟨rfl, rfl, rfl, rfl, rfl⟩ (fun _ ht => by first | exact ht | cases ht)
          (fun _ _ ha => ha) (fun _ _ _ hc => hc) rfl (fun _ _ hl => hl)
      | (split <;>
          exact h.watchdog_quiet ⟨rfl, rfl, rfl, rfl, rfl⟩
            (fun _ ht => by first | exact ht | cases ht)
            (fun _ _ ha => ha) (fun _ _ _ hc => hc) rfl (fun _ _ hl => hl))

/-! ## Steps of the supervisor -/

theorem allows_of_catching {w : Watchdog} (h : w.catching = true) (c : Nat) :
    w.allows c = true := by
  cases w <;> first | exact h | cases h

/-- What a step of the supervisor does with stale children. -/
structure Shared.Keeps (s s' : Shared) (flight flight' : Option Nat) : Prop where
  file : s'.file = s.file
  published : s'.published = s.published
  stale : ∀ c, s'.stale c = true → s.stale c = true
  held : ∀ c, s'.procRef = some c → s.procRef = some c ∨ flight = some c
  flight : ∀ c, flight' = some c → s'.stale c = true → flight = some c

theorem restart_keeps {p : Party} {s s' : Shared} {r : Restart} {o : Outcome} {next : Progress}
    (hstep : r.step p s o = some (s', next)) : s.Keeps s' r.flight next.flight := by
  unfold Restart.step at hstep
  split at hstep
  case h_1 =>
    split at hstep <;> cases hstep
    exact ⟨rfl, rfl, fun _ h => h, fun _ h => .inl h, nofun⟩
  case h_2 =>
    split at hstep
    · cases hstep
      exact ⟨rfl, rfl, fun _ h => h, fun _ h => .inl h, nofun⟩
    · split at hstep <;> cases hstep <;>
        exact ⟨rfl, rfl, fun _ h => h, fun _ h => .inl h, nofun⟩
  case h_3 =>
    cases hstep
    exact ⟨rfl, rfl, fun _ h => stale_of_reap h, fun _ h => .inl h, nofun⟩
  case h_5 =>
    cases hstep
    cases s.stop <;> exact ⟨rfl, rfl, fun _ h => h, fun _ h => .inl h, nofun⟩
  case h_6 =>
    cases hstep
    refine ⟨rfl, rfl, fun c h => stale_start s c ▸ h, fun _ h => .inl h, ?_⟩
    intro c hc hs
    cases hc
    rw [stale_start, stale_length] at hs
    cases hs
  case h_8 =>
    cases hstep
    exact ⟨rfl, rfl, fun _ h => h, fun _ h => .inr h, nofun⟩
  case h_10 => cases hstep
  all_goals
    cases hstep
    exact ⟨rfl, rfl, fun _ h => h, fun _ h => .inl h, nofun⟩

theorem supervisor_keeps {s s' : Shared} {v v' : Supervisor} {o : Outcome}
    (hstep : v.step s o = some (s', v')) : s.Keeps s' v.flight v'.flight := by
  unfold step at hstep
  split at hstep
  case h_14 b r =>
    obtain ⟨⟨t, next⟩, hr, heq⟩ := map_eq_some_iff.mp hstep
    cases heq
    have hkeeps := restart_keeps hr
    cases next with
    | goes r => exact hkeeps
    | finished raised => cases raised <;> exact hkeeps
  case h_2 | h_7 | h_15 =>
    split at hstep <;> cases hstep
    exact ⟨rfl, rfl, fun _ h => h, fun _ h => .inl h, nofun⟩
  case h_18 =>
    cases hstep
    exact ⟨rfl, rfl, fun _ h => stale_of_reap h, fun _ h => .inl h, nofun⟩
  case h_20 =>
    cases hstep
    exact ⟨rfl, rfl, fun _ h => h, nofun, nofun⟩
  case h_23 => cases hstep
  all_goals
    cases hstep
    refine ⟨rfl, rfl, fun _ h => h, fun _ h => .inl h, ?_⟩
    first
      | (intro _ h; cases h)
      | (split <;> (intro _ h; cases h))

theorem supervisor_calm {s s' : Shared} {v v' : Supervisor} {o : Outcome}
    (hactive : v.active = false) (hstopping : v'.stopping = false)
    (hstep : v.step s o = some (s', v')) :
    v.stopping = false ∧ s'.children = s.children ∧ s'.procRef = s.procRef := by
  unfold step at hstep
  split at hstep
  case h_14 b r =>
    obtain ⟨⟨t, next⟩, hr, heq⟩ := map_eq_some_iff.mp hstep
    cases heq
    refine ⟨rfl, ?_⟩
    unfold Restart.step at hr
    split at hr
    case h_1 =>
      split at hr <;> cases hr
      exact ⟨rfl, rfl⟩
    case h_2 =>
      split at hr
      · cases hr
        exact ⟨rfl, rfl⟩
      · split at hr <;> cases hr <;> exact ⟨rfl, rfl⟩
    case h_9 =>
      cases hr
      exact ⟨rfl, rfl⟩
    case h_10 => cases hr
    all_goals cases hactive
  case h_2 | h_7 | h_15 =>
    split at hstep <;> cases hstep
    exact ⟨rfl, rfl, rfl⟩
  case h_17 =>
    cases hstep
    cases hproc : s.procRef <;> rw [hproc] at hstopping <;> cases hstopping
  case h_23 => cases hstep
  all_goals
    cases hstep
    first
      | exact ⟨rfl, rfl, rfl⟩
      | cases hstopping

theorem State.Fresh.supervisor {s : State} (hsound : s.Sound) (h : s.Fresh) {o : Outcome}
    {shared : Shared} {v : Supervisor} (hstep : s.supervisor.step s.shared o = some (shared, v)) :
    State.Fresh { s with shared, supervisor := v } := by
  have hkeeps := supervisor_keeps hstep
  refine ⟨fun text ht => hkeeps.file.trans (h.file text ht), ?_, ?_, ?_, ?_⟩
  · intro c hproc hs
    rcases hkeeps.held c hproc with hheld | hflight
    · exact h.held c hheld (hkeeps.stale c hs)
    · exact allows_of_catching (h.flight c hflight (hkeeps.stale c hs)) c
  · intro c hflight hs
    exact h.flight c (hkeeps.flight c hflight hs) (hkeeps.stale c hs)
  · intro c hown
    cases hs : shared.stale c with
    | false => rfl
    | true =>
      rw [← h.own c hown]
      exact (hkeeps.stale c hs).symm
  · intro hsome hstopping c hc
    have hpublished : s.shared.published.isSome = true := by
      rw [← hkeeps.published]
      exact hsome
    obtain ⟨n, hn⟩ := isSome_iff_exists.mp hpublished
    have hstop := (hsound.flagged.published n hn).1
    have hactive : s.supervisor.active = false := by
      cases hactive : s.supervisor.active with
      | false => rfl
      | true => exact absurd ((hsound.flagged.supervisorActive hactive).symm.trans hstop) (by decide)
    obtain ⟨hbefore, hchildren, hproc⟩ := supervisor_calm hactive hstopping hstep
    have hruns : s.shared.runs c = true := by
      rw [← hc, runs, runs, hchildren]
    have hleaves := h.remains hpublished hbefore c hruns
    exact (leaves_congr hproc s.watchdog c).trans hleaves

theorem State.Fresh.step {s s' : State} {a : Action} (hsound : s.Sound) (h : s.Fresh)
    (htimely : s.Timely a) (hstep : s.step a = some s') : s'.Fresh := by
  cases State.steps_of_step hstep with
  | exit _ =>
    refine ⟨h.file, fun c hproc hs => h.held c hproc (stale_of_reap hs),
      fun c hf hs => h.flight c hf (stale_of_reap hs), ?_, ?_⟩
    · intro c hown
      rw [stale_reap, h.own c hown]
      rfl
    · intro hsome hstopping c hc
      rw [runs_reap, and_eq_true] at hc
      exact h.remains hsome hstopping c hc.1
  | watchdog hmoved =>
    exact h.watchdog hsound htimely hmoved
  | supervisor hmoved =>
    exact h.supervisor hsound hmoved

theorem fresh_initial (spc : String) : (State.initial spc).Fresh where
  file text ht := by
    cases ht
    rfl
  held c hproc hs := by
    cases hproc
    cases hs
  flight := nofun
  own := nofun
  remains := nofun

end AwsOps.Steampipe

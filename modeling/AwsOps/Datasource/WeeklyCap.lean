import AwsOps.Datasource.Reservations

/-!
# The weekly cap on generation calls

The invariant `Capped` accounts for every call of the model and every reservation that is still
held in the current week by the counter of the bookkeeping row. It survives every interleaving and
every crash, as long as no rebuild straddles two weeks and no sweep takes away a counter that
other workers have charged. `weekly_generation_cap` states this for whole runs, and
`weekly_generation_cap_exceeded` is a run with four calls in one week, in which a sweep does take
the counter away.
-/

namespace AwsOps.Datasource

open List Option BudgetWrite

open Text (Unicode)

/-! ## The counter under one statement -/

section Counter

variable {s s' : Store} {i : Nat} {week : IsoWeek}

theorem charge_writes {writes : List BudgetWrite} (h : delete ∉ writes)
    (budget : Option BudgetRow) (week : IsoWeek) :
    charge (writes.foldl apply budget) week = charge budget week := by
  induction writes generalizing budget with
  | nil => rfl
  | cons write rest ih =>
    rw [foldl_cons, ih (fun hrest => h (mem_cons_of_mem _ hrest))]
    cases write with
    | store marker version => cases budget <;> simp [apply, charge, BudgetRow.charge]
    | delete => exact absurd mem_cons_self h

theorem charge_reserve {budget : Option BudgetRow} {cap known count : Nat} {version : List Char}
    {row : BudgetRow} (h : reserve budget week cap version known = some (count, row))
    (hknown : known < cap) :
    charge budget week < charge (some row) week ∧ charge (some row) week ≤ cap := by
  unfold reserve at h
  split at h
  · cases h
    simp only [charge, BudgetRow.charge, map_none, map_some, getD_none, getD_some, if_true]
    omega
  · rename_i before
    dsimp only at h
    split at h
    · cases h
      simp only [charge, BudgetRow.charge, map_some, getD_some, if_true] at *
      omega
    · cases h

theorem charge_release {row : BudgetRow} (h : row.week = some (digits week))
    (hpos : 0 < row.charge week) :
    charge (some row) week = charge (some row.release) week + 1 := by
  simp only [BudgetRow.charge, h, if_true] at hpos
  cases hattempts : row.attempts with
  | none => simp [hattempts] at hpos
  | some n =>
    simp only [hattempts, getD_some] at hpos
    simp only [charge, BudgetRow.charge, BudgetRow.release, h, hattempts, map_some,
      getD_some, if_true]
    omega

theorem charge_release_other {row : BudgetRow} {other : IsoWeek}
    (h : row.week = some (digits other)) (hne : other ≠ week) :
    charge (some row.release) week = charge (some row) week := by
  have hdigits : digits other ≠ digits week := fun heq => hne (digits_inj heq)
  simp [charge, BudgetRow.charge, BudgetRow.release, h, hdigits]

/-- What the clock, the calls and the committed bookkeeping row have in common in two states. -/
structure SameBooks (s s' : Store) : Prop where
  week : s'.week = s.week
  calls : s'.calls = s.calls
  budget : s'.budget = s.budget

theorem same_books_writeSignal {key : SignalKey} {row : Option SignalRow}
    (h : s.writeSignal i key row = some s') : SameBooks s s' := by
  unfold Store.writeSignal at h
  split at h
  · cases h
    exact ⟨rfl, rfl, rfl⟩
  · cases h

theorem same_books_writeBudget {write : BudgetWrite} (h : s.writeBudget i write = some s') :
    SameBooks s s' := by
  unfold Store.writeBudget at h
  split at h
  · cases h
    exact ⟨rfl, rfl, rfl⟩
  · cases h

theorem of_map_unit {found : Option Store} {r : Unit}
    (h : found.map ((), ·) = some (r, s')) : found = some s' := by
  cases found with
  | none => cases h
  | some s'' =>
    cases h
    rfl

theorem same_books_exec {c : Statement} {r : Answer c} (hplain : c.plain) (hc : c ≠ .commit)
    (h : s.exec i c = some (r, s')) : SameBooks s s' := by
  cases c with
  | generate | reserve | release => cases hplain
  | commit => exact absurd rfl hc
  | isoWeek | readVersion | readBudget | readReservation | listSignals | begin | findUnkept =>
    cases h
    exact ⟨rfl, rfl, rfl⟩
  | upsert signal version => exact same_books_writeSignal (of_map_unit h)
  | writeBudget marker version live =>
    simp only [Store.exec, bind_eq_bind, bind_eq_some_iff] at h
    obtain ⟨text, -, h⟩ := h
    exact same_books_writeBudget (of_map_unit h)
  | delete key =>
    have hdelete := of_map_unit h
    cases key with
    | signal key => exact same_books_writeSignal hdelete
    | budget =>
      simp only [Store.delete] at hdelete
      split at hdelete
      · exact same_books_writeBudget hdelete
      · cases hdelete
        exact ⟨rfl, rfl, rfl⟩
  | touchGenerated version =>
    have htouch := of_map_unit h
    simp only [Store.touchGenerated] at htouch
    split at htouch
    · exact same_books_writeSignal htouch
    · cases htouch
      exact ⟨rfl, rfl, rfl⟩

theorem charge_commit (h : delete ∈ s.ownWrites i → charge s.budget week = 0) :
    charge s.budget week ≤ charge (s.commit i).budget week := by
  by_cases hdelete : delete ∈ s.ownWrites i
  · rw [h hdelete]
    exact Nat.zero_le _
  · exact (charge_writes hdelete s.budget week).ge

end Counter

/-! ## The condition on a run -/

/-- The workers of one integration with the rows, the clock and the calls. -/
abbrev Workers := System Statement Answer (Option IsoWeek) Store Outcome

/-- A statement is in time: a reservation is charged in the week it names, the model is called in
the week of the reservation, an attempt is handed back to the week it was charged to, and a
transaction that deleted the bookkeeping row commits while the row charges nothing to this week. -/
def TimelyStatement (s : Store) (i : Nat) (held : Option IsoWeek) : Statement → Prop
  | .reserve week _ _ _ => week = s.week
  | .generate => held = some s.week
  | .release week => held = some week
  | .commit => delete ∈ s.ownWrites i → charge s.budget s.week = 0
  | _ => True

/-- Being in time can be checked. -/
instance (s : Store) (i : Nat) (held : Option IsoWeek) :
    (c : Statement) → Decidable (TimelyStatement s i held c)
  | .reserve week _ _ _ => inferInstanceAs (Decidable (week = s.week))
  | .generate => inferInstanceAs (Decidable (held = some s.week))
  | .release week => inferInstanceAs (Decidable (held = some week))
  | .commit => inferInstanceAs (Decidable (_ → _))
  | .isoWeek | .readVersion | .readBudget | .readReservation | .listSignals | .begin
  | .upsert _ _ | .writeBudget _ _ _ | .findUnkept _ | .delete _ | .touchGenerated _ =>
    inferInstanceAs (Decidable True)

/-- The statement that an event executes is in time. -/
def Timely (s : Workers) : Event Input IsoWeek → Prop
  | .act i =>
    match s.threads[i]? with
    | some ⟨held, some (.call c _)⟩ => TimelyStatement s.shared i held c
    | _ => True
  | _ => True

/-- Being in time can be checked for an event. -/
instance (s : Workers) (event : Event Input IsoWeek) : Decidable (Timely s event) := by
  unfold Timely
  split
  · split
    · infer_instance
    · infer_instance
  · infer_instance

/-! ## What one statement does to the books -/

/-- The entries that a statement in time can make, for a worker whose reservation changes from
`held` to `held'`. -/
inductive Entry (c : Statement) (s s' : Store) (held held' : Option IsoWeek) : Prop
  /-- Nothing is charged, called or handed back. -/
  | kept (hheld : held' = held) (hcalls : s'.calls = s.calls)
      (hcharge : charge s.budget s.week ≤ charge s'.budget s.week)
  /-- An attempt of this week is charged. -/
  | reserved (hheld : held = none) (hheld' : held' = some s.week) (hcalls : s'.calls = s.calls)
      (hcharge : charge s.budget s.week < charge s'.budget s.week)
      (hcap : charge s'.budget s.week ≤ maxGenerationAttempts)
  /-- The model is called in this week. -/
  | called (hheld : held = some s.week) (hheld' : held' = none)
      (hcalls : s'.calls = s.calls ++ [s.week]) (hbudget : s'.budget = s.budget)
  /-- An attempt of this week is handed back. -/
  | returned (hc : c = .release s.week) (hheld : held = some s.week) (hheld' : held' = none)
      (hcalls : s'.calls = s.calls)
      (hcharge : 0 < charge s.budget s.week →
        charge s.budget s.week = charge s'.budget s.week + 1)
  /-- An attempt of another week is handed back. -/
  | returnedLate (week : IsoWeek) (hheld : held = some week) (hweek : week ≠ s.week)
      (hheld' : held' = none) (hcalls : s'.calls = s.calls)
      (hcharge : charge s'.budget s.week = charge s.budget s.week)

section Entries

variable {s s' : Store} {i : Nat} {held : Option IsoWeek}

theorem reserve_entry {cap known : Nat} {version : List Char} {r : Option Nat}
    (hallowed : reservation.allowed held (.reserve s.week cap version known))
    (h : s.reserve i s.week cap version known = some (r, s')) :
    s'.week = s.week ∧ Entry (.reserve s.week cap version known) s s' held
        (reservation.after held (.reserve s.week cap version known) r) := by
  obtain ⟨rfl, rfl, hknown⟩ := hallowed
  unfold Store.reserve at h
  split at h
  · cases h
  · split at h
    · rename_i count row hrow
      cases h
      obtain ⟨hlt, hle⟩ := charge_reserve hrow hknown
      exact ⟨rfl, .reserved rfl rfl rfl hlt hle⟩
    · cases h
      exact ⟨rfl, .kept rfl rfl (Nat.le_refl _)⟩

theorem release_entry {week : IsoWeek} (h : s.release i week = some s') :
    s'.week = s.week ∧ Entry (.release week) s s' (some week) none := by
  have hsame (hcharge : week = s.week → charge s.budget s.week = 0) :
      Entry (.release week) s s (some week) none := by
    by_cases hweek : week = s.week
    · subst hweek
      exact .returned rfl rfl rfl rfl fun hpos => absurd (hcharge rfl) (Nat.ne_of_gt hpos)
    · exact .returnedLate week rfl hweek rfl rfl rfl
  unfold Store.release at h
  split at h
  · rename_i hnone
    cases h
    exact ⟨rfl, hsame fun _ => by rw [hnone]; rfl⟩
  · rename_i row hrow
    split at h
    · rename_i hother
      cases h
      refine ⟨rfl, hsame ?_⟩
      rintro rfl
      simp [hrow, charge, BudgetRow.charge, hother]
    · rename_i hrowWeek
      split at h
      · cases h
      · cases h
        have hown : row.week = some (digits week) := not_not.mp hrowWeek
        refine ⟨rfl, ?_⟩
        by_cases hweek : week = s.week
        · subst hweek
          refine .returned rfl rfl rfl rfl fun hpos => ?_
          rw [hrow] at hpos ⊢
          exact charge_release hown hpos
        · refine .returnedLate week rfl hweek rfl rfl ?_
          rw [hrow]
          exact charge_release_other hown hweek

theorem exec_entry {c : Statement} {r : Answer c} (hallowed : reservation.allowed held c)
    (htimely : TimelyStatement s i held c) (h : s.exec i c = some (r, s')) :
    s'.week = s.week ∧ Entry c s s' held (reservation.after held c r) := by
  cases c with
  | reserve week cap version known =>
    have hweek : week = s.week := htimely
    subst hweek
    exact reserve_entry hallowed h
  | generate =>
    cases h
    exact ⟨rfl, .called htimely rfl rfl rfl⟩
  | release week =>
    have hheld : held = some week := htimely
    subst hheld
    exact release_entry (of_map_unit h)
  | commit =>
    simp only [Store.exec] at h
    split at h
    · cases h
      exact ⟨rfl, .kept rfl rfl (charge_commit htimely)⟩
    · cases h
  | isoWeek | readVersion | readBudget | readReservation | listSignals | begin | upsert |
    writeBudget | findUnkept | delete | touchGenerated =>
      have hbooks : SameBooks s s' := same_books_exec rfl (by nofun) h
      exact ⟨hbooks.week, .kept rfl hbooks.calls (by rw [hbooks.budget])⟩

end Entries

/-! ## The invariant -/

/-- The number of workers that hold a reservation of a week. -/
def holders (s : Workers) (week : IsoWeek) : Nat :=
  (s.threads.map Thread.stage).count (some week)

/-- Calls and reservations held stay within the cap in every week; those of this week are charged
to the bookkeeping row, and there are none of later weeks. -/
structure Capped (s : Workers) : Prop where
  within : ∀ week, s.shared.calls.count week + holders s week ≤ maxGenerationAttempts
  accounted : s.shared.calls.count s.shared.week + holders s s.shared.week ≤
    charge s.shared.budget s.shared.week
  called : ∀ week ∈ s.shared.calls, week ≤ s.shared.week
  held : ∀ thread ∈ s.threads, ∀ week ∈ thread.stage, week ≤ s.shared.week

section Invariant

variable {s : Workers} {shared : Store} {i : Nat}

/-- Replacing an item changes the counts of the two items only. -/
theorem count_set_add {α : Type} [BEq α] [LawfulBEq α] [DecidableEq α] {l : List α} {a b : α}
    (h : l[i]? = some a) (x : α) :
    (l.set i b).count x + (if a = x then 1 else 0) = l.count x + (if b = x then 1 else 0) := by
  induction l generalizing i with
  | nil => cases h
  | cons c rest ih =>
    cases i with
    | zero =>
      cases h
      simp only [set_cons_zero, count_cons, beq_iff_eq]
      omega
    | succ i =>
      have hrest := ih (i := i) h
      simp only [set_cons_succ, count_cons, beq_iff_eq] at hrest ⊢
      omega

theorem holders_set {thread thread' : Thread Statement Answer (Option IsoWeek) Outcome}
    (hi : s.threads[i]? = some thread) (week : IsoWeek) :
    holders ⟨shared, s.threads.set i thread'⟩ week + (if thread.stage = some week then 1 else 0) =
      holders s week + (if thread'.stage = some week then 1 else 0) := by
  simp only [holders, map_set]
  exact count_set_add (by simp [hi]) (some week)

/-- A state with the same clock and calls, no more holders of any week and no smaller counter is
capped as well. -/
theorem Capped.mono {s' : Workers} (h : Capped s) (hweek : s'.shared.week = s.shared.week)
    (hcalls : s'.shared.calls = s.shared.calls)
    (hholders : ∀ week, holders s' week ≤ holders s week)
    (hheld : ∀ thread ∈ s'.threads, ∀ week ∈ thread.stage, week ≤ s.shared.week)
    (hcharge : charge s.shared.budget s.shared.week ≤ charge s'.shared.budget s.shared.week) :
    Capped s' where
  within week := by
    have hwithin := h.within week
    have hle := hholders week
    rw [hcalls]
    omega
  accounted := by
    have haccounted := h.accounted
    have hle := hholders s.shared.week
    rw [hcalls, hweek]
    omega
  called week hmem := by
    rw [hcalls] at hmem
    rw [hweek]
    exact h.called week hmem
  held thread hmem week hstage := by
    rw [hweek]
    exact hheld thread hmem week hstage

theorem Capped.held_set (h : Capped s)
    {thread : Thread Statement Answer (Option IsoWeek) Outcome}
    (hthread : ∀ week ∈ thread.stage, week ≤ s.shared.week) :
    ∀ t ∈ s.threads.set i thread, ∀ week ∈ t.stage, week ≤ s.shared.week := by
  intro t ht
  rcases mem_or_eq_of_mem_set ht with ht | rfl
  · exact h.held t ht
  · exact hthread

theorem Capped.entry (h : Capped s) {c : Statement} {held held' : Option IsoWeek}
    {program program' : Option (Rebuild Outcome)} (hi : s.threads[i]? = some ⟨held, program⟩)
    (hweek : shared.week = s.shared.week) (hentry : Entry c s.shared shared held held') :
    Capped ⟨shared, s.threads.set i ⟨held', program'⟩⟩ := by
  have hset := @holders_set s shared i _ ⟨held', program'⟩ hi
  dsimp only at hset
  cases hentry with
  | kept hheld hcalls hcharge =>
    subst hheld
    refine h.mono hweek hcalls (fun week => ?_) (h.held_set ?_) hcharge
    · have hcount := hset week
      omega
    · exact h.held ⟨held', program⟩ (mem_of_getElem? hi)
  | reserved hheld hheld' hcalls hcharge hcap =>
    subst hheld hheld'
    have haccounted := h.accounted
    refine ⟨fun week => ?_, ?_, ?_, ?_⟩
    · have hcount := hset week
      have hwithin := h.within week
      rw [hcalls]
      by_cases hnow : s.shared.week = week
      · subst hnow
        simp only [reduceCtorEq, if_false, if_true] at hcount
        omega
      · simp only [reduceCtorEq, Option.some.injEq, hnow, if_false] at hcount
        omega
    · have hcount := hset s.shared.week
      simp only [reduceCtorEq, if_false, if_true] at hcount
      simp only [hcalls, hweek]
      omega
    · intro week hmem
      rw [hcalls] at hmem
      rw [hweek]
      exact h.called week hmem
    · rw [hweek]
      refine h.held_set ?_
      rintro week ⟨rfl⟩
      exact Nat.le_refl _
  | called hheld hheld' hcalls hbudget =>
    subst hheld hheld'
    refine ⟨fun week => ?_, ?_, ?_, ?_⟩
    · have hcount := hset week
      have hwithin := h.within week
      simp only [hcalls, count_append, count_singleton, beq_iff_eq]
      by_cases hnow : s.shared.week = week
      · simp only [hnow, reduceCtorEq, if_false, if_true] at hcount ⊢
        omega
      · simp only [reduceCtorEq, Option.some.injEq, hnow, if_false] at hcount ⊢
        omega
    · have hcount := hset s.shared.week
      have haccounted := h.accounted
      simp only [reduceCtorEq, if_false, if_true] at hcount
      simp only [hcalls, hweek, hbudget, count_append, count_singleton_self]
      omega
    · intro week hmem
      rw [hcalls] at hmem
      rw [hweek]
      rcases mem_append.mp hmem with hmem | hmem
      · exact h.called week hmem
      · exact (mem_singleton.mp hmem).le
    · rw [hweek]
      exact h.held_set fun week hnone => nomatch hnone
  | returned hc hheld hheld' hcalls hcharge =>
    subst hheld hheld'
    have hcount := hset s.shared.week
    have haccounted := h.accounted
    simp only [reduceCtorEq, if_false, if_true] at hcount
    refine ⟨fun week => ?_, ?_, ?_, ?_⟩
    · have hcount := hset week
      have hwithin := h.within week
      simp only [reduceCtorEq, if_false] at hcount
      rw [hcalls]
      omega
    · have hreturned := hcharge (by omega)
      simp only [hcalls, hweek]
      omega
    · intro week hmem
      rw [hcalls] at hmem
      rw [hweek]
      exact h.called week hmem
    · rw [hweek]
      exact h.held_set fun week hnone => nomatch hnone
  | returnedLate week hheld hother hheld' hcalls hcharge =>
    subst hheld hheld'
    refine h.mono hweek hcalls (fun week => ?_) (h.held_set fun week hnone => nomatch hnone)
      hcharge.ge
    have hcount := hset week
    simp only [reduceCtorEq, if_false] at hcount
    omega

/-- The death of a worker keeps the cap: what it has charged stays charged. -/
theorem Capped.crash (U : Unicode) (h : Capped s) (i : Nat) :
    Capped (s.crash (workers U) reservation i) := by
  refine h.mono rfl rfl (fun week => ?_) (h.held_set fun week hnone => nomatch hnone)
    (Nat.le_refl _)
  cases hi : s.threads[i]? with
  | none =>
    have hlen : s.threads.length ≤ i := List.getElem?_eq_none_iff.mp hi
    simp only [System.crash, set_eq_of_length_le hlen]
    exact Nat.le_refl _
  | some thread =>
    have hset := @holders_set s ((workers U).abort i s.shared) i _ (Thread.dead reservation) hi
      week
    simp only [Thread.dead, reservation, reduceCtorEq, if_false] at hset
    simp only [System.crash, Thread.dead, reservation]
    omega

theorem Capped.tick (h : Capped s) (week : IsoWeek) :
    Capped { s with shared := s.shared.tick week } := by
  unfold Store.tick
  split
  · rename_i hlater
    have hcalls : s.shared.calls.count week = 0 := by
      rw [count_eq_zero]
      intro hmem
      exact absurd (h.called week hmem) (Nat.not_le_of_lt hlater)
    have hholders : holders s week = 0 := by
      rw [holders, count_eq_zero]
      intro hmem
      obtain ⟨thread, hthread, hstage⟩ := mem_map.mp hmem
      exact absurd (h.held thread hthread week hstage) (Nat.not_le_of_lt hlater)
    refine ⟨h.within, ?_, fun w hw => (h.called w hw).trans hlater.le,
      fun thread hthread w hw => (h.held thread hthread w hw).trans hlater.le⟩
    change s.shared.calls.count week + holders s week ≤ _
    omega
  · exact h

theorem Capped.start (h : Capped s) (program : Rebuild Outcome) :
    Capped { s with threads := s.threads ++ [⟨none, some program⟩] } := by
  refine h.mono rfl rfl (fun week => ?_) ?_ (Nat.le_refl _)
  · simp [holders]
  · intro thread hthread
    rcases mem_append.mp hthread with hthread | hthread
    · exact h.held thread hthread
    · rw [mem_singleton.mp hthread]
      exact fun week hnone => nomatch hnone

theorem Capped.step (U : Unicode) (hobeys : s.Obeys reservation) (h : Capped s)
    {event : Event Input IsoWeek} (htimely : Timely s event) :
    Capped (s.step (workers U) reservation event) := by
  have hmoves := s.step_moves (workers U) reservation event
  generalize s.step (workers U) reservation event = s' at hmoves ⊢
  cases hmoves with
  | start input => exact h.start _
  | @act i held c _ _ _ hi hexec =>
    have hnow : TimelyStatement s.shared i held c := by simpa only [Timely, hi] using htimely
    obtain ⟨hweek, hentry⟩ := exec_entry (hobeys.next hi).1 hnow hexec
    exact h.entry hi hweek hentry
  | @raise i held c _ r hi hcaught =>
    have hafter : reservation.after held c r = held := by
      cases c with
      | listSignals => rfl
      | _ => cases hcaught
    rw [hafter]
    exact @Capped.entry s _ i h c _ _ _ _ hi rfl (.kept rfl rfl (Nat.le_refl _))
  | dies i | crash i => exact h.crash U i
  | environment week => exact h.tick week
  | stays => exact h

end Invariant

/-! ## Whole runs -/

/-- The workers of an integration with the given rows, before any of them starts. -/
def Workers.start (signals : SignalTable) (budget : Option BudgetRow) (week : IsoWeek) : Workers :=
  ⟨Store.initial signals budget week, []⟩

/-- The event is the hand-back of an attempt of this week that its own worker holds. -/
def HandsBack (s : Workers) (event : Event Input IsoWeek) : Prop :=
  ∃ i next, event = .act i ∧
    s.threads[i]? = some ⟨some s.shared.week, some (.call (.release s.shared.week) next)⟩

/-- The step does not lower the counter of this week, except by one when a worker hands back its
own attempt. -/
def KeepsReservations (U : Unicode) (s : Workers) (event : Event Input IsoWeek) : Prop :=
  let before := charge s.shared.budget s.shared.week
  let after := charge (s.step (workers U) reservation event).shared.budget s.shared.week
  before ≤ after ∨ (HandsBack s event ∧ before = after + 1)

theorem keeps_reservations (U : Unicode) {s : Workers} (hobeys : s.Obeys reservation)
    (hcapped : Capped s) {event : Event Input IsoWeek} (htimely : Timely s event) :
    KeepsReservations U s event := by
  have hmoves := s.step_moves (workers U) reservation event
  unfold KeepsReservations
  generalize s.step (workers U) reservation event = s' at hmoves ⊢
  cases hmoves with
  | start | raise | dies | crash | stays => exact .inl (Nat.le_refl _)
  | environment week =>
    simp only [workers, Store.tick]
    split <;> exact .inl (Nat.le_refl _)
  | @act i held c next _ _ hi hexec =>
    have hnow : TimelyStatement s.shared i held c := by simpa only [Timely, hi] using htimely
    obtain ⟨-, hentry⟩ := exec_entry (hobeys.next hi).1 hnow hexec
    cases hentry with
    | kept _ _ hcharge => exact .inl hcharge
    | reserved _ _ _ hcharge _ => exact .inl hcharge.le
    | called _ _ _ hbudget => exact .inl (by rw [hbudget])
    | returnedLate _ _ _ _ _ hcharge => exact .inl hcharge.ge
    | returned hc hheld _ _ hcharge =>
      subst hc hheld
      have hpos : 0 < holders s s.shared.week := by
        refine count_pos_iff.mpr (mem_map.mpr ⟨_, mem_of_getElem? hi, rfl⟩)
      have haccounted := hcapped.accounted
      exact .inr ⟨⟨i, next, rfl, hi⟩, hcharge (by omega)⟩

/-- In every run of any number of workers whose statements are in time, whatever the rows at the
start, the interleaving and the crashes, the model is called at most three times in each week, and
no step takes away an attempt that another worker has charged. -/
theorem weekly_generation_cap (U : Unicode) (signals : SignalTable) (budget : Option BudgetRow)
    (week : IsoWeek) (events : List (Event Input IsoWeek))
    (htimely : (Workers.start signals budget week).Meets (workers U) reservation Timely events) :
    let s := (Workers.start signals budget week).run (workers U) reservation events
    (∀ week, s.shared.calls.count week ≤ maxGenerationAttempts) ∧
      ∀ event, Timely s event → KeepsReservations U s event := by
  intro s
  have hstart : Capped (Workers.start signals budget week) :=
    ⟨fun _ => Nat.zero_le _, Nat.zero_le _, nofun, nofun⟩
  obtain ⟨hobeys, hcapped⟩ := System.run_invariant (follows_rebuild U)
    (fun _ _ hobeys hcapped => hcapped.step U hobeys) htimely (fun _ h => nomatch h) hstart
  refine ⟨fun week => ?_, fun event => keeps_reservations U hobeys hcapped⟩
  exact (Nat.le_add_right _ _).trans (hcapped.within week)

/-- A worker whose catalog matches the schema. -/
def matchedInput : Input :=
  ⟨"a1".toList, [⟨.catalog "latency", ⟨"Latency", true, ["latency"], false⟩⟩], true, .rejected,
    fun _ => true, fun _ _ => .passed⟩

/-- A worker whose catalog matches nothing, and whose generation is rejected. -/
def unmatchedInput : Input :=
  ⟨"b2".toList, [], true, .rejected, fun _ => true, fun _ _ => .passed⟩

/-- Events of one worker in a row. -/
def acts (i n : Nat) : List (Event Input IsoWeek) :=
  List.replicate n (.act i)

/-- Two workers whose catalog matches nothing rebuild one after the other. -/
theorem weekly_generation_cap_two_rebuilds :
    (System.run (workers .ascii) reservation (Workers.start ∅ none 202617)
      (.start unmatchedInput :: acts 0 15 ++ .start unmatchedInput :: acts 1 15)).shared.calls.count
      202617 ≤ 3 :=
  (weekly_generation_cap .ascii ∅ none 202617
    (.start unmatchedInput :: acts 0 15 ++ .start unmatchedInput :: acts 1 15)
    (by decide +kernel)).1 202617

/-- The first worker reads that nothing was ever spent. The second one then charges an attempt and
calls the model. The first one, whose build is conclusive, stores no marker, and its sweep deletes
the bookkeeping row. Three more workers find three attempts left. -/
def sweptRun : List (Event Input IsoWeek) :=
  [.start matchedInput, .start unmatchedInput] ++ acts 0 3 ++ acts 1 6 ++ acts 0 5 ++
    .start unmatchedInput :: acts 2 6 ++ .start unmatchedInput :: acts 3 9 ++
    .start unmatchedInput :: acts 4 9

/-- The model is called four times in one week. -/
theorem weekly_generation_cap_exceeded :
    maxGenerationAttempts < (System.run (workers .ascii) reservation
      (Workers.start ∅ none 202617) sweptRun).shared.calls.count 202617 := by
  decide +kernel

end AwsOps.Datasource

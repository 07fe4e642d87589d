import AwsOps.Foundation.Threads

/-!
# Programs that are retried after a crash

A program runs on a store whose every command commits on its own. An attempt may die after any
number of commands, and what it has done by then stays. `afterCrashes` is the store after any
number of such attempts; the last attempt then runs to its end on it. What holds of the store
before and is kept by every attempt that dies holds when the last attempt starts.
-/

namespace AwsOps

open List

namespace Program

variable {C : Type} {R : C → Type} {σ α β : Type}

/-- Run a program to its end. A command that gives no answer raises, and the program with it. -/
def eval (exec : (c : C) → σ → Option (R c × σ)) : Program C R α → σ → Option α × σ
  | done a, s => (some a, s)
  | call c next, s =>
    match exec c s with
    | some (r, s') => eval exec (next r) s'
    | none => (none, s)

/-- The store after a program has died, having executed some number of commands at most. -/
def cut (exec : (c : C) → σ → Option (R c × σ)) : Nat → Program C R α → σ → σ
  | 0, _, s => s
  | _ + 1, done _, s => s
  | n + 1, call c next, s =>
    match exec c s with
    | some (r, s') => cut exec n (next r) s'
    | none => s

variable {exec : (c : C) → σ → Option (R c × σ)} {s : σ}

theorem eval_command_bind (c : C) (f : R c → Program C R α) : (command c >>= f).eval exec s =
      match exec c s with
      | some (r, s') => (f r).eval exec s'
      | none => (none, s) := by
  change (call c fun r => (done r).bind f).eval exec s = _
  rw [eval]
  rfl

theorem cut_command_bind (c : C) (f : R c → Program C R α) (n : Nat) :
    (command c >>= f).cut exec (n + 1) s =
      match exec c s with
      | some (r, s') => (f r).cut exec n s'
      | none => s := by
  change (call c fun r => (done r).bind f).cut exec (n + 1) s = _
  rw [cut]
  rfl

theorem eval_bind (p : Program C R α) (f : α → Program C R β) : (p >>= f).eval exec s =
      match p.eval exec s with
      | (some a, s') => (f a).eval exec s'
      | (none, s') => (none, s') := by
  induction p generalizing s with
  | done a => rfl
  | call c next ih =>
    change (call c fun r => (next r).bind f).eval exec s = _
    simp only [eval]
    cases exec c s with
    | none => rfl
    | some result => exact ih result.1

theorem eval_map (p : Program C R α) (f : α → β) : (p >>= fun a => pure (f a)).eval exec s =
      ((p.eval exec s).1.map f, (p.eval exec s).2) := by
  rw [eval_bind]
  split <;> rename_i h <;> rw [h] <;> rfl

/-- Mapping what a program returns does not change where it dies. -/
theorem cut_map (p : Program C R α) (f : α → β) (n : Nat) :
    (p >>= fun a => pure (f a)).cut exec n s = p.cut exec n s := by
  induction p generalizing n s with
  | done a => cases n <;> rfl
  | call c next ih =>
    change (call c fun r => (next r).bind fun a => pure (f a)).cut exec n s = _
    cases n with
    | zero => rfl
    | succ n =>
      simp only [cut]
      cases exec c s with
      | none => rfl
      | some result => exact ih result.1 n

/-- Whatever answers the program gets, what it returns satisfies the assertion. -/
def Returns : Program C R α → (α → Prop) → Prop
  | done a, Q => Q a
  | call _ next, Q => ∀ r, (next r).Returns Q

theorem Returns.after {p : Program C R α} {f : α → Program C R β} {Q : β → Prop}
    (hf : ∀ a, (f a).Returns Q) : (p >>= f).Returns Q := by
  induction p with
  | done a => exact hf a
  | call c next ih => exact fun r => ih r

theorem Returns.eval {p : Program C R α} {Q : α → Prop} (h : p.Returns Q) {a : α}
    (ha : (p.eval exec s).1 = some a) : Q a := by
  induction p generalizing s with
  | done b =>
    cases ha
    exact h
  | call c next ih =>
    simp only [Program.eval] at ha
    split at ha
    · rename_i r s' _
      exact ih r (h r) ha
    · cases ha

theorem exists_cut_eq_eval (exec : (c : C) → σ → Option (R c × σ)) (program : Program C R α)
    (s : σ) :
    ∃ n, program.cut exec n s = (program.eval exec s).2 := by
  induction program generalizing s with
  | done a => exact ⟨0, rfl⟩
  | call c next ih =>
    cases h : exec c s with
    | none => exact ⟨0, by simp [cut, eval, h]⟩
    | some result =>
      obtain ⟨n, hn⟩ := ih result.1 result.2
      exact ⟨n + 1, by simpa only [cut, eval, h] using hn⟩

/-! ## What a program sees of the store -/

variable {τ : Type} {view : σ → τ}

/-- The commands respect a view of the store: on stores with one view they give one answer, and
leave stores with one view. -/
def Respects (exec : (c : C) → σ → Option (R c × σ)) (view : σ → τ) : Prop :=
  ∀ c s t, view s = view t →
    (exec c s).map (Prod.map id view) = (exec c t).map (Prod.map id view)

theorem eval_respects (hexec : Respects exec view) (program : Program C R α) {s t : σ}
    (h : view s = view t) :
    (program.eval exec s).1 = (program.eval exec t).1 ∧
      view (program.eval exec s).2 = view (program.eval exec t).2 := by
  induction program generalizing s t with
  | done a => exact ⟨rfl, h⟩
  | call c next ih =>
    have hc := hexec c s t h
    simp only [eval]
    cases hs : exec c s with
    | none =>
      cases ht : exec c t with
      | none => exact ⟨rfl, h⟩
      | some result => simp [hs, ht] at hc
    | some result =>
      cases ht : exec c t with
      | none => simp [hs, ht] at hc
      | some result' =>
        simp only [hs, ht, Option.map_some, Option.some.injEq, Prod.map, id_eq, Prod.mk.injEq] at hc
        obtain ⟨r, s'⟩ := result
        obtain ⟨r', t'⟩ := result'
        obtain ⟨rfl, hview⟩ := hc
        exact ih r hview

end Program

section Retries

variable {C : Type} {R : C → Type} {σ ω α : Type} (exec : ω → (c : C) → σ → Option (R c × σ))
  (program : ω → Program C R α)

/-- The store after attempts that died. An attempt has its own circumstances, and dies after some
number of commands. -/
def afterCrashes (s : σ) (attempts : List (ω × Nat)) : σ :=
  attempts.foldl (fun s (w, n) => (program w).cut (exec w) n s) s

/-- Each attempt that died satisfies the condition in the store in which it started. -/
def CrashesMeet (condition : σ → ω → Nat → Prop) : σ → List (ω × Nat) → Prop
  | _, [] => True
  | s, (w, n) :: rest =>
    condition s w n ∧ CrashesMeet condition ((program w).cut (exec w) n s) rest

variable {exec program} {condition : σ → ω → Nat → Prop} {I : List ω → σ → Prop}

/-- What an attempt that dies keeps, while it meets the condition, holds after any number of them.
The invariant may speak of the attempts so far, latest first. -/
theorem CrashesMeet.induction
    (hstep : ∀ before s w n, I before s → condition s w n →
      I (w :: before) ((program w).cut (exec w) n s))
    {attempts : List (ω × Nat)} {s : σ} {before : List ω}
    (hmeet : CrashesMeet exec program condition s attempts) (hs : I before s) :
    I ((attempts.map Prod.fst).reverse ++ before) (afterCrashes exec program s attempts) := by
  induction attempts generalizing s before with
  | nil => exact hs
  | cons attempt rest ih =>
    obtain ⟨w, n⟩ := attempt
    simp only [map_cons, reverse_cons, append_assoc, singleton_append]
    exact ih hmeet.2 (hstep before s w n hs hmeet.1)

/-- An attempt that dies leaves the view of the store as it is, or as an attempt that does not die
leaves it; and then the store is settled, and no attempt changes its view any more. -/
structure Settles {τ : Type} (exec : ω → (c : C) → σ → Option (R c × σ))
    (program : ω → Program C R α) (view : σ → τ) (condition : σ → ω → Nat → Prop)
    (success : α → Prop) (settled : σ → Prop) : Prop where
  respects : ∀ w, Program.Respects (exec w) view
  dies : ∀ s w n, condition s w n →
    view ((program w).cut (exec w) n s) = view s ∨
      ∃ a, ((program w).eval (exec w) s).1 = some a ∧ success a ∧
        view ((program w).eval (exec w) s).2 = view ((program w).cut (exec w) n s) ∧
        settled ((program w).cut (exec w) n s)
  stays : ∀ s w n, settled s →
    view ((program w).cut (exec w) n s) = view s ∧ settled ((program w).cut (exec w) n s)

variable {τ : Type} {view : σ → τ} {success : α → Prop} {settled : σ → Prop}

/-- What is left after any number of attempts that died: the view is as it was, or as one of the
attempts, had it not died, would have left it as the first, and the store is settled. -/
theorem Settles.after_crashes (h : Settles exec program view condition success settled) {s : σ}
    {attempts : List (ω × Nat)} (hmeet : CrashesMeet exec program condition s attempts) :
    let after := afterCrashes exec program s attempts
    view s = view after ∨ ∃ v ∈ attempts.map Prod.fst, ∃ b,
      ((program v).eval (exec v) s).1 = some b ∧ success b ∧
      view ((program v).eval (exec v) s).2 = view after ∧ settled after := by
  intro after
  let I : List ω → σ → Prop := fun before s' => view s = view s' ∨
    ∃ v ∈ before, ∃ b, ((program v).eval (exec v) s).1 = some b ∧ success b ∧
      view ((program v).eval (exec v) s).2 = view s' ∧ settled s'
  have hstep : ∀ before s' w n, I before s' → condition s' w n →
      I (w :: before) ((program w).cut (exec w) n s') := by
    intro before s' w n hinvariant hcondition
    rcases hinvariant with hview | ⟨v, hv, b, hb, hsuccess, hview, hsettled⟩
    · rcases h.dies s' w n hcondition with hcut | ⟨b, hb, hsuccess, hcut, hsettled⟩
      · exact .inl (hview.trans hcut.symm)
      · obtain ⟨ha, hafter⟩ := Program.eval_respects (h.respects w) (program w) hview
        exact .inr ⟨w, mem_cons_self, b, ha.trans hb, hsuccess, hafter.trans hcut, hsettled⟩
    · obtain ⟨hcut, hstays⟩ := h.stays s' w n hsettled
      exact .inr ⟨v, mem_cons_of_mem _ hv, b, hb, hsuccess, hview.trans hcut.symm, hstays⟩
  have hinvariant : I ((attempts.map Prod.fst).reverse ++ []) after :=
    hmeet.induction hstep (.inl rfl)
  rcases hinvariant with hview | ⟨v, hv, hrest⟩
  · exact .inl hview
  · exact .inr ⟨v, by simpa using hv, hrest⟩

/-- After any number of attempts that died, an attempt that does not die leaves the view that one
of the attempts, had it not died, would have left as the first. It returns what that one would have
returned, or that one is a success. -/
theorem Settles.transparent (h : Settles exec program view condition success settled) {s : σ}
    {attempts : List (ω × Nat)} (hmeet : CrashesMeet exec program condition s attempts) {w : ω}
    {a : α} (hlast : ((program w).eval (exec w) (afterCrashes exec program s attempts)).1 = some a) :
    ∃ v ∈ w :: attempts.map Prod.fst, ∃ b, ((program v).eval (exec v) s).1 = some b ∧
      (b = a ∨ success b) ∧
      view ((program v).eval (exec v) s).2 =
        view ((program w).eval (exec w) (afterCrashes exec program s attempts)).2 := by
  rcases h.after_crashes hmeet with hview | ⟨v, hv, b, hb, hsuccess, hview, hsettled⟩
  · obtain ⟨ha, hafter⟩ := Program.eval_respects (h.respects w) (program w) hview
    exact ⟨w, mem_cons_self, a, ha.trans hlast, .inl rfl, hafter⟩
  · obtain ⟨n, hn⟩ := (program w).exists_cut_eq_eval (exec w) (afterCrashes exec program s attempts)
    have hstays := (h.stays _ w n hsettled).1
    rw [hn] at hstays
    exact ⟨v, mem_cons_of_mem _ hv, b, hb, .inr hsuccess, hview.trans hstays.symm⟩

end Retries

end AwsOps

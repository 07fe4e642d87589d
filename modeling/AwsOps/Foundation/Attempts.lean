import AwsOps.Foundation.Threads

/-!
# Commands that raise, and programs that run alone

Where every command may raise, its answer is a value or the text of an exception. An attempt stops
at the first exception; `Attempts` is `Follows` for it. `Solo` is total correctness of a program
that nothing interrupts: it comes to its end, and what it returns and the state that it leaves
satisfy the assertion. `run_solo` finds that execution among the interleavings.
-/

namespace AwsOps

/-- A program that stops at the first command that raises. -/
abbrev Attempt (C : Type) (R : C → Type) (α : Type) :=
  ExceptT String (Program C fun c => Except String (R c)) α

/-- Issue one command. -/
def attempt {C : Type} {R : C → Type} (c : C) : Attempt C R (R c) :=
  ExceptT.mk (Program.command c)

/-- Run an attempt for each item, in order. -/
def Attempt.forEach {C : Type} {R : C → Type} {β : Type} (body : β → Attempt C R Unit) :
    List β → Attempt C R Unit
  | [] => pure ()
  | b :: rest => do
      body b
      Attempt.forEach body rest

section Attempts

variable {C : Type} {R : C → Type} {V α β : Type} {P : Protocol C (fun c => Except String (R c)) V}
  {v : V} {Q : Except String α → V → Prop}

/-- From a stage on the attempt issues allowed commands only, and what comes of it satisfies the
assertion. -/
def Attempts (P : Protocol C (fun c => Except String (R c)) V) (v : V) (p : Attempt C R α)
    (Q : Except String α → V → Prop) : Prop :=
  Follows P v p.run Q

theorem Attempts.pure {a : α} (h : Q (.ok a) v) : Attempts P v (pure a : Attempt C R α) Q :=
  h

theorem Attempts.attempt {c : C} {Q : Except String (R c) → V → Prop} (hallowed : P.allowed v c)
    (hafter : ∀ r, Q r (P.after v c r)) : Attempts P v (attempt c) Q :=
  ⟨hallowed, hafter⟩

theorem Attempts.bind {p : Attempt C R α} {f : α → Attempt C R β} {Q' : Except String β → V → Prop}
    (hp : Attempts P v p Q) (herror : ∀ e w, Q (.error e) w → Q' (.error e) w)
    (hok : ∀ a w, Q (.ok a) w → Attempts P w (f a) Q') : Attempts P v (p >>= f) Q' := by
  refine Follows.bind hp ?_
  intro r w hr
  cases r with
  | error e => exact herror e w hr
  | ok a => exact hok a w hr

theorem Attempts.attempt_bind {c : C} {f : R c → Attempt C R α} (hallowed : P.allowed v c)
    (herror : ∀ e, Q (.error e) (P.after v c (.error e)))
    (hok : ∀ a, Attempts P (P.after v c (.ok a)) (f a) Q) :
    Attempts P v (AwsOps.attempt c >>= f) Q := by
  refine ⟨hallowed, ?_⟩
  intro r
  cases r with
  | error e => exact herror e
  | ok a => exact hok a

theorem Attempts.mono {p : Attempt C R α} {Q' : Except String α → V → Prop}
    (h : Attempts P v p Q) (hQ : ∀ r w, Q r w → Q' r w) : Attempts P v p Q' :=
  Follows.mono h hQ

end Attempts

section Solo

variable {C : Type} {R : C → Type} {σ α β : Type}

/-- Execute a program to its end. There is no result if a command has to wait. -/
def Program.solo (exec : (c : C) → σ → Option (R c × σ)) : Program C R α → σ → Option (α × σ)
  | .done a, s => some (a, s)
  | .call c next, s =>
    match exec c s with
    | some (r, s') => (next r).solo exec s'
    | none => none

variable {exec : (c : C) → σ → Option (R c × σ)} {s : σ}

/-- The program comes to its end, with a result and a state that satisfy the assertion. -/
def Solo (exec : (c : C) → σ → Option (R c × σ)) (s : σ) (p : Program C R α)
    (Q : α → σ → Prop) : Prop :=
  ∃ a s', p.solo exec s = some (a, s') ∧ Q a s'

variable {Q : α → σ → Prop}

theorem Solo.pure {a : α} (h : Q a s) : Solo exec s (pure a : Program C R α) Q :=
  ⟨a, s, rfl, h⟩

theorem Solo.call {c : C} {next : R c → Program C R α} {r : R c} {s' : σ}
    (hexec : exec c s = some (r, s')) (h : Solo exec s' (next r) Q) :
    Solo exec s (.call c next) Q := by
  obtain ⟨a, t, hsolo, hQ⟩ := h
  refine ⟨a, t, ?_, hQ⟩
  simp only [Program.solo, hexec]
  exact hsolo

/-- Sequencing. -/
theorem Solo.bind {p : Program C R α} {f : α → Program C R β} {Q' : β → σ → Prop}
    (hp : Solo exec s p Q) (hf : ∀ a s', Q a s' → Solo exec s' (f a) Q') :
    Solo exec s (p >>= f) Q' := by
  obtain ⟨a, s', hsolo, hQ⟩ := hp
  have hnext := hf a s' hQ
  clear hf hQ
  induction p generalizing s with
  | done b =>
    cases hsolo
    exact hnext
  | call c next ih =>
    simp only [Program.solo] at hsolo
    split at hsolo
    · rename_i r t hexec
      exact Solo.call hexec (ih r hsolo)
    · cases hsolo

theorem Solo.command_bind {c : C} {f : R c → Program C R α} {r : R c} {s' : σ}
    (hexec : exec c s = some (r, s')) (h : Solo exec s' (f r) Q) :
    Solo exec s (Program.command c >>= f) Q :=
  Solo.call hexec h

theorem Solo.mono {p : Program C R α} {Q' : α → σ → Prop} (h : Solo exec s p Q)
    (hQ : ∀ a s', Q a s' → Q' a s') : Solo exec s p Q' := by
  obtain ⟨a, s', hsolo, h⟩ := h
  exact ⟨a, s', hsolo, hQ a s' h⟩

section Attempt

variable {exec : (c : C) → σ → Option (Except String (R c) × σ)}

variable {Q : Except String α → σ → Prop}

theorem Solo.attempt_bind {c : C} {f : R c → Attempt C R α} {r : R c} {s' : σ}
    (hexec : exec c s = some (.ok r, s')) (h : Solo exec s' (f r).run Q) :
    Solo exec s (attempt c >>= f : Attempt C R α).run Q :=
  Solo.call hexec h

theorem Solo.attempt_bind_error {c : C} {f : R c → Attempt C R α} {e : String} {s' : σ}
    (hexec : exec c s = some (.error e, s'))
    (h : Q (.error e) s') : Solo exec s (attempt c >>= f : Attempt C R α).run Q :=
  Solo.call hexec ⟨.error e, s', rfl, h⟩

theorem Solo.run_bind {p : Attempt C R α} {f : α → Attempt C R β} {Q' : Except String β → σ → Prop}
    (hp : Solo exec s p.run Q) (herror : ∀ e s', Q (.error e) s' → Q' (.error e) s')
    (hok : ∀ a s', Q (.ok a) s' → Solo exec s' (f a).run Q') :
    Solo exec s (p >>= f : Attempt C R β).run Q' := by
  refine Solo.bind hp ?_
  intro r s' hr
  cases r with
  | error e => exact ⟨.error e, s', rfl, herror e s' hr⟩
  | ok a => exact hok a s' hr

end Attempt

end Solo

end AwsOps

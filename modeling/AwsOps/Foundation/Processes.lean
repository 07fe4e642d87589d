import AwsOps.Foundation.Threads

/-!
# Processes that raise and die

A process is a program whose commands may raise and that raises itself. A world answers its
commands: with a value, with an exception, or by the death of the process. `Ends` is the judgement
about one run of a process in a world, with rules along the program text: what holds where the
process dies, and what holds of its result. The world may be any function of its state, so what is
proved of all worlds holds whatever the commands meet.
-/

namespace AwsOps

open List

/-- What comes of a command. -/
inductive Response (F α : Type) where
  | ok (a : α)
  | raise (e : F)
  | died

/-- A program that stops at the first exception, unless it catches it. -/
abbrev Process (C : Type) (R : C → Type) (F α : Type) :=
  ExceptT F (Program C fun c => Except F (R c)) α

/-- Issue one command. -/
def Process.command {C : Type} {R : C → Type} {F : Type} (c : C) : Process C R F (R c) :=
  ExceptT.mk (Program.command c)

/-- How a world answers a command. -/
abbrev World (C : Type) (R : C → Type) (F σ : Type) :=
  σ → (c : C) → Response F (R c) × σ

section Processes

variable {C : Type} {R : C → Type} {F σ α β : Type}

/-- Run a program in a world. There is no result where the process dies. -/
def Program.runIn (world : World C R F σ) :
    Program C (fun c => Except F (R c)) α → σ → Option α × σ
  | .done a, s => (some a, s)
  | .call c next, s =>
    match world s c with
    | (.ok r, t) => (next (.ok r)).runIn world t
    | (.raise e, t) => (next (.error e)).runIn world t
    | (.died, t) => (none, t)

variable {world : World C R F σ} {I : σ → Prop} {s : σ}

/-- From a state on, the invariant holds where the program dies, and the assertion holds of what it
returns. -/
def Program.Ends (world : World C R F σ) (I : σ → Prop) :
    σ → Program C (fun c => Except F (R c)) α → (α → σ → Prop) → Prop
  | s, .done a, Q => Q a s
  | s, .call c next, Q =>
    match world s c with
    | (.ok r, t) => Program.Ends world I t (next (.ok r)) Q
    | (.raise e, t) => Program.Ends world I t (next (.error e)) Q
    | (.died, t) => I t

variable {p : Program C (fun c => Except F (R c)) α} {Q : α → σ → Prop}

theorem Program.Ends.mono {Q' : α → σ → Prop} {I' : σ → Prop} (h : Program.Ends world I s p Q)
    (hQ : ∀ a t, Q a t → Q' a t) (hI : ∀ t, I t → I' t) : Program.Ends world I' s p Q' := by
  induction p generalizing s with
  | done a => exact hQ a s h
  | call c next ih =>
    unfold Program.Ends at h ⊢
    generalize world s c = response at h ⊢
    match response with
    | (.ok r, t) => exact ih (.ok r) h
    | (.raise e, t) => exact ih (.error e) h
    | (.died, t) => exact hI t h

theorem Program.Ends.bind {f : α → Program C (fun c => Except F (R c)) β} {Q' : β → σ → Prop}
    (hp : Program.Ends world I s p Q) (hf : ∀ a t, Q a t → Program.Ends world I t (f a) Q') :
    Program.Ends world I s (p >>= f) Q' := by
  induction p generalizing s with
  | done a => exact hf a s hp
  | call c next ih =>
    show Program.Ends world I s (.call c fun r => next r >>= f) Q'
    unfold Program.Ends at hp ⊢
    generalize world s c = response at hp ⊢
    match response with
    | (.ok r, t) => exact ih (.ok r) hp
    | (.raise e, t) => exact ih (.error e) hp
    | (.died, t) => exact hp

theorem Program.Ends.run (h : Program.Ends world I s p Q)
    (hQ : ∀ a t, Q a t → I t) : I (p.runIn world s).2 := by
  induction p generalizing s with
  | done a => exact hQ a s h
  | call c next ih =>
    unfold Program.Ends at h
    unfold Program.runIn
    generalize world s c = response at h ⊢
    match response with
    | (.ok r, t) => exact ih (.ok r) h
    | (.raise e, t) => exact ih (.error e) h
    | (.died, t) => exact h

namespace Process

/-- The invariant holds where the process dies, and the assertion holds of its result. -/
def Ends (world : World C R F σ) (I : σ → Prop) (s : σ) (p : Process C R F α)
    (Q : Except F α → σ → Prop) : Prop :=
  Program.Ends world I s p.run Q

variable {Q : Except F α → σ → Prop} {p : Process C R F α}

theorem Ends.pure {a : α} (h : Q (.ok a) s) : Ends world I s (pure a : Process C R F α) Q :=
  h

theorem Ends.throw {e : F} (h : Q (.error e) s) : Ends world I s (throw e : Process C R F α) Q :=
  h

theorem Ends.mono {Q' : Except F α → σ → Prop} {I' : σ → Prop} (h : Ends world I s p Q)
    (hQ : ∀ r t, Q r t → Q' r t) (hI : ∀ t, I t → I' t) :
    Ends world I' s p Q' :=
  Program.Ends.mono h hQ hI

theorem Ends.bind {f : α → Process C R F β} {Q' : Except F β → σ → Prop} (hp : Ends world I s p Q)
    (herror : ∀ e t, Q (.error e) t → Q' (.error e) t)
    (hok : ∀ a t, Q (.ok a) t → Ends world I t (f a) Q') : Ends world I s (p >>= f) Q' := by
  refine Program.Ends.bind hp ?_
  intro r t hr
  cases r with
  | error e => exact herror e t hr
  | ok a => exact hok a t hr

theorem Ends.tryCatch {handler : F → Process C R F α} {Q' : Except F α → σ → Prop}
    (hp : Ends world I s p Q) (hok : ∀ a t, Q (.ok a) t → Q' (.ok a) t)
    (herror : ∀ e t, Q (.error e) t → Ends world I t (handler e) Q') :
    Ends world I s (tryCatch p handler) Q' := by
  refine Program.Ends.bind hp ?_
  intro r t hr
  cases r with
  | error e => exact herror e t hr
  | ok a => exact hok a t hr

theorem Ends.command {c : C} {Q : Except F (R c) → σ → Prop}
    (hok : ∀ r t, world s c = (.ok r, t) → Q (.ok r) t)
    (hraise : ∀ e t, world s c = (.raise e, t) → Q (.error e) t)
    (hdied : ∀ t, world s c = (.died, t) → I t) : Ends world I s (command c) Q := by
  show Program.Ends world I s (.call c .done) Q
  unfold Program.Ends
  split
  · exact hok _ _ ‹_›
  · exact hraise _ _ ‹_›
  · exact hdied _ ‹_›

end Process

/-! ## Runs of many processes -/

/-- One process after the other, each until it returns, raises or dies. -/
def World.runAll (world : World C R F σ) (s : σ) (processes : List (Process C R F α)) : σ :=
  processes.foldl (fun s p => (p.run.runIn world s).2) s

theorem World.run_all_keeps {processes : List (Process C R F α)}
    (h : ∀ p ∈ processes, ∀ s, I s → Process.Ends world I s p fun _ t => I t) (hs : I s) :
    I (world.runAll s processes) := by
  induction processes generalizing s with
  | nil => exact hs
  | cons p rest ih =>
    exact ih (fun q hq => h q (mem_cons_of_mem p hq))
      ((h p mem_cons_self s hs).run fun _ _ ht => ht)

end Processes

/-! ## Worlds that keep a log -/

/-- A command and what came of it. -/
structure Entry (C : Type) (R : C → Type) (F : Type) where
  command : C
  reply : Response F (R command)

section Logs

variable {C : Type} {R : C → Type} {F α β : Type}

/-- The world whose state is the log of all commands. What comes of a command may depend on all
that came before. -/
def World.logged (answer : List (Entry C R F) → (c : C) → Response F (R c)) :
    World C R F (List (Entry C R F)) :=
  fun log c => (answer log c, log ++ [⟨c, answer log c⟩])

/-- The log goes on with quiet commands only. -/
def Continues (quiet : C → Prop) (log log' : List (Entry C R F)) : Prop :=
  ∃ l, log' = log ++ l ∧ ∀ e ∈ l, quiet e.command

variable {answer : List (Entry C R F) → (c : C) → Response F (R c)} {quiet : C → Prop}

theorem Continues.trans {log log' log'' : List (Entry C R F)} (h : Continues quiet log log')
    (h' : Continues quiet log' log'') : Continues quiet log log'' := by
  obtain ⟨l, rfl, hl⟩ := h
  obtain ⟨l', rfl, hl'⟩ := h'
  refine ⟨l ++ l', append_assoc log l l', ?_⟩
  intro e he
  rcases mem_append.mp he with he | he
  · exact hl e he
  · exact hl' e he

/-- The process issues quiet commands only, and its value and what it adds to the log satisfy the
assertion. -/
def Process.Reads (answer : List (Entry C R F) → (c : C) → Response F (R c)) (quiet : C → Prop)
    (p : Process C R F α) (Q : α → List (Entry C R F) → Prop) : Prop :=
  ∀ log, Process.Ends (World.logged answer) (Continues quiet log) log p fun r log' =>
    ∃ l, log' = log ++ l ∧ (∀ e ∈ l, quiet e.command) ∧ ∀ a, r = .ok a → Q a l

namespace Process

variable {Q : α → List (Entry C R F) → Prop}

theorem Reads.pure {a : α} (h : Q a []) : Reads answer quiet (pure a : Process C R F α) Q := by
  intro log
  refine Ends.pure ⟨[], (append_nil log).symm, (fun _ he => by cases he), ?_⟩
  rintro b ⟨⟩
  exact h

theorem Reads.throw {e : F} : Reads answer quiet (throw e : Process C R F α) Q := by
  intro log
  exact Ends.throw ⟨[], (append_nil log).symm, (fun _ he => by cases he), nofun⟩

theorem Reads.command {c : C} {Q : R c → List (Entry C R F) → Prop} (hquiet : quiet c)
    (h : ∀ r, Q r [⟨c, .ok r⟩]) : Reads answer quiet (command c) Q := by
  intro log
  have hentry : ∀ reply : Response F (R c), ∀ e ∈ [(⟨c, reply⟩ : Entry C R F)], quiet e.command := by
    intro reply e he
    rw [mem_singleton.mp he]
    exact hquiet
  refine Ends.command ?_ ?_ ?_
  · intro r t hworld
    obtain ⟨hr, rfl⟩ := Prod.mk.inj hworld
    refine ⟨_, rfl, hentry _, ?_⟩
    rintro a ⟨⟩
    rw [hr]
    exact h r
  · intro e t hworld
    obtain ⟨-, rfl⟩ := Prod.mk.inj hworld
    exact ⟨_, rfl, hentry _, nofun⟩
  · intro t hworld
    obtain ⟨-, rfl⟩ := Prod.mk.inj hworld
    exact ⟨_, rfl, hentry _⟩

theorem Reads.mono {p : Process C R F α} {Q' : α → List (Entry C R F) → Prop}
    (h : Reads answer quiet p Q) (hQ : ∀ a l, Q a l → Q' a l) : Reads answer quiet p Q' := by
  intro log
  refine (h log).mono ?_ (fun _ hI => hI)
  rintro r t ⟨l, hl, hquiet, hr⟩
  exact ⟨l, hl, hquiet, fun a ha => hQ a l (hr a ha)⟩

/-- Sequencing: the second process adds to the log of the first one. -/
theorem Reads.bind {p : Process C R F α} {f : α → Process C R F β}
    {Q' : β → List (Entry C R F) → Prop} (hp : Reads answer quiet p Q)
    (hf : ∀ a l, Q a l → Reads answer quiet (f a) fun b l' => Q' b (l ++ l')) :
    Reads answer quiet (p >>= f) Q' := by
  intro log
  refine Ends.bind (hp log) ?_ ?_
  · rintro e t ⟨l, rfl, hquiet, -⟩
    exact ⟨l, rfl, hquiet, nofun⟩
  · rintro a t ⟨l, rfl, hquiet, ha⟩
    refine (hf a l (ha a rfl) (log ++ l)).mono ?_ fun _ ht => Continues.trans ⟨l, rfl, hquiet⟩ ht
    rintro r t ⟨l', rfl, hquiet', hr⟩
    exact ⟨l ++ l', append_assoc .., fun e he => (mem_append.mp he).elim (hquiet e) (hquiet' e), hr⟩

theorem Reads.tryCatch {p : Process C R F α} {handler : F → Process C R F α}
    (hp : Reads answer quiet p Q) (hhandler : ∀ e, Reads answer quiet (handler e) Q)
    (hbefore : ∀ a l l', Q a l' → Q a (l ++ l')) :
    Reads answer quiet (tryCatch p handler) Q := by
  intro log
  refine Ends.tryCatch (hp log) (fun _ _ h => h) ?_
  rintro e t ⟨l, rfl, hquiet, -⟩
  refine (hhandler e (log ++ l)).mono ?_ fun _ ht => Continues.trans ⟨l, rfl, hquiet⟩ ht
  rintro r t ⟨l', rfl, hquiet', hr⟩
  exact ⟨l ++ l', append_assoc .., fun e he => (mem_append.mp he).elim (hquiet e) (hquiet' e),
    fun a ha => hbefore a l l' (hr a ha)⟩

end Process

end Logs

end AwsOps

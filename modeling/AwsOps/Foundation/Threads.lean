import Mathlib.Data.List.Basic

/-!
# Threads that interleave commands on shared state

A program issues commands one after the other and continues with their answers. A machine says
what a command does to the shared state when a thread executes it; threads take turns in any
order, a command may wait or raise, and a thread may crash between any two commands. A protocol
keeps a stage for each thread, which is its history as far as it matters, and says which commands
are allowed in which stage. `Follows` is the judgement that a program keeps to the protocol
whatever answers it gets, with rules along the program text, and `run_invariant` is the induction
over interleavings: at every step the command that is executed is an allowed one.
-/

namespace AwsOps

open List

/-- A program over commands `C` with answers `R`. -/
inductive Program (C : Type) (R : C → Type) (α : Type)
  | done (a : α)
  | call (c : C) (next : R c → Program C R α)

namespace Program

variable {C : Type} {R : C → Type} {α β : Type}

/-- Continue with the value of a program. -/
protected def bind : Program C R α → (α → Program C R β) → Program C R β
  | done a, f => f a
  | call c next, f => call c fun r => (next r).bind f

instance : Monad (Program C R) where
  pure := done
  bind := Program.bind

/-- The program that issues one command and returns its answer. -/
def command (c : C) : Program C R (R c) :=
  call c done

/-- Run a program for each item, in order. -/
def forEach (body : β → Program C R Unit) : List β → Program C R Unit
  | [] => pure ()
  | b :: rest => do
      body b
      forEach body rest

end Program

/-- The stages of a thread: which commands are allowed in a stage, and the stage after an answer.
Every thread starts in the initial stage. -/
structure Protocol (C : Type) (R : C → Type) (V : Type) where
  initial : V
  allowed : V → C → Prop
  after : V → (c : C) → R c → V

section Follows

variable {C : Type} {R : C → Type} {V α β : Type}

/-- From a stage on the program issues allowed commands only, and what it returns and the stage it
returns in satisfy the assertion. -/
def Follows (P : Protocol C R V) : V → Program C R α → (α → V → Prop) → Prop
  | v, .done a, Q => Q a v
  | v, .call c next, Q => P.allowed v c ∧ ∀ r, Follows P (P.after v c r) (next r) Q

variable {P : Protocol C R V} {v : V} {Q Q' : α → V → Prop}

theorem Follows.pure {a : α} (h : Q a v) : Follows P v (pure a : Program C R α) Q :=
  h

theorem Follows.command {c : C} {Q : R c → V → Prop} (hallowed : P.allowed v c)
    (hafter : ∀ r, Q r (P.after v c r)) : Follows P v (Program.command c) Q :=
  ⟨hallowed, hafter⟩

variable {p : Program C R α} {f : α → Program C R β}

theorem Follows.mono (h : Follows P v p Q) (hQ : ∀ a w, Q a w → Q' a w) : Follows P v p Q' := by
  induction p generalizing v with
  | done a => exact hQ a v h
  | call c next ih => exact ⟨h.1, fun r => ih r (h.2 r)⟩

theorem Follows.bind {Q' : β → V → Prop} (hp : Follows P v p Q)
    (hf : ∀ a w, Q a w → Follows P w (f a) Q') :
    Follows P v (p >>= f) Q' := by
  induction p generalizing v with
  | done a => exact hf a v hp
  | call c next ih => exact ⟨hp.1, fun r => ih r (hp.2 r)⟩

theorem Follows.command_bind {c : C} {f : R c → Program C R α} (hallowed : P.allowed v c)
    (hf : ∀ r, Follows P (P.after v c r) (f r) Q) : Follows P v (Program.command c >>= f) Q :=
  ⟨hallowed, hf⟩

theorem Follows.forEach {body : β → Program C R Unit} {items : List β}
    (h : ∀ b ∈ items, Follows P v (body b) fun _ w => w = v) :
    Follows P v (Program.forEach body items) fun _ w => w = v := by
  induction items with
  | nil => exact Follows.pure rfl
  | cons b rest ih =>
    refine (h b mem_cons_self).bind ?_
    rintro _ w rfl
    exact ih fun b' hb' => h b' (mem_cons_of_mem b hb')

/-- The program keeps to the protocol without leaving its stage. -/
def Quiet (P : Protocol C R V) (v : V) (p : Program C R α) : Prop :=
  Follows P v p fun _ w => w = v

theorem Quiet.pure (a : α) : Quiet P v (pure a : Program C R α) :=
  Follows.pure rfl

theorem Quiet.command {c : C} (hallowed : P.allowed v c) (hafter : ∀ r, P.after v c r = v) :
    Quiet P v (Program.command c) :=
  Follows.command hallowed hafter

theorem Quiet.bind (hp : Quiet P v p) (hf : ∀ a, Quiet P v (f a)) : Quiet P v (p >>= f) := by
  refine Follows.bind hp ?_
  rintro a w rfl
  exact hf a

theorem Quiet.follows_bind {Q' : β → V → Prop} (hp : Quiet P v p)
    (hf : ∀ a, Follows P v (f a) Q') : Follows P v (p >>= f) Q' := by
  refine Follows.bind hp ?_
  rintro a w rfl
  exact hf a

end Follows

/-- The machine that threads run on. A thread with number `i` executes a command with `exec i`,
which gives no answer while the command has to wait. `caught i` is the answer with which the
program goes on when the command raises, if it catches that, and `abort i` is what the death of
the thread does to the shared state. The environment acts on its own. -/
structure Machine (C : Type) (R : C → Type) (σ ι ε α : Type) where
  worker : ι → Program C R α
  exec : Nat → (c : C) → σ → Option (R c × σ)
  caught : Nat → (c : C) → σ → Option (R c)
  abort : Nat → σ → σ
  environment : ε → σ → σ

/-- A thread: its stage and what is left of its program. A dead thread has none. -/
structure Thread (C : Type) (R : C → Type) (V α : Type) where
  stage : V
  program : Option (Program C R α)

/-- The shared state and the threads started so far. -/
structure System (C : Type) (R : C → Type) (V σ α : Type) where
  shared : σ
  threads : List (Thread C R V α)

/-- One event of an interleaving. -/
inductive Event (ι ε : Type)
  /-- A thread is started on an input. -/
  | start (input : ι)
  /-- A thread executes its next command, unless it has to wait. -/
  | act (i : Nat)
  /-- The next command of a thread raises. -/
  | raise (i : Nat)
  /-- A thread dies. -/
  | crash (i : Nat)
  /-- The environment acts. -/
  | environment (e : ε)
  deriving DecidableEq

section Runs

variable {C : Type} {R : C → Type} {V σ ι ε α : Type}

/-- A thread that has died. -/
def Thread.dead (P : Protocol C R V) : Thread C R V α :=
  ⟨P.initial, none⟩

/-- A thread executes its next command. -/
def System.act (M : Machine C R σ ι ε α) (P : Protocol C R V) (s : System C R V σ α) (i : Nat) :
    System C R V σ α :=
  match s.threads[i]? with
  | some ⟨stage, some (.call c next)⟩ =>
    match M.exec i c s.shared with
    | some (r, shared) => ⟨shared, s.threads.set i ⟨P.after stage c r, some (next r)⟩⟩
    | none => s
  | _ => s

/-- A thread dies. -/
def System.crash (M : Machine C R σ ι ε α) (P : Protocol C R V) (s : System C R V σ α) (i : Nat) :
    System C R V σ α :=
  ⟨M.abort i s.shared, s.threads.set i (Thread.dead P)⟩

/-- The next command of a thread raises: the thread goes on where the program catches that, and
dies otherwise. -/
def System.raise (M : Machine C R σ ι ε α) (P : Protocol C R V) (s : System C R V σ α) (i : Nat) :
    System C R V σ α :=
  match s.threads[i]? with
  | some ⟨stage, some (.call c next)⟩ =>
    match M.caught i c s.shared with
    | some r => { s with threads := s.threads.set i ⟨P.after stage c r, some (next r)⟩ }
    | none => s.crash M P i
  | _ => s

/-- One step of an interleaving. -/
def System.step (M : Machine C R σ ι ε α) (P : Protocol C R V) (s : System C R V σ α) :
    Event ι ε → System C R V σ α
  | .start input => { s with threads := s.threads ++ [⟨P.initial, some (M.worker input)⟩] }
  | .act i => s.act M P i
  | .raise i => s.raise M P i
  | .crash i => s.crash M P i
  | .environment e => { s with shared := M.environment e s.shared }

/-- What one step can do. -/
inductive System.Moves (M : Machine C R σ ι ε α) (P : Protocol C R V) (s : System C R V σ α) :
    Event ι ε → System C R V σ α → Prop
  | start (input : ι) :
    Moves M P s (.start input)
      { s with threads := s.threads ++ [⟨P.initial, some (M.worker input)⟩] }
  | act {i : Nat} {stage : V} {c : C} {next : R c → Program C R α} {r : R c} {shared : σ}
      (hi : s.threads[i]? = some ⟨stage, some (.call c next)⟩)
      (hexec : M.exec i c s.shared = some (r, shared)) :
    Moves M P s (.act i) ⟨shared, s.threads.set i ⟨P.after stage c r, some (next r)⟩⟩
  | raise {i : Nat} {stage : V} {c : C} {next : R c → Program C R α} {r : R c}
      (hi : s.threads[i]? = some ⟨stage, some (.call c next)⟩)
      (hcaught : M.caught i c s.shared = some r) :
    Moves M P s (.raise i) { s with threads := s.threads.set i ⟨P.after stage c r, some (next r)⟩ }
  | dies (i : Nat) : Moves M P s (.raise i) (s.crash M P i)
  | crash (i : Nat) : Moves M P s (.crash i) (s.crash M P i)
  | environment (e : ε) : Moves M P s (.environment e) { s with shared := M.environment e s.shared }
  | stays (event : Event ι ε) : Moves M P s event s

variable (M : Machine C R σ ι ε α) (P : Protocol C R V) (s : System C R V σ α)

theorem System.step_moves (event : Event ι ε) : s.Moves M P event (s.step M P event) := by
  cases event with
  | start input => exact .start input
  | act i =>
    simp only [System.step, System.act]
    split
    · rename_i stage c next hi
      split
      · rename_i r shared hexec
        exact .act hi hexec
      · exact .stays _
    · exact .stays _
  | raise i =>
    simp only [System.step, System.raise]
    split
    · rename_i stage c next hi
      split
      · rename_i r hcaught
        exact .raise hi hcaught
      · exact .dies i
    · exact .stays _
  | crash i => exact .crash i
  | environment e => exact .environment e

/-- The state after the events of an interleaving. -/
def System.run (M : Machine C R σ ι ε α) (P : Protocol C R V) (s : System C R V σ α)
    (events : List (Event ι ε)) : System C R V σ α :=
  events.foldl (System.step M P) s

/-- Each event of the interleaving satisfies the condition in the state in which it happens. -/
def System.Meets (M : Machine C R σ ι ε α) (P : Protocol C R V)
    (condition : System C R V σ α → Event ι ε → Prop) :
    System C R V σ α → List (Event ι ε) → Prop
  | _, [] => True
  | s, event :: rest => condition s event ∧ System.Meets M P condition (s.step M P event) rest

/-- `Meets` runs the interleaving. -/
instance System.decidableMeets (M : Machine C R σ ι ε α) (P : Protocol C R V)
    (condition : System C R V σ α → Event ι ε → Prop)
    [∀ s event, Decidable (condition s event)] :
    (events : List (Event ι ε)) → (s : System C R V σ α) →
      Decidable (System.Meets M P condition s events)
  | [], _ => inferInstanceAs (Decidable True)
  | event :: rest, s =>
    have := System.decidableMeets M P condition rest (s.step M P event)
    inferInstanceAs (Decidable (_ ∧ _))

theorem System.meets_of_forall {M : Machine C R σ ι ε α} {P : Protocol C R V}
    {condition : System C R V σ α → Event ι ε → Prop} (h : ∀ s event, condition s event)
    (s : System C R V σ α) (events : List (Event ι ε)) : s.Meets M P condition events := by
  induction events generalizing s with
  | nil => trivial
  | cons event rest ih => exact ⟨h s event, ih _⟩

theorem System.meets_true (events : List (Event ι ε)) : s.Meets M P (fun _ _ => True) events :=
  System.meets_of_forall (fun _ _ => trivial) s events

theorem System.meets_append {M : Machine C R σ ι ε α} {P : Protocol C R V}
    {condition : System C R V σ α → Event ι ε → Prop} {s : System C R V σ α}
    {before after : List (Event ι ε)} :
    s.Meets M P condition (before ++ after) ↔
      s.Meets M P condition before ∧ (s.run M P before).Meets M P condition after := by
  induction before generalizing s with
  | nil => exact (and_iff_right trivial).symm
  | cons event rest ih =>
    simp only [cons_append, System.Meets, System.run, foldl_cons, and_assoc]
    exact and_congr_right fun _ => ih

theorem System.run_append (before after : List (Event ι ε)) :
    s.run M P (before ++ after) = (s.run M P before).run M P after :=
  foldl_append

/-- The number of threads in a stage that passes the test. -/
def System.count (p : V → Bool) (s : System C R V σ α) : Nat :=
  s.threads.countP fun thread => p thread.stage

theorem System.count_set (p : V → Bool) {s : System C R V σ α} {i : Nat} {thread : Thread C R V α}
    (hi : s.threads[i]? = some thread) (shared : σ) (moved : Thread C R V α) :
    System.count p ⟨shared, s.threads.set i moved⟩ + (p thread.stage).toNat =
      s.count p + (p moved.stage).toNat := by
  obtain ⟨before, threads⟩ := s
  simp only [System.count] at hi ⊢
  induction threads generalizing i with
  | nil => cases hi
  | cons first rest ih =>
    cases i with
    | zero =>
      cases hi
      simp only [set_cons_zero, countP_cons]
      cases p thread.stage <;> cases p moved.stage <;> rfl
    | succ i =>
      have hrest := ih hi
      simp only [set_cons_succ, countP_cons] at hrest ⊢
      omega

/-- The program of every thread keeps to the protocol from its stage on. -/
def System.Obeys (P : Protocol C R V) (s : System C R V σ α) : Prop :=
  ∀ thread ∈ s.threads, ∀ p ∈ thread.program, Follows P thread.stage p fun _ _ => True

/-- The program of every thread keeps to the protocol from its stage on, and what it returns
satisfies the assertion in the stage it returns in. -/
def System.Yields (P : Protocol C R V) (Q : α → V → Prop) (s : System C R V σ α) : Prop :=
  ∀ thread ∈ s.threads, ∀ p ∈ thread.program, Follows P thread.stage p Q

variable {M : Machine C R σ ι ε α} {P : Protocol C R V} {Q : α → V → Prop}
  {s : System C R V σ α}

theorem System.Yields.set (h : s.Yields P Q) (i : Nat) {thread : Thread C R V α} {shared : σ}
    (hthread : ∀ p ∈ thread.program, Follows P thread.stage p Q) :
    (⟨shared, s.threads.set i thread⟩ : System C R V σ α).Yields P Q := by
  intro other hother
  rcases mem_or_eq_of_mem_set hother with hother | rfl
  · exact h other hother
  · exact hthread

theorem System.Yields.next (h : s.Yields P Q) {i : Nat} {stage : V} {c : C}
    {next : R c → Program C R α} (hi : s.threads[i]? = some ⟨stage, some (.call c next)⟩) :
    P.allowed stage c ∧ ∀ r, Follows P (P.after stage c r) (next r) Q :=
  h _ (mem_of_getElem? hi) _ rfl

theorem System.Yields.done (h : s.Yields P Q) {thread : Thread C R V α} {a : α}
    (hthread : thread ∈ s.threads) (ha : thread.program = some (.done a)) : Q a thread.stage :=
  h thread hthread (.done a) ha

theorem System.Yields.crash (h : s.Yields P Q) (i : Nat) : (s.crash M P i).Yields P Q :=
  h.set i fun _ hp => nomatch hp

theorem System.Yields.step (hworker : ∀ input, Follows P P.initial (M.worker input) Q)
    (h : s.Yields P Q) (event : Event ι ε) : (s.step M P event).Yields P Q := by
  have hmoves := s.step_moves M P event
  generalize s.step M P event = s' at hmoves ⊢
  cases hmoves with
  | start input =>
    intro thread hthread
    rcases mem_append.mp hthread with hthread | hthread
    · exact h thread hthread
    · rw [mem_singleton.mp hthread]
      rintro p ⟨rfl⟩
      exact hworker input
  | act hi | raise hi =>
    refine h.set _ ?_
    rintro p ⟨rfl⟩
    exact (h.next hi).2 _
  | dies i | crash i => exact h.crash i
  | environment | stays => exact h

/-- An invariant that speaks of the events so far and that every step preserves which meets the
condition, while the threads keep to the protocol, holds after every interleaving whose steps meet
the condition. -/
theorem System.run_history {condition : System C R V σ α → Event ι ε → Prop}
    {invariant : List (Event ι ε) → System C R V σ α → Prop}
    (hworker : ∀ input, Follows P P.initial (M.worker input) Q)
    (hstep : ∀ before s event, s.Yields P Q → invariant before s → condition s event →
      invariant (before ++ [event]) (s.step M P event)) {events before : List (Event ι ε)}
    (hmeets : s.Meets M P condition events) (hyields : s.Yields P Q) (hs : invariant before s) :
    (s.run M P events).Yields P Q ∧ invariant (before ++ events) (s.run M P events) := by
  induction events generalizing s before with
  | nil => exact ⟨hyields, by rwa [append_nil]⟩
  | cons event rest ih =>
    rw [append_cons]
    exact ih hmeets.2 (hyields.step hworker event) (hstep before s event hyields hs hmeets.1)

/-- An invariant that every step preserves which meets the condition, while the threads keep to
the protocol, holds after every interleaving whose steps meet the condition. -/
theorem System.run_yields {condition : System C R V σ α → Event ι ε → Prop}
    {invariant : System C R V σ α → Prop}
    (hworker : ∀ input, Follows P P.initial (M.worker input) Q)
    (hstep : ∀ s event, s.Yields P Q → invariant s → condition s event →
      invariant (s.step M P event)) {events : List (Event ι ε)}
    (hmeets : s.Meets M P condition events) (hyields : s.Yields P Q)
    (hs : invariant s) : (s.run M P events).Yields P Q ∧ invariant (s.run M P events) :=
  @System.run_history _ _ _ _ _ _ _ M P Q s condition (fun _ => invariant) hworker
    (fun _ => hstep) events [] hmeets hyields hs

/-- Assertions about the stage of each thread that speak of the events so far: they hold of a
thread that starts or dies, later events do not break them, and each step of the thread itself
establishes them for its new stage. -/
structure Machine.Explains (M : Machine C R σ ι ε α) (P : Protocol C R V)
    (condition : System C R V σ α → Event ι ε → Prop) (start : System C R V σ α)
    (A : List (Event ι ε) → Nat → V → Prop) : Prop where
  initial : ∀ events i, A events i P.initial
  later : ∀ {events i v}, A events i v → ∀ event, A (events ++ [event]) i v
  act : ∀ {events i v c next r shared}, A events i v → P.allowed v c →
    condition (start.run M P events) (.act i) →
    (start.run M P events).threads[i]? = some ⟨v, some (.call c next)⟩ →
    M.exec i c (start.run M P events).shared = some (r, shared) →
    A (events ++ [.act i]) i (P.after v c r)
  raise : ∀ {events i v c r}, A events i v → P.allowed v c →
    M.caught i c (start.run M P events).shared = some r →
    A (events ++ [.raise i]) i (P.after v c r)

/-- The assertions about the stages of the threads hold. -/
def System.Explained (A : Nat → V → Prop) (s : System C R V σ α) : Prop :=
  ∀ i thread, s.threads[i]? = some thread → A i thread.stage

variable {shared : σ} {condition : System C R V σ α → Event ι ε → Prop}
  {events : List (Event ι ε)}

theorem System.Explained.set {A : Nat → V → Prop} (h : s.Explained A) (i : Nat)
    {thread : Thread C R V α} (hthread : A i thread.stage) :
    (⟨shared, s.threads.set i thread⟩ : System C R V σ α).Explained A := by
  intro j other hj
  rw [List.getElem?_set] at hj
  split at hj
  · rename_i hij
    split at hj
    · cases hj
      exact hij ▸ hthread
    · cases hj
  · exact h j other hj

theorem System.run_concat (s : System C R V σ α) (events : List (Event ι ε)) (event : Event ι ε) :
    s.run M P (events ++ [event]) = (s.run M P events).step M P event := by
  simp [System.run]

theorem System.step_act {i : Nat} {stage : V} {c : C} {next : R c → Program C R α} {r : R c}
    (hi : s.threads[i]? = some ⟨stage, some (.call c next)⟩)
    (hexec : M.exec i c s.shared = some (r, shared)) :
    s.step M P (.act i) = ⟨shared, s.threads.set i ⟨P.after stage c r, some (next r)⟩⟩ := by
  simp only [System.step, System.act, hi, hexec]

/-- One more event keeps the assertions about the stages. -/
theorem System.Explained.step {start : System C R V σ α} {A : List (Event ι ε) → Nat → V → Prop}
    (hM : M.Explains P condition start A) {event : Event ι ε}
    (hyields : (start.run M P events).Yields P Q) (h : (start.run M P events).Explained (A events))
    (hcondition : condition (start.run M P events) event) :
    ((start.run M P events).step M P event).Explained (A (events ++ [event])) := by
  have hlater : (start.run M P events).Explained (A (events ++ [event])) :=
    fun i thread hi => hM.later (h i thread hi) event
  have hdead : ∀ i, ((start.run M P events).crash M P i).Explained (A (events ++ [event])) :=
    fun i => hlater.set i (hM.initial _ i)
  have hmoves := (start.run M P events).step_moves M P event
  generalize (start.run M P events).step M P event = s' at hmoves ⊢
  cases hmoves with
  | start input =>
    intro i thread hi
    rw [List.getElem?_append] at hi
    split at hi
    · exact hlater i thread hi
    · rw [List.getElem?_singleton] at hi
      split at hi
      · cases hi
        exact hM.initial _ i
      · cases hi
  | act hi hexec =>
    exact hlater.set _ (hM.act (h _ _ hi) (hyields.next hi).1 hcondition hi hexec)
  | raise hi hcaught => exact hlater.set _ (hM.raise (h _ _ hi) (hyields.next hi).1 hcaught)
  | dies i | crash i => exact hdead i
  | environment | stays => exact hlater

/-- After every interleaving whose steps meet the condition, the assertions about the stages
hold, and what the threads have returned satisfies the assertion on it. -/
theorem System.run_explained {A : List (Event ι ε) → Nat → V → Prop}
    (hM : M.Explains P condition ⟨shared, []⟩ A)
    (hworker : ∀ input, Follows P P.initial (M.worker input) Q)
    (hmeets : System.Meets M P condition (⟨shared, []⟩ : System C R V σ α) events) :
    let s := System.run M P (⟨shared, []⟩ : System C R V σ α) events
    s.Yields P Q ∧ s.Explained (A events) := by
  have hrun := @System.run_history _ _ _ _ _ _ _ M P Q ⟨shared, []⟩ condition
    (fun before s => s = System.run M P ⟨shared, []⟩ before ∧ s.Explained (A before)) hworker
    (by
      rintro before s event hyields ⟨rfl, hs⟩ hcondition
      exact ⟨(System.run_concat ..).symm, hs.step hM hyields hcondition⟩)
    events [] hmeets nofun ⟨rfl, nofun⟩
  exact ⟨hrun.1, hrun.2.2⟩

theorem System.Obeys.next (h : s.Obeys P) {i : Nat} {stage : V} {c : C} {next : R c → Program C R α}
    (hi : s.threads[i]? = some ⟨stage, some (.call c next)⟩) :
    P.allowed stage c ∧ ∀ r, Follows P (P.after stage c r) (next r) fun _ _ => True :=
  System.Yields.next h hi

theorem System.run_invariant {invariant : System C R V σ α → Prop}
    (hworker : ∀ input, Follows P P.initial (M.worker input) fun _ _ => True)
    (hstep : ∀ s event, s.Obeys P → invariant s → condition s event →
      invariant (s.step M P event)) (hmeets : s.Meets M P condition events) (hobeys : s.Obeys P)
    (hs : invariant s) : (s.run M P events).Obeys P ∧ invariant (s.run M P events) :=
  System.run_yields hworker hstep hmeets hobeys hs

/-- An invariant of the shared state, and an assertion about it for each stage that no step of
another thread can break. -/
structure Machine.Guarantees (M : Machine C R σ ι ε α) (P : Protocol C R V) (I : σ → Prop)
    (A : V → σ → Prop) : Prop where
  initial : ∀ {σ}, I σ → A P.initial σ
  exec : ∀ {i v c σ r σ'}, I σ → A v σ → P.allowed v c → M.exec i c σ = some (r, σ') →
    I σ' ∧ A (P.after v c r) σ' ∧ ∀ w, A w σ → A w σ'
  caught : ∀ {i v c σ r}, I σ → A v σ → P.allowed v c → M.caught i c σ = some r →
    A (P.after v c r) σ
  abort : ∀ {i σ}, I σ → I (M.abort i σ) ∧ ∀ w, A w σ → A w (M.abort i σ)
  environment : ∀ {e σ}, I σ → I (M.environment e σ) ∧ ∀ w, A w σ → A w (M.environment e σ)

/-- The shared state satisfies the invariant, and the assertion of the stage of every thread. -/
def System.Keeps (I : σ → Prop) (A : V → σ → Prop) (s : System C R V σ α) : Prop :=
  I s.shared ∧ ∀ thread ∈ s.threads, A thread.stage s.shared

variable {I : σ → Prop} {A : V → σ → Prop}

theorem System.Keeps.set (h : s.Keeps I A) (hI : I shared) (hother : ∀ w, A w s.shared → A w shared)
    (i : Nat) {thread : Thread C R V α} (hthread : A thread.stage shared) :
    (⟨shared, s.threads.set i thread⟩ : System C R V σ α).Keeps I A := by
  refine ⟨hI, fun other hmem => ?_⟩
  rcases mem_or_eq_of_mem_set hmem with hmem | rfl
  · exact hother _ (h.2 other hmem)
  · exact hthread

theorem System.Keeps.crash (hM : M.Guarantees P I A) (h : s.Keeps I A) (i : Nat) :
    (s.crash M P i).Keeps I A := by
  obtain ⟨hI, hother⟩ := hM.abort (i := i) h.1
  exact h.set hI hother i (hM.initial hI)

theorem System.Keeps.step (hM : M.Guarantees P I A) (hyields : s.Yields P Q) (h : s.Keeps I A)
    (event : Event ι ε) : (s.step M P event).Keeps I A := by
  have hmoves := s.step_moves M P event
  generalize s.step M P event = s' at hmoves ⊢
  cases hmoves with
  | start input =>
    refine ⟨h.1, fun thread hthread => ?_⟩
    rcases mem_append.mp hthread with hthread | hthread
    · exact h.2 thread hthread
    · rw [mem_singleton.mp hthread]
      exact hM.initial h.1
  | act hi hexec =>
    obtain ⟨hI, hthread, hother⟩ :=
      hM.exec h.1 (h.2 _ (mem_of_getElem? hi)) (hyields.next hi).1 hexec
    exact h.set hI hother _ hthread
  | raise hi hcaught =>
    exact h.set h.1 (fun _ hw => hw) _
      (hM.caught h.1 (h.2 _ (mem_of_getElem? hi)) (hyields.next hi).1 hcaught)
  | dies i | crash i => exact h.crash hM i
  | environment e =>
    obtain ⟨hI, hother⟩ := hM.environment (e := e) h.1
    exact ⟨hI, fun thread hthread => hother _ (h.2 thread hthread)⟩
  | stays => exact h

/-- After every interleaving the invariant and the assertions hold, and what the threads have
returned satisfies the assertion on it. -/
theorem System.run_keeps (hM : M.Guarantees P I A)
    (hworker : ∀ input, Follows P P.initial (M.worker input) Q) (hI : I shared)
    (events : List (Event ι ε)) :
    let s := System.run M P (⟨shared, []⟩ : System C R V σ α) events
    s.Yields P Q ∧ s.Keeps I A := by
  exact System.run_yields hworker (fun s event hyields hs _ => hs.step hM hyields event)
    (System.meets_true M P _ events) nofun ⟨hI, nofun⟩

/-! ## Assertions that know their thread -/

/-- The next command of the thread, if it has one, meets the condition. -/
def Thread.NextMeets (condition : C → Prop) : Thread C R V α → Prop
  | ⟨_, some (.call c _)⟩ => condition c
  | _ => True

instance (condition : C → Prop) [DecidablePred condition] :
    (thread : Thread C R V α) → Decidable (thread.NextMeets condition)
  | ⟨_, some (.call c _)⟩ => inferInstanceAs (Decidable (condition c))
  | ⟨_, some (.done _)⟩ | ⟨_, none⟩ => isTrue trivial

/-- An act of a thread executes a command that meets the condition; other events meet it. -/
def System.ActsMeet (condition : Nat → C → σ → Prop) (s : System C R V σ α) :
    Event ι ε → Prop
  | .act i => ∀ thread ∈ s.threads[i]?, thread.NextMeets fun c => condition i c s.shared
  | _ => True

instance (condition : Nat → C → σ → Prop) [∀ i c σ, Decidable (condition i c σ)]
    (s : System C R V σ α) : (event : Event ι ε) → Decidable (s.ActsMeet condition event)
  | .act i =>
    inferInstanceAs (Decidable
      (∀ thread ∈ s.threads[i]?, thread.NextMeets fun c => condition i c s.shared))
  | .start _ | .raise _ | .crash _ | .environment _ => isTrue trivial

theorem System.acts_meet_true (s : System C R V σ α) (event : Event ι ε) :
    s.ActsMeet (fun _ _ _ => True) event := by
  cases event with
  | act i =>
    intro thread _
    unfold Thread.NextMeets
    split <;> trivial
  | _ => trivial

/-- An invariant of the shared state that knows how many threads were started, and an assertion
for each stage that knows its thread. A thread establishes its own assertions when its commands
meet the condition, and no other thread can break them. -/
structure Machine.Owns (M : Machine C R σ ι ε α) (P : Protocol C R V)
    (condition : Nat → C → σ → Prop) (J : Nat → σ → Prop) (B : Nat → V → σ → Prop) : Prop where
  start : ∀ {n σ}, J n σ → J (n + 1) σ ∧ B n P.initial σ
  exec : ∀ {n i v c σ r σ'}, i < n → J n σ → B i v σ → P.allowed v c → condition i c σ →
    M.exec i c σ = some (r, σ') →
    J n σ' ∧ B i (P.after v c r) σ' ∧ ∀ k w, k ≠ i → B k w σ → B k w σ'
  caught : ∀ {n i v c σ r}, i < n → J n σ → B i v σ → P.allowed v c →
    M.caught i c σ = some r → B i (P.after v c r) σ
  abort : ∀ {n i σ}, J n σ → J n (M.abort i σ) ∧ ∀ k w, k ≠ i → B k w σ → B k w (M.abort i σ)
  environment : ∀ {n e σ}, J n σ →
    J n (M.environment e σ) ∧ ∀ k w, B k w σ → B k w (M.environment e σ)

/-- The shared state satisfies the invariant, and the assertion of the stage of every thread that
is alive. -/
def System.Owned (J : Nat → σ → Prop) (B : Nat → V → σ → Prop) (s : System C R V σ α) : Prop :=
  J s.threads.length s.shared ∧
    ∀ (i : Nat) (stage : V) (p : Program C R α),
      s.threads[i]? = some ⟨stage, some p⟩ → B i stage s.shared

variable {condition : Nat → C → σ → Prop} {J : Nat → σ → Prop} {B : Nat → V → σ → Prop}

theorem System.Owned.set (h : s.Owned J B) (hJ : J s.threads.length shared) {i : Nat}
    (hother : ∀ k w, k ≠ i → B k w s.shared → B k w shared) {thread : Thread C R V α}
    (hthread : ∀ p, thread.program = some p → B i thread.stage shared) :
    (⟨shared, s.threads.set i thread⟩ : System C R V σ α).Owned J B := by
  refine ⟨by simpa using hJ, fun k stage p hk => ?_⟩
  rw [List.getElem?_set] at hk
  split at hk
  · rename_i hik
    subst hik
    split at hk
    · cases hk
      exact hthread p rfl
    · cases hk
  · rename_i hik
    exact hother k stage (Ne.symm hik) (h.2 k stage p hk)

theorem System.Owned.crash (hM : M.Owns P condition J B) (h : s.Owned J B) (i : Nat) :
    (s.crash M P i).Owned J B := by
  obtain ⟨hJ, hother⟩ := hM.abort (i := i) h.1
  exact h.set hJ hother nofun

theorem System.Owned.step (hM : M.Owns P condition J B) (hyields : s.Yields P Q) (h : s.Owned J B)
    (event : Event ι ε) (hmeets : s.ActsMeet condition event) :
    (s.step M P event).Owned J B := by
  have hmoves := s.step_moves M P event
  generalize s.step M P event = s' at hmoves ⊢
  cases hmoves with
  | start input =>
    obtain ⟨hJ, hB⟩ := hM.start h.1
    refine ⟨by simpa using hJ, fun k stage p hk => ?_⟩
    rcases Nat.lt_trichotomy k s.threads.length with hlt | rfl | hgt
    · exact h.2 k stage p (by simpa [List.getElem?_append_left hlt] using hk)
    · simp only [List.getElem?_concat_length, Option.some.injEq] at hk
      cases hk
      exact hB
    · have hlength := (List.getElem?_eq_some_iff.mp hk).1
      simp only [length_append, length_singleton] at hlength
      omega
  | act hi hexec =>
    have hlt := (List.getElem?_eq_some_iff.mp hi).1
    obtain ⟨hJ, hB, hother⟩ := hM.exec hlt h.1 (h.2 _ _ _ hi) (hyields.next hi).1
      (hmeets _ hi) hexec
    exact h.set hJ hother fun _ _ => hB
  | raise hi hcaught =>
    have hlt := (List.getElem?_eq_some_iff.mp hi).1
    exact h.set h.1 (fun _ _ _ hw => hw) fun _ _ =>
      hM.caught hlt h.1 (h.2 _ _ _ hi) (hyields.next hi).1 hcaught
  | dies i | crash i => exact h.crash hM i
  | environment e =>
    obtain ⟨hJ, hother⟩ := hM.environment (e := e) h.1
    exact ⟨hJ, fun k stage p hk => hother k stage (h.2 k stage p hk)⟩
  | stays => exact h

/-- After every interleaving whose commands meet the condition the invariant and the assertions
hold, and what the threads have returned satisfies the assertion on it. -/
theorem System.run_owned (hM : M.Owns P condition J B)
    (hworker : ∀ input, Follows P P.initial (M.worker input) Q) (hJ : J 0 shared)
    (hmeets : System.Meets M P (System.ActsMeet condition) ⟨shared, []⟩ events) :
    let s := System.run M P (⟨shared, []⟩ : System C R V σ α) events
    s.Yields P Q ∧ s.Owned J B :=
  System.run_yields hworker (fun _ event hyields hs hcond => hs.step hM hyields event hcond)
    hmeets nofun ⟨hJ, nofun⟩

end Runs

end AwsOps

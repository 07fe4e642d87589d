import Mathlib.Data.List.Basic

/-!
# Database sessions with failing statements

A session is a program over a store that issues statements one after the other. Each statement
commits on its own unless it is part of a transaction, and the schedule of faults decides which
statements raise: a statement that raises has not been applied. Every schedule is possible, so a
program that dies after some statement is one whose later statements all raise. `Triple` is the
judgement about all schedules, with one assertion for a session that returns and one for a session
that raises, and the rules below derive it along the program text.
-/

namespace AwsOps

/-- What a session leaves behind: its value or the error it raised, the store, and the number of
statements issued so far. -/
structure Reply (σ α : Type) where
  outcome : Except String α
  store : σ
  issued : Nat

/-- A program over the store `σ`. The schedule gives the error of each statement that raises. -/
structure Session (σ α : Type) where
  run : (Nat → Option String) → σ → Nat → Reply σ α

namespace Session

variable {σ α β : Type}

/-- Return a value without a statement. -/
protected def pure (a : α) : Session σ α :=
  ⟨fun _ s n => ⟨.ok a, s, n⟩⟩

/-- Continue with the value of a session, unless it raised. -/
protected def bind (m : Session σ α) (f : α → Session σ β) : Session σ β :=
  ⟨fun faults s n =>
    let reply := m.run faults s n
    match reply.outcome with
    | .ok a => (f a).run faults reply.store reply.issued
    | .error e => ⟨.error e, reply.store, reply.issued⟩⟩

instance : Monad (Session σ) where
  pure := Session.pure
  bind := Session.bind

/-- Raise an error of the program itself. -/
def raise (e : String) : Session σ α :=
  ⟨fun _ s n => ⟨.error e, s, n⟩⟩

/-- A writing statement. It may also raise by itself, when it violates a constraint. -/
def exec (f : σ → Except String σ) : Session σ Unit :=
  ⟨fun faults s n =>
    match faults n, f s with
    | some e, _ => ⟨.error e, s, n + 1⟩
    | none, .ok s' => ⟨.ok (), s', n + 1⟩
    | none, .error e => ⟨.error e, s, n + 1⟩⟩

/-- A reading statement. -/
def query (f : σ → α) : Session σ α :=
  ⟨fun faults s n =>
    match faults n with
    | some e => ⟨.error e, s, n + 1⟩
    | none => ⟨.ok (f s), s, n + 1⟩⟩

/-- Record something in the store that is no part of the database. -/
def note (f : σ → σ) : Session σ Unit :=
  ⟨fun _ s n => ⟨.ok (), f s, n⟩⟩

/-- Run a handler when the session raises. -/
def catching (m : Session σ α) (handler : String → Session σ α) : Session σ α :=
  ⟨fun faults s n =>
    let reply := m.run faults s n
    match reply.outcome with
    | .ok a => ⟨.ok a, reply.store, reply.issued⟩
    | .error e => (handler e).run faults reply.store reply.issued⟩

/-- `BEGIN`, the body and `COMMIT`. When the body or the commit raises, `ROLLBACK` restores the
store; a rollback that raises itself has lost the connection, which restores the store as well. -/
def transaction (body : Session σ α) : Session σ α :=
  ⟨fun faults s n =>
    let rollback (e : String) (n : Nat) : Reply σ α := ⟨.error ((faults n).getD e), s, n + 1⟩
    match faults n with
    | some e => ⟨.error e, s, n + 1⟩
    | none =>
      let reply := body.run faults s (n + 1)
      match reply.outcome with
      | .error e => rollback e reply.issued
      | .ok a =>
        match faults reply.issued with
        | some e => rollback e (reply.issued + 1)
        | none => ⟨.ok a, reply.store, reply.issued + 1⟩⟩

/-- Run a session for each item, in order, and collect the values. -/
def forEach (body : α → Session σ β) : List α → Session σ (List β)
  | [] => pure []
  | a :: rest => do
      let b ← body a
      let bs ← forEach body rest
      pure (b :: bs)

/-- Under every schedule, a session started in `P` returns in `Q` or raises in `E`. -/
def Triple (P : σ → Prop) (m : Session σ α) (Q : α → σ → Prop) (E : σ → Prop) : Prop :=
  ∀ faults s n, P s →
    match (m.run faults s n).outcome with
    | .ok a => Q a (m.run faults s n).store
    | .error _ => E (m.run faults s n).store

section Rules

variable {P P' R : σ → Prop} {Q Q' : α → σ → Prop} {E E' : σ → Prop}

variable {m : Session σ α} {body : α → Session σ β}

variable {faults : Nat → Option String} {items : List α}

theorem Triple.returned (h : Triple P m Q E) {s : σ} {n : Nat} (hs : P s) {a : α}
    (hok : (m.run faults s n).outcome = .ok a) :
    Q a (m.run faults s n).store := by
  have hm := h faults s n hs
  rw [hok] at hm
  exact hm

theorem Triple.raised (h : Triple P m Q E) {s : σ} {n : Nat} (hs : P s) {e : String}
    (herror : (m.run faults s n).outcome = .error e) :
    E (m.run faults s n).store := by
  have hm := h faults s n hs
  rw [herror] at hm
  exact hm

theorem Triple.weaken (h : Triple P m Q E) (hP : ∀ s, P' s → P s) (hQ : ∀ a s, Q a s → Q' a s)
    (hE : ∀ s, E s → E' s) : Triple P' m Q' E' := by
  intro faults s n hs
  have hm := h faults s n (hP s hs)
  split at hm
  · exact hQ _ _ hm
  · exact hE _ hm

/-- Two judgements about one session hold together. -/
theorem Triple.and (h : Triple P m Q E) (h' : Triple P' m Q' E') :
    Triple (fun s => P s ∧ P' s) m (fun a s => Q a s ∧ Q' a s) (fun s => E s ∧ E' s) := by
  intro faults s n hs
  have hm := h faults s n hs.1
  have hm' := h' faults s n hs.2
  cases houtcome : (m.run faults s n).outcome with
  | ok a =>
    rw [houtcome] at hm hm'
    exact ⟨hm, hm'⟩
  | error e =>
    rw [houtcome] at hm hm'
    exact ⟨hm, hm'⟩

theorem Triple.assuming {p : Prop} (hp : ∀ s, P s → p) (h : p → Triple P m Q E) : Triple P m Q E :=
  fun faults s n hs => h (hp s hs) faults s n hs

theorem Triple.naming {γ : Type} (part : σ → γ)
    (h : ∀ c, Triple (fun s => P s ∧ part s = c) m Q E) : Triple P m Q E :=
  fun faults s n hs => h (part s) faults s n ⟨hs, rfl⟩

theorem Triple.store {I : σ → Prop} (h : Triple P m (fun _ => I) I) (faults : Nat → Option String)
    (s : σ) (n : Nat) (hs : P s) : I (m.run faults s n).store := by
  have hm := h faults s n hs
  split at hm <;> exact hm

theorem Triple.pure {a : α} (h : ∀ s, P s → Q a s) : Triple P (Session.pure a) Q E :=
  fun _ s _ hs => h s hs

theorem Triple.raise {e : String} (h : ∀ s, P s → E s) :
    Triple P (Session.raise e : Session σ α) Q E :=
  fun _ s _ hs => h s hs

theorem Triple.bind {f : α → Session σ β} {Q' : β → σ → Prop} (hm : Triple P m Q E)
    (hf : ∀ a, Triple (Q a) (f a) Q' E) :
    Triple P (Session.bind m f) Q' E := by
  intro faults s n hs
  have hfirst := hm faults s n hs
  simp only [Session.bind]
  split at hfirst
  · exact hf _ faults _ _ hfirst
  · exact hfirst

/-- A writing statement changes the store or leaves it alone. -/
theorem Triple.exec {f : σ → Except String σ} {Q : Unit → σ → Prop}
    (hQ : ∀ s s', P s → f s = .ok s' → Q () s') (hE : ∀ s, P s → E s) :
    Triple P (Session.exec f) Q E := by
  intro faults s n hs
  simp only [Session.exec]
  cases faults n with
  | some e => exact hE s hs
  | none =>
    cases hf : f s with
    | ok s' => exact hQ s s' hs hf
    | error e => exact hE s hs

theorem Triple.query {f : σ → α} (hQ : ∀ s, P s → Q (f s) s) (hE : ∀ s, P s → E s) :
    Triple P (Session.query f) Q E := by
  intro faults s n hs
  simp only [Session.query]
  cases faults n with
  | some e => exact hE s hs
  | none => exact hQ s hs

theorem Triple.note {f : σ → σ} {Q : Unit → σ → Prop} (hQ : ∀ s, P s → Q () (f s)) :
    Triple P (Session.note f) Q E :=
  fun _ s _ hs => hQ s hs

theorem Triple.catching {handler : String → Session σ α} (hm : Triple P m Q R)
    (hh : ∀ e, Triple R (handler e) Q E) :
    Triple P (Session.catching m handler) Q E := by
  intro faults s n hs
  have hfirst := hm faults s n hs
  simp only [Session.catching]
  split at hfirst
  · exact hfirst
  · exact hh _ faults _ _ hfirst

theorem Triple.transaction {body : Session σ α} (hbody : Triple P body Q fun _ => True)
    (hE : ∀ s, P s → E s) : Triple P (Session.transaction body) Q E := by
  intro faults s n hs
  simp only [Session.transaction]
  cases faults n with
  | some e => exact hE s hs
  | none =>
    have hreply := hbody faults s (n + 1) hs
    split at hreply
    · rename_i a hok
      simp only [hok]
      cases faults (body.run faults s (n + 1)).issued with
      | some e => exact hE s hs
      | none => exact hreply
    · rename_i e herror
      simp only [herror]
      exact hE s hs

/-- A loop over the rest of the items keeps an assertion about those that it has processed and the
values that they gave. -/
theorem Triple.forEach_from {I : List α → List β → σ → Prop}
    (hbody : ∀ done a rest values, done ++ a :: rest = items →
      Triple (I done values) (body a) (fun b => I (done ++ [a]) (values ++ [b])) E)
    (rest done : List α) (values : List β) (hsplit : done ++ rest = items) :
    Triple (I done values) (Session.forEach body rest) (fun bs => I items (values ++ bs)) E := by
  induction rest generalizing done values with
  | nil =>
    refine .pure fun s hs => ?_
    rw [List.append_nil] at hsplit ⊢
    exact hsplit ▸ hs
  | cons a rest ih =>
    refine .bind (hbody done a rest values hsplit) fun b => ?_
    have hrest := ih (done ++ [a]) (values ++ [b]) ((List.append_cons done a rest).symm.trans hsplit)
    refine .bind hrest fun bs => .pure fun s hs => ?_
    rwa [List.append_cons]

theorem Triple.forEach (I : List α → List β → σ → Prop)
    (hbody : ∀ done a rest values, done ++ a :: rest = items →
      Triple (I done values) (body a) (fun b => I (done ++ [a]) (values ++ [b])) E) :
    Triple (I [] []) (Session.forEach body items) (fun bs => I items bs) E :=
  Triple.forEach_from hbody items [] [] rfl

theorem Triple.forEach_map {f : α → β} (hbody : ∀ a, Triple P (body a) (fun b s => P s ∧ b = f a) E)
    (items : List α) :
    Triple P (Session.forEach body items) (fun bs s => P s ∧ bs = items.map f) E := by
  induction items with
  | nil => exact .pure fun s hs => ⟨hs, rfl⟩
  | cons a rest ih =>
    refine (hbody a).bind fun b => .assuming (fun s hs => hs.2) fun hb => ?_
    refine .bind (ih.weaken (fun s hs => hs.1) (fun _ _ hs => hs) fun _ hs => hs) fun bs =>
      .pure fun s hs => ⟨hs.1, ?_⟩
    rw [List.map_cons, hb, hs.2]

end Rules

end Session

end AwsOps

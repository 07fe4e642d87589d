import Mathlib.Data.List.Basic

/-!
# A query with a statement timeout

A call of `withStatementTimeout` races a transaction against a timer. The two share a
`TimeoutRaceState`, by which one of them gives the connection back. The replies of the pool and the
server come in any order with the timer, also after it has fired.
-/

namespace AwsOps.Auth

/-- The statement that a transaction runs. -/
inductive Statement where
  | selectCutoff (sub : String)
  | upsertCutoff (sub : String) (iat : Int)
  deriving DecidableEq

/-- The table `session_revocations`, in seconds. -/
abbrev Cutoffs := String → Option Int

/-- The upsert writes a cutoff that is newer than the stored one. -/
def Cutoffs.upsert (stored : Cutoffs) (sub : String) (iat : Int) : Cutoffs :=
  fun user =>
    if user = sub then
      match stored sub with
      | none => some iat
      | some cutoff => if cutoff < iat then some iat else some cutoff
    else stored user

/-- What a commit does. The upsert locks the row until the commit, so its guard reads the value
that the commit replaces. -/
def Statement.commit (stored : Cutoffs) : Statement → Cutoffs
  | .selectCutoff _ => stored
  | .upsertCutoff sub iat => stored.upsert sub iat

def Statement.rows (stored : Cutoffs) : Statement → Option Int
  | .selectCutoff sub => stored sub
  | .upsertCutoff .. => none

/-- What `runInTimeoutScopedTransaction` waits for. -/
inductive Stage where
  | connect
  | start
  | limit
  | statement
  | commit (rows : Option Int)
  | rollback (e : String)
  | ended
  deriving DecidableEq

/-- What the pool or the server replies. The reply to a commit may be lost. -/
inductive Reply where
  | ok
  | error (e : String)
  | lost (e : String)
  deriving DecidableEq

/-- The timer of the call. -/
inductive Timer where
  | armed | fired | cleared
  deriving DecidableEq

/-- How a call ends. -/
inductive Outcome where
  | rows (revokedAt : Option Int)
  | failed (e : String)
  deriving DecidableEq

/-- How a connection is given up: `release()` or `release(true)`. -/
inductive Disposal where
  | returned | destroyed
  deriving DecidableEq

/-- A call of `withStatementTimeout` with its `TimeoutRaceState`: `client` tells whether a
connection was acquired. `raced` is the first outcome of the race and `settled` tells whether the
caller has it. The history `disposals` is what happened to the connection. -/
structure TimeoutRace where
  job : Statement
  stage : Stage
  client : Bool
  released : Bool
  cancelled : Bool
  timer : Timer
  raced : Option Outcome
  settled : Bool
  disposals : List Disposal
  deriving DecidableEq

/-- The call begins: it asks the pool for a connection and starts the timer. -/
def TimeoutRace.new (job : Statement) : TimeoutRace :=
  { job
    stage := .connect
    client := false
    released := false
    cancelled := false
    timer := .armed
    raced := none
    settled := false
    disposals := [] }

/-- Give the connection up, unless that has been done. -/
def TimeoutRace.dispose (call : TimeoutRace) (how : Disposal) : TimeoutRace :=
  if call.released then call
  else { call with released := true, disposals := call.disposals ++ [how] }

/-- `Promise.race`: the first outcome counts. -/
def TimeoutRace.race (call : TimeoutRace) (o : Outcome) : TimeoutRace :=
  { call with raced := call.raced.or (some o) }

/-- The transaction ends: the `finally` block releases the connection. -/
def TimeoutRace.finish (call : TimeoutRace) (o : Outcome) : TimeoutRace :=
  TimeoutRace.race { call.dispose .returned with stage := .ended } o

/-- `runInTimeoutScopedTransaction` goes on with a reply. -/
def TimeoutRace.reply (stored : Cutoffs) (call : TimeoutRace) (r : Reply) : Option TimeoutRace :=
  match call.stage, r with
  | .connect, .ok =>
    let call := { call with client := true }
    some (if call.cancelled then
      call.finish (.failed "revocation query cancelled before it acquired a connection")
    else { call with stage := .start })
  -- without a connection there is nothing to roll back or to release
  | .connect, .error e => some (TimeoutRace.race { call with stage := .ended } (.failed e))
  | .start, .ok => some { call with stage := .limit }
  | .limit, .ok => some { call with stage := .statement }
  | .statement, .ok => some { call with stage := .commit (call.job.rows stored) }
  | .commit rows, .ok => some (call.finish (.rows rows))
  | .start, .error e | .limit, .error e | .statement, .error e | .commit _, .error e
  | .commit _, .lost e => some { call with stage := .rollback e }
  | .rollback e, .ok | .rollback e, .error _ => some (call.finish (.failed e))
  | _, _ => none

def TimeoutRace.commits (call : TimeoutRace) : Reply → Bool
  | .ok | .lost _ =>
    match call.stage with
    | .commit _ => true
    | _ => false
  | .error _ => false

/-- The timer fires: it cancels the transaction and destroys the connection. -/
def TimeoutRace.timeout (call : TimeoutRace) : Option TimeoutRace :=
  if call.timer = .armed then
    let call := { call with cancelled := true, timer := .fired }
    let call := if call.client then call.dispose .destroyed else call
    some (call.race (.failed "statement timed out"))
  else none

/-- The race is decided: the caller clears the timer and has the outcome. -/
def TimeoutRace.settle (call : TimeoutRace) : TimeoutRace :=
  { call with settled := true, timer := if call.timer = .armed then .cleared else call.timer }

/-! ## The connection -/

/-- The connection is given up once: by the end of the transaction, or before by the timer. -/
structure TimeoutRace.Sound (call : TimeoutRace) : Prop where
  outside : call.client = false → call.disposals = [] ∧ call.released = false ∧
    (call.stage = .connect ∨ call.stage = .ended)
  released : call.released = true → call.disposals.length = 1
  unreleased : call.released = false → call.disposals = []
  waits : call.stage = .connect → call.client = false
  ended : call.stage = .ended → call.client = true → call.released = true
  fired : call.timer = .fired → call.client = true → call.released = true
  cancelled : call.timer = .fired → call.cancelled = true
  raced : call.raced.isSome = true → call.stage = .ended ∨ call.timer = .fired
  cleared : call.timer = .cleared → call.stage = .ended

theorem TimeoutRace.sound_new (job : Statement) : (TimeoutRace.new job).Sound where
  outside _ := ⟨rfl, rfl, .inl rfl⟩
  released := nofun
  unreleased _ := rfl
  waits _ := rfl
  ended := nofun
  fired := nofun
  cancelled := nofun
  raced := nofun
  cleared := nofun

variable {call : TimeoutRace}

/-- The end of a transaction that holds a connection gives it up. -/
theorem TimeoutRace.Sound.finish (h : call.Sound) (hclient : call.client = true)
    (o : Outcome) : (call.finish o).Sound := by
  unfold TimeoutRace.finish TimeoutRace.race TimeoutRace.dispose
  cases hr : call.released with
  | true =>
    exact ⟨fun hc => absurd (hclient.symm.trans hc) (by decide), fun _ => h.released hr,
      fun hn => absurd (hr.symm.trans hn) (by decide), nofun, fun _ _ => hr, fun _ _ => hr,
      h.cancelled, fun _ => .inl rfl, fun _ => rfl⟩
  | false =>
    refine ⟨fun hc => absurd (hclient.symm.trans hc) (by decide), fun _ => ?_, nofun, nofun,
      fun _ _ => rfl, fun _ _ => rfl, h.cancelled, fun _ => .inl rfl, fun _ => rfl⟩
    simp [h.unreleased hr]

theorem TimeoutRace.Sound.next (h : call.Sound) (hclient : call.client = true)
    (hended : call.stage ≠ .ended) {stage : Stage} (hconnect : stage ≠ .connect)
    (hnext : stage ≠ .ended) : TimeoutRace.Sound { call with stage } where
  outside hc := absurd (hclient.symm.trans hc) (by decide)
  released := h.released
  unreleased := h.unreleased
  waits hs := absurd hs hconnect
  ended hs := absurd hs hnext
  fired := h.fired
  cancelled := h.cancelled
  raced hr := (h.raced hr).elim (fun hs => absurd hs hended) .inr
  cleared hc := absurd (h.cleared hc) hended

theorem TimeoutRace.Sound.client (h : call.Sound) (hconnect : call.stage ≠ .connect)
    (hended : call.stage ≠ .ended) : call.client = true := by
  cases hc : call.client with
  | true => rfl
  | false =>
    rcases (h.outside hc).2.2 with hs | hs
    · exact absurd hs hconnect
    · exact absurd hs hended

theorem TimeoutRace.Sound.reply {stored : Cutoffs} {call' : TimeoutRace} {r : Reply}
    (h : call.Sound) (hreply : call.reply stored r = some call') : call'.Sound := by
  have hnotCleared : call.stage ≠ .ended → call.timer ≠ .cleared :=
    fun hs hc => hs (h.cleared hc)
  unfold TimeoutRace.reply at hreply
  split at hreply
  case h_1 hstage =>
    cases hreply
    have hne : call.stage ≠ .ended := by
      rw [hstage]
      decide
    obtain ⟨hdisposals, hreleased, -⟩ := h.outside (h.waits hstage)
    have hout := hnotCleared hne
    split
    · unfold TimeoutRace.finish TimeoutRace.race TimeoutRace.dispose
      rw [show ({ call with client := true } : TimeoutRace).released = false from hreleased]
      refine ⟨nofun, fun _ => ?_, nofun, nofun, fun _ _ => rfl, fun _ _ => rfl, h.cancelled,
        fun _ => .inl rfl, fun _ => rfl⟩
      simp [hdisposals]
    · rename_i hcancelled
      have hfired : call.timer ≠ .fired := fun hf => hcancelled (h.cancelled hf)
      exact ⟨nofun, fun hr => absurd (hreleased.symm.trans hr) (by decide), fun _ => hdisposals,
        nofun, nofun, fun hf => absurd hf hfired, fun hf => absurd hf hfired,
        fun hr => (h.raced hr).elim (fun hs => absurd hs hne) .inr,
        fun hc => absurd hc hout⟩
  case h_2 hstage =>
    cases hreply
    have hclient := h.waits hstage
    obtain ⟨hdisposals, hreleased, -⟩ := h.outside hclient
    exact ⟨fun _ => ⟨hdisposals, hreleased, .inr rfl⟩,
      fun hr => absurd (hreleased.symm.trans hr) (by decide), fun _ => hdisposals, nofun,
      fun _ hc => absurd (hclient.symm.trans hc) (by decide),
      fun _ hc => absurd (hclient.symm.trans hc) (by decide), h.cancelled, fun _ => .inl rfl,
      fun _ => rfl⟩
  case h_14 => cases hreply
  all_goals
    rename_i hstage
    cases hreply
    have hconnect : call.stage ≠ .connect := by simp [hstage]
    have hended : call.stage ≠ .ended := by simp [hstage]
    have hclient := h.client hconnect hended
    first
      | exact h.next hclient hended (by simp) (by simp)
      | exact h.finish hclient _

theorem TimeoutRace.Sound.timeout {call' : TimeoutRace} (h : call.Sound)
    (htimeout : call.timeout = some call') : call'.Sound := by
  unfold TimeoutRace.timeout at htimeout
  split at htimeout
  · cases htimeout
    unfold TimeoutRace.race TimeoutRace.dispose
    cases hclient : call.client with
    | false =>
      exact ⟨fun _ => h.outside hclient, h.released, h.unreleased, fun _ => rfl, nofun, nofun,
        fun _ => rfl, fun _ => .inr rfl, nofun⟩
    | true =>
      have hwaits : call.stage ≠ .connect := fun hs =>
        absurd (hclient.symm.trans (h.waits hs)) (by decide)
      cases hr : call.released with
      | true =>
        exact ⟨nofun, fun _ => h.released hr, nofun, fun hs => absurd hs hwaits,
          fun _ _ => rfl, fun _ _ => rfl, fun _ => rfl, fun _ => .inr rfl, nofun⟩
      | false =>
        refine ⟨nofun, fun _ => ?_, nofun, fun hs => absurd hs hwaits, fun _ _ => rfl,
          fun _ _ => rfl, fun _ => rfl, fun _ => .inr rfl, nofun⟩
        simp [h.unreleased hr]
  · cases htimeout

theorem TimeoutRace.Sound.settle (h : call.Sound)
    (hraced : call.raced.isSome = true) : call.settle.Sound := by
  unfold TimeoutRace.settle
  refine ⟨h.outside, h.released, h.unreleased, h.waits, h.ended, ?_, ?_, ?_, ?_⟩
  · intro hf
    split at hf
    · cases hf
    · exact h.fired hf
  · intro hf
    split at hf
    · cases hf
    · exact h.cancelled hf
  · intro hr
    split
    · rename_i harmed
      rcases h.raced hr with hs | hf
      · exact .inl hs
      · rw [harmed] at hf
        cases hf
    · exact h.raced hr
  · intro hc
    split at hc
    · rename_i harmed
      rcases h.raced hraced with hs | hf
      · exact hs
      · rw [harmed] at hf
        cases hf
    · exact h.cleared hc

end AwsOps.Auth

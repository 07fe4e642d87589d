import Mathlib.Algebra.GroupWithZero.Nat
import Mathlib.Data.List.Basic

/-!
# The scope watchdog and the supervisor loop

The two threads of the Steampipe entrypoint as a transition system. Each call and each assignment
is one step, taken at a control point that carries the live variables; starting a child and storing
it in `proc_ref` are two steps. What a call meets outside (the rendered scope, a child that does
not stop or start, the clock) is the outcome that comes with the step. Children exit on their own
at any time. Writing the local file does not fail.
-/

namespace AwsOps.Steampipe

/-- A started child: how many scopes had been written when it was started, and whether it runs. -/
structure Child where
  generation : Nat
  running : Bool
  deriving DecidableEq

/-- The two threads. -/
inductive Party where
  | watchdog | supervisor
  deriving DecidableEq

/-- What the threads share: the file `aws.spc` with the number of writes to it, the children
started so far, `proc_ref[0]`, who holds `restart_lock`, and the events `stop` and `fatal`. The
history `published` is the number of children started when the watchdog set `stop`. -/
structure Shared where
  file : String
  writes : Nat
  children : List Child
  procRef : Option Nat
  lock : Option Party
  stop : Bool
  fatal : Bool
  published : Option Nat
  deriving DecidableEq

/-- What a call meets. -/
inductive Outcome where
  | ok
  | scope (spc : String)
  | hostScopeError
  | error
  | time (now : Int)
  deriving DecidableEq

/-- The child is running. -/
def Shared.runs (s : Shared) (child : Nat) : Bool :=
  s.children[child]?.any Child.running

def Shared.reap (s : Shared) (child : Nat) : Shared :=
  { s with children := s.children.modify child fun c => { c with running := false } }

/-- `_start_steampipe`: a new child reads the file as it is. -/
def Shared.start (s : Shared) : Shared :=
  { s with children := s.children ++ [⟨s.writes, true⟩] }

/-! ## Restarting -/

/-- How far a call of `_restart_steampipe` has come. -/
inductive Restart where
  | enter (old : Option Nat)
  | check (old : Option Nat)
  | terminate (old : Nat)
  | recheck
  | start
  | store (child : Nat)
  | leave (raised : Bool)
  deriving DecidableEq

/-- After a step of `_restart_steampipe`: it goes on, or it has returned or raised. -/
inductive Progress where
  | goes (r : Restart)
  | finished (raised : Bool)
  deriving DecidableEq

/-- A step of `_restart_steampipe`. -/
def Restart.step (party : Party) (s : Shared) : Restart → Outcome → Option (Shared × Progress)
  | .enter old, .ok =>
    if s.lock = none then some ({ s with lock := some party }, .goes (.check old)) else none
  | .check old, .ok =>
    if s.stop = true ∨ s.procRef ≠ old then some (s, .goes (.leave false))
    else
      match old with
      | some child => some (s, .goes (.terminate child))
      | none => some (s, .goes (.leave true))
  | .terminate child, .ok => some (s.reap child, .goes .recheck)
  | .terminate _, .error => some (s, .goes (.leave true))
  | .recheck, .ok => some (s, .goes (if s.stop then .leave false else .start))
  | .start, .ok => some (s.start, .goes (.store s.children.length))
  | .start, .error => some (s, .goes (.leave true))
  | .store child, .ok => some ({ s with procRef := some child }, .goes (.leave false))
  | .leave raised, .ok => some ({ s with lock := none }, .finished raised)
  | _, _ => none

/-! ## The watchdog -/

/-- The control points of `_scope_watchdog`. -/
inductive Watchdog where
  | wait (current : String)
  | render (current : String)
  | write (current new : String)
  | assign (current new : String)
  | readOld (current : String)
  | restarting (current : String) (r : Restart)
  | setFatal
  | acquire
  | publish
  | inspect
  | terminate (child : Nat)
  | clear
  | release
  | ended
  deriving DecidableEq

def Watchdog.step (s : Shared) : Watchdog → Outcome → Option (Shared × Watchdog)
  | .wait current, .ok => some (s, if s.stop then .ended else .render current)
  | .render current, .scope new =>
    some (s, if new = current then .wait current else .write current new)
  | .render _, .hostScopeError => some (s, .setFatal)
  | .render current, .error => some (s, .wait current)
  | .write current new, .ok =>
    some ({ s with file := new, writes := s.writes + 1 }, .assign current new)
  | .assign _ new, .ok => some (s, .readOld new)
  | .readOld current, .ok => some (s, .restarting current (.enter s.procRef))
  | .restarting current r, o =>
    (r.step .watchdog s o).map fun (s, progress) =>
      (s, match progress with
        | .goes r => .restarting current r
        -- an error of the restart is not fatal
        | .finished _ => .wait current)
  | .setFatal, .ok => some ({ s with fatal := true }, .acquire)
  | .acquire, .ok =>
    if s.lock = none then some ({ s with lock := some .watchdog }, .publish) else none
  | .publish, .ok =>
    some ({ s with stop := true, published := some s.children.length }, .inspect)
  | .inspect, .ok =>
    some (s, match s.procRef with
      | some child => .terminate child
      | none => .clear)
  | .terminate child, .ok => some (s.reap child, .clear)
  | .terminate _, .error => some (s, .clear)
  | .clear, .ok => some ({ s with procRef := none }, .release)
  | .release, .ok => some ({ s with lock := none }, .ended)
  | _, _ => none

/-! ## The supervisor -/

/-- The backoff of the supervisor loop. Times are in microseconds. -/
structure Backoff where
  rapidRestartCount : Nat
  lastRestartTime : Int
  deriving DecidableEq

/-- Note an exit of the child: a rapid one waits for a delay in seconds. -/
def Backoff.note (b : Backoff) (now : Int) : Backoff × Option Nat :=
  if now - b.lastRestartTime < 30 * 1000000 then
    ({ b with rapidRestartCount := b.rapidRestartCount + 1 },
      some (min (2 ^ (b.rapidRestartCount + 1)) 60))
  else ({ b with rapidRestartCount := 0 }, none)

/-- The control points of the loop of `main` and of its `finally` block. -/
inductive Supervisor where
  | test (b : Backoff)
  | acquire (b : Backoff)
  | inside (b : Backoff)
  | read (b : Backoff)
  | leave (b : Backoff) (current : Option Nat)
  | breakInside
  | waiting (b : Backoff) (current : Option Nat)
  | stopTest (b : Backoff) (current : Nat)
  | compare (b : Backoff) (current : Nat)
  | measure (b : Backoff) (current : Nat)
  | backoff (b : Backoff) (current delay : Nat)
  | stamp (b : Backoff) (current : Nat)
  | restarting (b : Backoff) (r : Restart)
  | finalAcquire (raised : Bool)
  | finalStop (raised : Bool)
  | finalInspect (raised : Bool)
  | finalTerminate (raised : Bool) (child : Nat)
  | finalClear (raised : Bool)
  | finalRelease (raised : Bool)
  | finalTest (raised : Bool)
  | exited (code : Nat)
  deriving DecidableEq

def Supervisor.step (s : Shared) : Supervisor → Outcome → Option (Shared × Supervisor)
  | .test b, .ok => some (s, if s.stop then .finalAcquire false else .acquire b)
  | .acquire b, .ok =>
    if s.lock = none then some ({ s with lock := some .supervisor }, .inside b) else none
  | .inside b, .ok => some (s, if s.stop then .breakInside else .read b)
  | .read b, .ok => some (s, .leave b s.procRef)
  | .leave b current, .ok => some ({ s with lock := none }, .waiting b current)
  | .breakInside, .ok => some ({ s with lock := none }, .finalAcquire false)
  | .waiting b (some current), .ok => if s.runs current then none else some (s, .stopTest b current)
  | .waiting _ none, .ok => some (s, .finalAcquire true)
  | .stopTest b current, .ok =>
    some (s, if s.stop then .finalAcquire false else .compare b current)
  | .compare b current, .ok =>
    some (s, if s.procRef = some current then .measure b current else .test b)
  | .measure b current, .time now =>
    some (s, match b.note now with
      | (b, some delay) => .backoff b current delay
      | (b, none) => .stamp b current)
  | .backoff b current _, .ok =>
    some (s, if s.stop then .finalAcquire false else .stamp b current)
  | .stamp b current, .time now =>
    some (s, .restarting { b with lastRestartTime := now } (.enter (some current)))
  | .restarting b r, o =>
    (r.step .supervisor s o).map fun (s, progress) =>
      (s, match progress with
        | .goes r => .restarting b r
        | .finished raised => if raised then .finalAcquire true else .test b)
  | .finalAcquire raised, .ok =>
    if s.lock = none then some ({ s with lock := some .supervisor }, .finalStop raised) else none
  | .finalStop raised, .ok => some ({ s with stop := true }, .finalInspect raised)
  | .finalInspect raised, .ok =>
    some (s, match s.procRef with
      | some child => .finalTerminate raised child
      | none => .finalRelease raised)
  | .finalTerminate raised child, .ok => some (s.reap child, .finalClear raised)
  | .finalTerminate _ _, .error => some (s, .finalClear true)
  | .finalClear raised, .ok => some ({ s with procRef := none }, .finalRelease raised)
  | .finalRelease raised, .ok => some ({ s with lock := none }, .finalTest raised)
  | .finalTest raised, .ok =>
    some (s, .exited (if s.fatal = true ∨ raised = true then 1 else 0))
  | _, _ => none

/-! ## The two together -/

/-- The shared state and the control points. -/
structure State where
  shared : Shared
  watchdog : Watchdog
  supervisor : Supervisor
  deriving DecidableEq

/-- A child exits on its own, or a thread takes its next step. -/
inductive Action where
  | exit (child : Nat)
  | watchdog (o : Outcome)
  | supervisor (o : Outcome)
  deriving DecidableEq

/-- The process has ended. -/
def Supervisor.isExited : Supervisor → Bool
  | .exited _ => true
  | _ => false

/-- A step. The watchdog is a daemon: it ends with the process. -/
def State.step (s : State) : Action → Option State
  | .exit child =>
    if s.shared.runs child then some { s with shared := s.shared.reap child } else none
  | .watchdog o =>
    if s.supervisor.isExited then none
    else (s.watchdog.step s.shared o).map fun (shared, watchdog) => { s with shared, watchdog }
  | .supervisor o =>
    (s.supervisor.step s.shared o).map fun (shared, supervisor) => { s with shared, supervisor }

/-- What a step is: a running child exits, or a thread moves. -/
inductive State.Steps (s : State) : Action → State → Prop
  | exit {child : Nat} (hruns : s.shared.runs child = true) :
    s.Steps (.exit child) { s with shared := s.shared.reap child }
  | watchdog {o : Outcome} {shared : Shared} {watchdog : Watchdog}
    (hmoved : s.watchdog.step s.shared o = some (shared, watchdog)) :
    s.Steps (.watchdog o) { s with shared, watchdog }
  | supervisor {o : Outcome} {shared : Shared} {supervisor : Supervisor}
    (hmoved : s.supervisor.step s.shared o = some (shared, supervisor)) :
    s.Steps (.supervisor o) { s with shared, supervisor }

theorem State.steps_of_step {s s' : State} {a : Action} (h : s.step a = some s') : s.Steps a s' := by
  cases a with
  | exit child =>
    simp only [State.step] at h
    split at h
    · rename_i hruns
      cases h
      exact .exit hruns
    · cases h
  | watchdog o =>
    simp only [State.step] at h
    split at h
    · cases h
    · obtain ⟨_, hmoved, rfl⟩ := Option.map_eq_some_iff.mp h
      exact .watchdog hmoved
  | supervisor o =>
    obtain ⟨_, hmoved, rfl⟩ := Option.map_eq_some_iff.mp h
    exact .supervisor hmoved

/-- The threads after the scope was written and the first child was started. -/
def State.initial (spc : String) : State :=
  { shared :=
      { file := spc
        writes := 0
        children := [⟨0, true⟩]
        procRef := some 0
        lock := none
        stop := false
        fatal := false
        published := none }
    watchdog := .wait spc
    supervisor := .test ⟨0, 0⟩ }

end AwsOps.Steampipe

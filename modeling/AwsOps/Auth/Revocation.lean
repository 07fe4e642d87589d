import AwsOps.Auth.StatementTimeout
import AwsOps.Foundation.Runs

/-!
# Session revocation

The checks of `verifyUser` and the calls of `revokeSessionsFor` on one container. What runs between
two awaits is one step. A cache entry holds the promise of a query, which is a call of
`withStatementTimeout`; entries of the two maps remove themselves at any time. The clock is read by
the steps that read it. Issue times are whole seconds. Logging is left out.
-/

namespace AwsOps.Auth

/-- The window of a cached cutoff in milliseconds. -/
def REVOCATION_CACHE_TTL_MS : Int := 5000

/-- The window of a debounced write in milliseconds. -/
def RECENT_REVOKE_DEBOUNCE_MS : Int := 2000

/-- A presented token: its subject and its issue time, if it has one. -/
structure Token where
  sub : String
  iat : Option Int
  deriving DecidableEq

/-- How a check ends: the token is not valid, it is revoked, it is not revoked, or the lookup of
the cutoff has failed and the token passes. -/
inductive Verdict where
  | invalid | revoked | live | unchecked
  deriving DecidableEq

/-- What a check waits for. -/
inductive CheckStage where
  | verify
  | isRevoked
  | cutoff (iat : Int) (call : Nat)
  | ended (verdict : Verdict)
  deriving DecidableEq

/-- A check of `verifyUser`. The history `seen` holds the calls of `revokeSessionsFor` that had
returned when it started. -/
structure Check where
  token : Token
  stage : CheckStage
  seen : List (String × Int)
  deriving DecidableEq

/-- An entry of `revocationCutoffCache`. -/
structure CachedCutoff where
  at_ : Int
  call : Nat
  deriving DecidableEq

/-- The container and its database. The history holds the calls of `revokeSessionsFor`: the ones
that were made and the ones that returned normally. -/
structure State where
  stored : Cutoffs
  calls : List TimeoutRace
  revocationCutoffCache : String → Option CachedCutoff
  recentRevokeWriteAt : String → Option Int
  checks : List Check
  made : List (String × Int)
  returned : List (String × Int)

/-- The container starts. -/
def State.initial (stored : Cutoffs) : State :=
  { stored
    calls := []
    revocationCutoffCache := fun _ => none
    recentRevokeWriteAt := fun _ => none
    checks := []
    made := []
    returned := [] }

/-- What happens. -/
inductive Action where
  | verifyUser (token : Token)
  | jwtVerify (check : Nat) (valid : Bool)
  | isRevoked (check : Nat) (now : Int)
  | answer (check : Nat)
  | revokeSessionsFor (sub : String) (iat now : Int)
  | reply (call : Nat) (r : Reply)
  | timeout (call : Nat)
  | settle (call : Nat)
  | dropCutoff (call : Nat)
  | dropWrite (sub : String) (iat at_ : Int)
  deriving DecidableEq

def setEntry {β : Type} (map : String → Option β) (key : String) (value : Option β) :
    String → Option β :=
  fun k => if k = key then value else map k

/-- The key of a debounced write. -/
def revokeKey (sub : String) (iat : Int) : String :=
  s!"{sub}:{iat}"

/-- `revokeSessionsFor` returns without a write: the same one was started just before. -/
def State.debounced (s : State) (sub : String) (iat now : Int) : Bool :=
  (s.recentRevokeWriteAt (revokeKey sub iat)).any fun last =>
    now - last < RECENT_REVOKE_DEBOUNCE_MS

/-- `revocationCutoff`: the cached promise, or a new query. -/
def State.revocationCutoff (s : State) (sub : String) (now : Int) : State × Nat :=
  match (s.revocationCutoffCache sub).filter fun hit => now - hit.at_ < REVOCATION_CACHE_TTL_MS with
  | some hit => (s, hit.call)
  | none =>
    ({ s with
        calls := s.calls ++ [.new (.selectCutoff sub)]
        revocationCutoffCache :=
          setEntry s.revocationCutoffCache sub (some ⟨now, s.calls.length⟩) },
      s.calls.length)

/-- A token without an issue time is revoked, otherwise the check waits for the cutoff. -/
def State.isRevoked (s : State) (token : Token) (now : Int) : State × CheckStage :=
  match token.iat with
  | none => (s, .ended .revoked)
  | some iat =>
    if iat = 0 then (s, .ended .revoked)
    else
      let (s, call) := s.revocationCutoff token.sub now
      (s, .cutoff iat call)

/-- The verdict on a token, given the outcome of the lookup. -/
def Outcome.verdict (iat : Int) : Outcome → Verdict
  | .rows none => .live
  | .rows (some revokedAtSec) => if iat ≤ revokedAtSec then .revoked else .live
  | .failed _ => .unchecked

/-- The caller of `withStatementTimeout` goes on: `revokeSessionsFor` drops the cached cutoff and
returns, unless its write has failed. -/
def State.settled (s : State) (job : Statement) (o : Outcome) : State :=
  match job, o with
  | .upsertCutoff sub iat, .rows _ =>
    { s with
      revocationCutoffCache := setEntry s.revocationCutoffCache sub none
      returned := (sub, iat) :: s.returned }
  | _, _ => s

def State.step (s : State) : Action → Option State
  | .verifyUser token => some { s with checks := s.checks ++ [⟨token, .verify, s.returned⟩] }
  | .jwtVerify i valid => do
      let check ← s.checks[i]?
      if check.stage = .verify then
        some { s with
          checks := s.checks.set i
            { check with stage := if valid then .isRevoked else .ended .invalid } }
      else none
  | .isRevoked i now => do
      let check ← s.checks[i]?
      if check.stage = .isRevoked then
        let (s, stage) := s.isRevoked check.token now
        some { s with checks := s.checks.set i { check with stage } }
      else none
  | .answer i => do
      let check ← s.checks[i]?
      match check.stage with
      | .cutoff iat call => do
          let call ← s.calls[call]?
          let o ← call.raced
          if call.settled then
            some { s with checks := s.checks.set i { check with stage := .ended (o.verdict iat) } }
          else none
      | _ => none
  | .revokeSessionsFor sub iat now =>
    let s := { s with made := (sub, iat) :: s.made }
    if s.debounced sub iat now then some { s with returned := (sub, iat) :: s.returned }
    else
      some { s with
        recentRevokeWriteAt := setEntry s.recentRevokeWriteAt (revokeKey sub iat) (some now)
        calls := s.calls ++ [.new (.upsertCutoff sub iat)] }
  | .reply i r => do
      let call ← s.calls[i]?
      let next ← call.reply s.stored r
      some { s with
        stored := if call.commits r then call.job.commit s.stored else s.stored
        calls := s.calls.set i next }
  | .timeout i => do
      let call ← s.calls[i]?
      let next ← call.timeout
      some { s with calls := s.calls.set i next }
  | .settle i => do
      let call ← s.calls[i]?
      let o ← call.raced
      if call.settled then none
      else some (State.settled { s with calls := s.calls.set i call.settle } call.job o)
  | .dropCutoff i => do
      let call ← s.calls[i]?
      match call.job with
      | .selectCutoff sub =>
        if (s.revocationCutoffCache sub).any fun entry => entry.call = i then
          some { s with revocationCutoffCache := setEntry s.revocationCutoffCache sub none }
        else none
      | .upsertCutoff .. => none
  | .dropWrite sub iat at_ =>
    if s.recentRevokeWriteAt (revokeKey sub iat) = some at_ then
      some { s with
        recentRevokeWriteAt := setEntry s.recentRevokeWriteAt (revokeKey sub iat) none }
    else none

end AwsOps.Auth

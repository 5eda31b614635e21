import Effectus.Lib.Text

/-!
Errors as the program's callers see them: the sentinels `errors.Is` finds, and the text.
-/

namespace Effectus

/-- The package-level errors callers test for; `databaseConcurrency` is an error with the SQL state of a
serialization failure or a unique violation. -/
inductive Sentinel where
  | identityConflict
  | noDispatch
  | staleLease
  | activeDispatchLease
  | terminalSaga
  | invalidTransition
  | optimisticConflict
  | invalidArtifact
  | limitExceeded
  | invalidExecuteRequest
  | artifactNotFound
  | executionRecordNotFound
  | staleExecutionLease
  | generationMismatch
  | blockedDependency
  | canceled
  | deadlineExceeded
  | databaseConcurrency
  | leaseHeld
  | staleGrant
  deriving DecidableEq

def Sentinel.text : Sentinel → Text
  | .identityConflict => "engine admission identity conflict"
  | .noDispatch => "no eligible dispatch"
  | .staleLease => "stale dispatch lease"
  | .activeDispatchLease => "active dispatch lease prevents execution finalization"
  | .terminalSaga => "terminal saga cannot be reopened"
  | .invalidTransition => "invalid saga state transition"
  | .optimisticConflict => "optimistic persistence conflict"
  | .invalidArtifact => "invalid checked IR artifact"
  | .limitExceeded => "checked IR limit exceeded"
  | .invalidExecuteRequest => "invalid engine execute request"
  | .artifactNotFound => "execution artifact not found"
  | .executionRecordNotFound => "execution not found"
  | .staleExecutionLease => "stale execution recovery lease"
  | .generationMismatch => "engine generation mismatch"
  | .blockedDependency => "execution blocked by missing dependency"
  | .canceled => "context canceled"
  | .deadlineExceeded => "context deadline exceeded"
  | .databaseConcurrency => "could not serialize access"
  | .leaseHeld => "fencing resource lease is held"
  | .staleGrant => "stale fencing grant"

structure Err where
  sentinels : List Sentinel
  text : Text
  deriving DecidableEq

namespace Err

/-- `fmt.Errorf` without a wrapped error. -/
def new (text : Text) : Err := ⟨[], text⟩

/-- A sentinel itself. -/
def of (sentinel : Sentinel) : Err := ⟨[sentinel], sentinel.text⟩

/-- `fmt.Errorf("%w: ...", sentinel, ...)`. -/
def wrap (sentinel : Sentinel) (text : Text) : Err := ⟨[sentinel], sentinel.text ++ (": " : Text) ++ text⟩

/-- `errors.Join`: what is not there is left out. -/
def join (err : Err) : List (Option Err) → Err
  | [] => err
  | none :: rest => err.join rest
  | some other :: rest => join ⟨err.sentinels ++ other.sentinels, err.text ++ ("\n" : Text) ++ other.text⟩ rest

/-- `fmt.Errorf("...: %w", err)`. -/
def under (label : Text) (err : Err) : Err := { err with text := label ++ (": " : Text) ++ err.text }

/-- `errors.Is`. -/
def is (err : Err) (sentinel : Sentinel) : Bool := err.sentinels.contains sentinel

end Err

end Effectus

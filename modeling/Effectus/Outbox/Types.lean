import Effectus.Errors
import Effectus.Go.Value

/-!
The records of the durable saga outbox: sagas, their steps, the dispatches that carry a step's effect
forward or undo it, and the attempts made at a dispatch. A time is the nanoseconds since Go's zero
`time.Time`, so zero is the unset time.
-/

namespace Effectus

abbrev Time := Int

inductive SagaState where
  | running
  | completed
  | compensating
  | compensated
  | failed
  | blockedUnknown
  | blockedDependency
  | blockedFence
  | blockedCompensation
  deriving DecidableEq

def SagaState.text : SagaState → Text
  | .running => "running"
  | .completed => "completed"
  | .compensating => "compensating"
  | .compensated => "compensated"
  | .failed => "failed"
  | .blockedUnknown => "blocked_unknown"
  | .blockedDependency => "blocked_dependency"
  | .blockedFence => "blocked_fence"
  | .blockedCompensation => "blocked_compensation"

inductive DispatchState where
  | queued
  | inFlight
  | succeeded
  | retryWait
  | failedPermanent
  | canceled
  | blockedUnknown
  | blockedFence
  deriving DecidableEq

def DispatchState.text : DispatchState → Text
  | .queued => "queued"
  | .inFlight => "in_flight"
  | .succeeded => "succeeded"
  | .retryWait => "retry_wait"
  | .failedPermanent => "failed_permanent"
  | .canceled => "canceled"
  | .blockedUnknown => "blocked_unknown"
  | .blockedFence => "blocked_fence"

inductive StepState where
  | pending
  | succeeded
  | failed
  | compensated
  deriving DecidableEq

inductive Direction where
  | forward
  | compensation
  deriving DecidableEq

def Direction.text : Direction → Text
  | .forward => "forward"
  | .compensation => "compensation"

/-- An outcome class is a Go string: `unset` is the empty one, and `other` any the code does not
name. -/
inductive OutcomeClass where
  | unset
  | success
  | retryableKnownNotCommitted
  | permanentFailure
  | unknown
  | staleFence
  | other (text : Text)
  deriving DecidableEq

def OutcomeClass.text : OutcomeClass → Text
  | .unset => ""
  | .success => "success"
  | .retryableKnownNotCommitted => "retryable_failure_known_not_committed"
  | .permanentFailure => "permanent_failure"
  | .unknown => "unknown_outcome"
  | .staleFence => "stale_fence"
  | .other text => text

structure FencingRequirement where
  authority : Text
  resource : Text
  deriving DecidableEq

structure FencingGrant where
  authority : Text
  resource : Text
  /-- A `uint64`. -/
  token : Nat
  deriving DecidableEq

structure SagaInstance where
  ns : Text
  sagaID : Text
  executionID : Text
  planID : Text
  planDigest : Text
  state : SagaState
  serial : Bool
  /-- A `uint64`, without the wrap after 2^64 changes. -/
  revision : Nat
  createdAt : Time
  updatedAt : Time

structure CreateSagaRequest where
  ns : Text
  sagaID : Text
  executionID : Text
  planID : Text
  planDigest : Text
  serial : Bool
  allowUnstableIdentityForTest : Bool

/-- Argument maps are Go maps: `none` is the nil map. -/
structure EnqueueStepRequest where
  sagaID : Text
  effectID : Text
  sequence : Int
  verb : Text
  contractHash : Text
  arguments : Option (List (Text × GoValue))
  compensationVerb : Text
  compensationContract : Text
  compensationArguments : Option (List (Text × GoValue))
  fencing : List FencingRequirement

structure SagaStep where
  sagaID : Text
  effectID : Text
  sequence : Int
  verb : Text
  contractHash : Text
  arguments : Text
  argumentHash : Text
  compensationVerb : Text
  compensationContract : Text
  compensationArguments : Text
  compensationArgumentHash : Text
  fencing : List FencingRequirement
  state : StepState
  result : Text

structure Dispatch where
  id : Text
  sagaID : Text
  effectID : Text
  sequence : Int
  direction : Direction
  verb : Text
  contractHash : Text
  arguments : Text
  argumentHash : Text
  idempotencyKey : Text
  state : DispatchState
  /-- A `uint64`, without the wrap after 2^64 claims. -/
  attempt : Nat
  leaseOwner : Text
  leaseToken : Text
  leaseDeadline : Time
  nextAttemptAt : Time
  fencing : List FencingRequirement
  fencingGrants : List FencingGrant
  lastOutcome : OutcomeClass
  lastError : Text
  result : Text
  /-- A `uint64`, as a saga's. -/
  revision : Nat
  createdAt : Time
  updatedAt : Time

structure ClaimOptions where
  owner : Text
  leaseDuration : Int
  now : Time
  targetDispatchID : Text

structure Completion where
  dispatchID : Text
  attempt : Nat
  leaseToken : Text
  outcome : OutcomeClass
  result : Text
  error : Text
  nextAttemptAt : Time
  exhausted : Bool
  now : Time

structure DispatchAttempt where
  dispatchID : Text
  attempt : Nat
  leaseOwner : Text
  leaseToken : Text
  leaseDeadline : Time
  fencingGrants : List FencingGrant
  outcome : OutcomeClass
  error : Text
  startedAt : Time
  completedAt : Time

end Effectus

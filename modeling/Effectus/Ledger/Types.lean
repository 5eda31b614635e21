import Effectus.Outbox.Types
import Effectus.IR.Environment

/-!
The records of the execution ledger: an admitted execution with the plans selected for it, and the
artifact of the generation that runs it. A `json.RawMessage` is the text it holds.
-/

namespace Effectus

/-- The state of an execution is a text; `other` is one the source has no name for. -/
inductive ExecutionState where
  | admitting
  | accepted
  | running
  | completed
  | failed
  | blockedUnknown
  | blockedFence
  | blockedDependency
  | blockedCompensation
  | other (text : Text)
  deriving DecidableEq

def isTerminalExecutionState : ExecutionState → Bool
  | .completed | .failed | .blockedUnknown | .blockedFence | .blockedDependency | .blockedCompensation => true
  | .admitting | .accepted | .running | .other _ => false

structure ExecutionArtifact where
  generationDigest : Text
  irDigest : Text
  irBytes : Text
  environment : Text
  executorManifest : Text
  functionManifest : Text
  sourceDigest : Text
  compilerMetadata : Text

structure ExecutionPlanRecord where
  executionID : Text
  planID : Text
  sagaID : Text
  ordinal : Nat
  state : Text
  deriving DecidableEq

structure ExecutionRecord where
  executionID : Text
  admissionIdentity : Text
  requestHash : Text
  ruleset : Text
  version : Text
  tenantNamespace : Text
  mergePolicy : Text
  generationDigest : Text
  effectiveFacts : Text
  state : ExecutionState
  /-- A `uint64`, without the wrap after 2^64 changes. -/
  revision : Nat
  recoveryOwner : Text
  recoveryToken : Text
  recoveryDeadline : Time
  lastError : Text
  updatedAt : Time
  plans : List ExecutionPlanRecord

structure FactApplication where
  executionID : Text
  factEventID : Text
  mergePolicy : Text
  facts : Text
  appliedRevision : Nat

structure DurableAdmission where
  artifact : ExecutionArtifact
  execution : ExecutionRecord
  factApplication : FactApplication
  plans : List ExecutionPlanRecord
  sagas : List CreateSagaRequest
  initialSteps : List EnqueueStepRequest

structure ExecutionLease where
  executionID : Text
  owner : Text
  token : Text
  deadline : Time
  revision : Nat
  deriving DecidableEq

end Effectus

import Effectus.Lib.Table
import Effectus.Ledger.Types

/-!
The tables of the migrations with the constraints they declare. A column that may be NULL is an option, and
a `timestamptz` counts microseconds. The states of sagas, steps, dispatches and generations are enumerations, so the
checks that list them hold of every row. A `jsonb` column is the text it is read back as, and documents for grants and
requirements are kept as what they encode. The `BIGINT` of an attempt or a revision is counted without its bound.
-/

namespace Effectus.Postgres

/-- Microseconds since Go's zero time. -/
abbrev Timestamp := Int

/-- A time the driver writes into a `timestamptz`: the nearest microsecond. -/
def timestamptz (t : Time) : Timestamp := (t + 500) / 1000

/-- A `timestamptz` as it is read back. -/
def Timestamp.time (ts : Timestamp) : Time := 1000 * ts

/-! ### Saga tables -/

structure SagaRow where
  sagaID : Text
  ns : Text
  executionID : Text
  planID : Text
  planDigest : Text
  state : SagaState
  serial : Bool
  revision : Nat
  createdAt : Timestamp
  updatedAt : Timestamp

structure StepRow where
  sagaID : Text
  effectID : Text
  sequence : Int
  verb : Text
  contractHash : Text
  arguments : Text
  argumentHash : Text
  compensationVerb : Option Text
  compensationContractHash : Option Text
  compensationArguments : Option Text
  compensationArgumentHash : Option Text
  fencingRequirements : List FencingRequirement
  state : StepState
  result : Option Text

structure OutboxRow where
  dispatchID : Text
  sagaID : Text
  effectID : Text
  sequence : Int
  direction : Direction
  verb : Text
  contractHash : Text
  arguments : Text
  argumentHash : Text
  idempotencyKey : Text
  state : DispatchState
  attempt : Nat
  leaseOwner : Option Text
  leaseToken : Option Text
  leaseDeadline : Option Timestamp
  nextAttemptAt : Option Timestamp
  fencingRequirements : List FencingRequirement
  fencingGrants : List FencingGrant
  lastOutcome : Option OutcomeClass
  lastError : Option Text
  result : Option Text
  serialSaga : Bool
  revision : Nat
  createdAt : Timestamp
  updatedAt : Timestamp

structure AttemptRow where
  dispatchID : Text
  attempt : Nat
  leaseOwner : Text
  leaseToken : Text
  leaseDeadline : Timestamp
  fencingGrants : List FencingGrant
  outcome : Option OutcomeClass
  error : Option Text
  startedAt : Timestamp
  completedAt : Option Timestamp

/-! ### Ledger tables -/

structure ArtifactRow where
  artifact : ExecutionArtifact
  createdAt : Timestamp

inductive GenerationState where
  | active
  | retired
  deriving DecidableEq

structure GenerationRow where
  ruleset : Text
  version : Text
  environment : Text
  generationDigest : Text
  state : GenerationState
  retiredAt : Option Timestamp
  deriving DecidableEq

structure ExecutionRow where
  executionID : Text
  admissionIdentity : Text
  requestHash : Text
  ruleset : Text
  version : Text
  tenantNamespace : Text
  mergePolicy : Text
  generationDigest : Text
  effectiveFacts : Text
  state : ExecutionState
  revision : Nat
  recoveryOwner : Option Text
  recoveryToken : Option Text
  recoveryDeadline : Option Timestamp
  lastError : Option Text
  updatedAt : Timestamp

structure PlanRow where
  executionID : Text
  planID : Text
  sagaID : Text
  ordinal : Nat
  state : Text

structure ApplicationRow where
  executionID : Text
  factEventID : Text
  mergePolicy : Text
  facts : Text
  appliedRevision : Nat
  appliedAt : Timestamp

structure SnapshotRow where
  executionID : Text
  universeJSON : Text
  revision : Nat
  createdAt : Timestamp

/-- What retention reads of a delivery. -/
structure DeliveryRow where
  deliveryID : Text
  poisonAcknowledged : Bool
  updatedAt : Timestamp

structure Database where
  sagas : List SagaRow
  steps : List StepRow
  outbox : List OutboxRow
  attempts : List AttemptRow
  artifacts : List ArtifactRow
  generations : List GenerationRow
  executions : List ExecutionRow
  plans : List PlanRow
  applications : List ApplicationRow
  snapshots : List SnapshotRow
  deliveries : List DeliveryRow

/-- The tables after the migrations. -/
def Database.empty : Database := ⟨[], [], [], [], [], [], [], [], [], [], []⟩

/-! ### Constraints -/

def StepRow.key (r : StepRow) : Text × Text := (r.sagaID, r.effectID)

def OutboxRow.stepKey (r : OutboxRow) : Text × Text := (r.sagaID, r.effectID)

def OutboxRow.effectKey (r : OutboxRow) : Text × Text × Direction := (r.sagaID, r.effectID, r.direction)

def AttemptRow.key (r : AttemptRow) : Text × Nat := (r.dispatchID, r.attempt)

def ArtifactRow.digest (r : ArtifactRow) : Text := r.artifact.generationDigest

def GenerationRow.key (r : GenerationRow) : Text × Text × Text := (r.ruleset, r.version, r.generationDigest)

/-- Whether a serial saga's row is one `effectus_saga_outbox_serial_inflight_idx` covers. -/
def OutboxRow.serialInFlight (r : OutboxRow) : Bool := decide (r.state = .inFlight) && r.serialSaga

def GenerationRow.active (r : GenerationRow) : Bool := decide (r.state = .active)

def planStates : List Text := [("selected" : Text), ("running" : Text), ("completed" : Text), ("blocked" : Text),
  ("failed" : Text)]

/-- `effectus_saga_steps_compensation_check`. -/
def StepRow.compensationCheck (r : StepRow) : Prop :=
  (r.compensationVerb = none ∧ r.compensationContractHash = none ∧ r.compensationArguments = none ∧
    r.compensationArgumentHash = none) ∨
  (r.compensationVerb ≠ none ∧ r.compensationContractHash ≠ none ∧ r.compensationArguments ≠ none ∧
    r.compensationArgumentHash ≠ none)

/-- `effectus_saga_outbox_lease_check`. -/
def OutboxRow.leaseCheck (r : OutboxRow) : Prop :=
  r.state = .inFlight → r.leaseOwner ≠ none ∧ r.leaseToken ≠ none ∧ r.leaseDeadline ≠ none

/-- A lease for recovery is whole or absent. -/
def ExecutionRow.recoveryCheck (r : ExecutionRow) : Prop :=
  (r.recoveryOwner = none ∧ r.recoveryToken = none ∧ r.recoveryDeadline = none) ∨
  (r.recoveryOwner ≠ none ∧ r.recoveryToken ≠ none ∧ r.recoveryDeadline ≠ none)

/-- The states `effectus_executions` lists. -/
def ExecutionRow.stateCheck (r : ExecutionRow) : Prop :=
  r.state ∈ [.admitting, .accepted, .running, .completed, .failed, .blockedUnknown, .blockedFence, .blockedDependency,
    .blockedCompensation]

instance (r : StepRow) : Decidable r.compensationCheck := inferInstanceAs (Decidable (_ ∨ _))
instance (r : OutboxRow) : Decidable r.leaseCheck := inferInstanceAs (Decidable (_ → _))
instance (r : ExecutionRow) : Decidable r.recoveryCheck := inferInstanceAs (Decidable (_ ∨ _))
instance (r : ExecutionRow) : Decidable r.stateCheck := inferInstanceAs (Decidable (_ ∈ _))

namespace Database

variable (db : Database)

/-- The `CHECK` constraints. -/
structure Checks : Prop where
  sagas : ∀ r ∈ db.sagas, 0 < r.revision
  steps : ∀ r ∈ db.steps, 0 < r.sequence ∧ r.compensationCheck
  outbox : ∀ r ∈ db.outbox, 0 < r.sequence ∧ 0 < r.revision ∧ r.leaseCheck
  attempts : ∀ r ∈ db.attempts, 0 < r.attempt
  artifacts : ∀ r ∈ db.artifacts, r.artifact.irBytes ≠ []
  executions : ∀ r ∈ db.executions, 0 < r.revision ∧ r.recoveryCheck ∧ r.stateCheck
  plans : ∀ r ∈ db.plans, r.state ∈ planStates
  applications : ∀ r ∈ db.applications, 0 < r.appliedRevision
  snapshots : ∀ r ∈ db.snapshots, 0 < r.revision

/-- The primary keys, unique constraints and unique indexes of the saga tables. -/
structure SagaUniques : Prop where
  sagas : Table.Unique SagaRow.sagaID db.sagas
  steps : Table.Unique StepRow.key db.steps
  sequences : Table.Unique (fun r : StepRow => (r.sagaID, r.sequence)) db.steps
  outbox : Table.Unique OutboxRow.dispatchID db.outbox
  idempotencyKeys : Table.Unique OutboxRow.idempotencyKey db.outbox
  effects : Table.Unique OutboxRow.effectKey db.outbox
  serialInFlight : Table.Indexed OutboxRow.serialInFlight OutboxRow.sagaID db.outbox
  attempts : Table.Unique AttemptRow.key db.attempts

/-- Those of the ledger tables. -/
structure LedgerUniques : Prop where
  artifacts : Table.Unique ArtifactRow.digest db.artifacts
  generations : Table.Unique GenerationRow.key db.generations
  oneActive : Table.Indexed GenerationRow.active (fun r : GenerationRow => (r.ruleset, r.environment)) db.generations
  executions : Table.Unique ExecutionRow.executionID db.executions
  admissions : Table.Unique ExecutionRow.admissionIdentity db.executions
  plans : Table.Unique (fun r : PlanRow => (r.executionID, r.planID)) db.plans
  ordinals : Table.Unique (fun r : PlanRow => (r.executionID, r.ordinal)) db.plans
  planSagas : Table.Unique PlanRow.sagaID db.plans
  applications : Table.Unique (fun r : ApplicationRow => (r.executionID, r.factEventID)) db.applications
  snapshots : Table.Unique SnapshotRow.executionID db.snapshots
  deliveries : Table.Unique DeliveryRow.deliveryID db.deliveries

structure Uniques : Prop where
  saga : db.SagaUniques
  ledger : db.LedgerUniques

/-- The foreign keys, each `ON DELETE RESTRICT`. -/
structure ForeignKeys : Prop where
  steps : Table.References StepRow.sagaID db.steps SagaRow.sagaID db.sagas
  outbox : Table.References OutboxRow.sagaID db.outbox SagaRow.sagaID db.sagas
  outboxSteps : Table.References OutboxRow.stepKey db.outbox StepRow.key db.steps
  attempts : Table.References AttemptRow.dispatchID db.attempts OutboxRow.dispatchID db.outbox
  generations : Table.References GenerationRow.generationDigest db.generations ArtifactRow.digest db.artifacts
  executions : Table.References ExecutionRow.generationDigest db.executions ArtifactRow.digest db.artifacts
  plans : Table.References PlanRow.executionID db.plans ExecutionRow.executionID db.executions
  planSagas : Table.References PlanRow.sagaID db.plans SagaRow.sagaID db.sagas
  applications : Table.References ApplicationRow.executionID db.applications ExecutionRow.executionID db.executions
  snapshots : Table.References SnapshotRow.executionID db.snapshots ExecutionRow.executionID db.executions

instance : Decidable db.Checks :=
  decidable_of_iff ((∀ r ∈ db.sagas, 0 < r.revision) ∧ (∀ r ∈ db.steps, 0 < r.sequence ∧ r.compensationCheck) ∧
    (∀ r ∈ db.outbox, 0 < r.sequence ∧ 0 < r.revision ∧ r.leaseCheck) ∧ (∀ r ∈ db.attempts, 0 < r.attempt) ∧
    (∀ r ∈ db.artifacts, r.artifact.irBytes ≠ []) ∧ (∀ r ∈ db.executions, 0 < r.revision ∧ r.recoveryCheck ∧ r.stateCheck) ∧
    (∀ r ∈ db.plans, r.state ∈ planStates) ∧ (∀ r ∈ db.applications, 0 < r.appliedRevision) ∧
    ∀ r ∈ db.snapshots, 0 < r.revision)
    ⟨fun ⟨h₁, h₂, h₃, h₄, h₅, h₆, h₇, h₈, h₉⟩ => ⟨h₁, h₂, h₃, h₄, h₅, h₆, h₇, h₈, h₉⟩,
      fun ⟨h₁, h₂, h₃, h₄, h₅, h₆, h₇, h₈, h₉⟩ => ⟨h₁, h₂, h₃, h₄, h₅, h₆, h₇, h₈, h₉⟩⟩

instance : Decidable db.SagaUniques :=
  decidable_of_iff (Table.Unique SagaRow.sagaID db.sagas ∧ Table.Unique StepRow.key db.steps ∧
    Table.Unique (fun r : StepRow => (r.sagaID, r.sequence)) db.steps ∧
    Table.Unique OutboxRow.dispatchID db.outbox ∧ Table.Unique OutboxRow.idempotencyKey db.outbox ∧
    Table.Unique OutboxRow.effectKey db.outbox ∧
    Table.Indexed OutboxRow.serialInFlight OutboxRow.sagaID db.outbox ∧ Table.Unique AttemptRow.key db.attempts)
    ⟨fun ⟨h₁, h₂, h₃, h₄, h₅, h₆, h₇, h₈⟩ => ⟨h₁, h₂, h₃, h₄, h₅, h₆, h₇, h₈⟩,
      fun ⟨h₁, h₂, h₃, h₄, h₅, h₆, h₇, h₈⟩ => ⟨h₁, h₂, h₃, h₄, h₅, h₆, h₇, h₈⟩⟩

instance : Decidable db.LedgerUniques :=
  decidable_of_iff (Table.Unique ArtifactRow.digest db.artifacts ∧ Table.Unique GenerationRow.key db.generations ∧
    Table.Indexed GenerationRow.active (fun r : GenerationRow => (r.ruleset, r.environment)) db.generations ∧
    Table.Unique ExecutionRow.executionID db.executions ∧ Table.Unique ExecutionRow.admissionIdentity db.executions ∧
    Table.Unique (fun r : PlanRow => (r.executionID, r.planID)) db.plans ∧
    Table.Unique (fun r : PlanRow => (r.executionID, r.ordinal)) db.plans ∧ Table.Unique PlanRow.sagaID db.plans ∧
    Table.Unique (fun r : ApplicationRow => (r.executionID, r.factEventID)) db.applications ∧
    Table.Unique SnapshotRow.executionID db.snapshots ∧ Table.Unique DeliveryRow.deliveryID db.deliveries)
    ⟨fun ⟨h₁, h₂, h₃, h₄, h₅, h₆, h₇, h₈, h₉, h₁₀, h₁₁⟩ => ⟨h₁, h₂, h₃, h₄, h₅, h₆, h₇, h₈, h₉, h₁₀, h₁₁⟩,
      fun ⟨h₁, h₂, h₃, h₄, h₅, h₆, h₇, h₈, h₉, h₁₀, h₁₁⟩ => ⟨h₁, h₂, h₃, h₄, h₅, h₆, h₇, h₈, h₉, h₁₀, h₁₁⟩⟩

instance : Decidable db.Uniques :=
  decidable_of_iff (db.SagaUniques ∧ db.LedgerUniques) ⟨fun ⟨h₁, h₂⟩ => ⟨h₁, h₂⟩, fun ⟨h₁, h₂⟩ => ⟨h₁, h₂⟩⟩

instance : Decidable db.ForeignKeys :=
  decidable_of_iff (Table.References StepRow.sagaID db.steps SagaRow.sagaID db.sagas ∧
    Table.References OutboxRow.sagaID db.outbox SagaRow.sagaID db.sagas ∧
    Table.References OutboxRow.stepKey db.outbox StepRow.key db.steps ∧
    Table.References AttemptRow.dispatchID db.attempts OutboxRow.dispatchID db.outbox ∧
    Table.References GenerationRow.generationDigest db.generations ArtifactRow.digest db.artifacts ∧
    Table.References ExecutionRow.generationDigest db.executions ArtifactRow.digest db.artifacts ∧
    Table.References PlanRow.executionID db.plans ExecutionRow.executionID db.executions ∧
    Table.References PlanRow.sagaID db.plans SagaRow.sagaID db.sagas ∧
    Table.References ApplicationRow.executionID db.applications ExecutionRow.executionID db.executions ∧
    Table.References SnapshotRow.executionID db.snapshots ExecutionRow.executionID db.executions)
    ⟨fun ⟨h₁, h₂, h₃, h₄, h₅, h₆, h₇, h₈, h₉, h₁₀⟩ => ⟨h₁, h₂, h₃, h₄, h₅, h₆, h₇, h₈, h₉, h₁₀⟩,
      fun ⟨h₁, h₂, h₃, h₄, h₅, h₆, h₇, h₈, h₉, h₁₀⟩ => ⟨h₁, h₂, h₃, h₄, h₅, h₆, h₇, h₈, h₉, h₁₀⟩⟩

end Database

end Effectus.Postgres

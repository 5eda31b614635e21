import Effectus.Ledger.Memory
import Effectus.Postgres.Outbox

/-!
Admission in PostgreSQL: the artifact, the generation, the execution with its facts and the sagas of its plans
are written in one transaction, which is tried again after a unique violation. Each try reads its own `now()`.
Serialization failures and deadlocks need a concurrent writer, so no transaction here ends in one.
-/

namespace Effectus.Postgres

open Tx

/-! ### What a failure is to the caller -/

def SqlState.text : SqlState → Text
  | .checkViolation => "SQLSTATE 23514"
  | .uniqueViolation => "SQLSTATE 23505"
  | .foreignKeyViolation => "SQLSTATE 23503"
  | .dataException code => ("SQLSTATE " : Text) ++ code

/-- The error the driver or the code returns. -/
def Failure.toErr : Failure → Err
  | .sql .uniqueViolation => ⟨[.databaseConcurrency], SqlState.uniqueViolation.text⟩
  | .sql state => .new state.text
  | .noRows => .new "sql: no rows in result set"
  | .err cause => cause

/-- `isRetryablePostgresAdmissionError`. -/
def Failure.isRetryable : Failure → Bool
  | .sql .uniqueViolation => true
  | _ => false

/-! ### Reads -/

def ExecutionRow.scan (r : ExecutionRow) (plans : List ExecutionPlanRecord) : ExecutionRecord where
  executionID := r.executionID
  admissionIdentity := r.admissionIdentity
  requestHash := r.requestHash
  ruleset := r.ruleset
  version := r.version
  tenantNamespace := r.tenantNamespace
  mergePolicy := r.mergePolicy
  generationDigest := r.generationDigest
  effectiveFacts := r.effectiveFacts
  state := r.state
  revision := r.revision
  recoveryOwner := r.recoveryOwner.getD []
  recoveryToken := r.recoveryToken.getD []
  recoveryDeadline := (r.recoveryDeadline.map Timestamp.time).getD 0
  lastError := r.lastError.getD []
  updatedAt := r.updatedAt.time
  plans := plans

def PlanRow.scan (r : PlanRow) : ExecutionPlanRecord := ⟨r.executionID, r.planID, r.sagaID, r.ordinal, r.state⟩

/-- What a query for one text is refused with. -/
def refusal [ColumnTypes] (ctx : Option Err) (t : Text) : Option Err :=
  match ctx, ColumnTypes.text t with
  | some err, _ => some err
  | none, .error code => some (Failure.sql (.dataException code)).toErr
  | none, .ok () => none

namespace Database

variable (db : Database)

def artifact? (digest : Text) : Option ArtifactRow := Keyed.get? ArtifactRow.digest db.artifacts digest

def execution? (executionID : Text) : Option ExecutionRow := Keyed.get? ExecutionRow.executionID db.executions executionID

def admitted? (identity : Text) : Option ExecutionRow :=
  Keyed.get? ExecutionRow.admissionIdentity db.executions identity

/-- The plans of an execution, `ORDER BY ordinal`. -/
def plansOf (executionID : Text) : List ExecutionPlanRecord :=
  ((db.plans.filter fun r => r.executionID = executionID).insertionSort fun a b => a.ordinal ≤ b.ordinal).map PlanRow.scan

variable [ColumnTypes]

def getArtifact (ctx : Option Err) (digest : Text) : Except Err ExecutionArtifact :=
  match refusal ctx digest, db.artifact? digest with
  | some err, _ => .error err
  | none, none => .error (.wrap .artifactNotFound digest)
  | none, some r => .ok r.artifact

def getExecution (ctx : Option Err) (executionID : Text) : Except Err ExecutionRecord :=
  match refusal ctx executionID, db.execution? executionID with
  | some err, _ => .error err
  | none, none => .error (.wrap .executionRecordNotFound executionID)
  | none, some r => .ok (r.scan (db.plansOf executionID))

/-- The ID is looked up first, then the execution. -/
def getExecutionByAdmission (ctx : Option Err) (identity : Text) : Except Err ExecutionRecord :=
  match refusal ctx identity, db.admitted? identity with
  | some err, _ => .error err
  | none, none => .error (.wrap .executionRecordNotFound (("admission " : Text) ++ identity))
  | none, some r => db.getExecution none r.executionID

end Database

section

variable [Platform] [ColumnTypes] (now : Timestamp)

/-! ### Statements -/

/-- The manifests of an artifact as they are read back. -/
def castArtifact (artifact : ExecutionArtifact) : Tx ExecutionArtifact := do
  let environment ← jsonb artifact.environment
  let executorManifest ← jsonb artifact.executorManifest
  let functionManifest ← jsonb artifact.functionManifest
  let compilerMetadata ← jsonb artifact.compilerMetadata
  return { artifact with
    environment := environment, executorManifest := executorManifest, functionManifest := functionManifest
    compilerMetadata := compilerMetadata }

/-- The insertion is `ON CONFLICT (generation_digest) DO NOTHING`; a row that was there is compared. -/
def putArtifactTx (artifact : ExecutionArtifact) : Tx Unit := do
  texts [artifact.generationDigest, artifact.irDigest, artifact.sourceDigest]
  let cast ← castArtifact artifact
  let db ← get
  match db.artifact? artifact.generationDigest with
  | none => exec fun db => { db with artifacts := db.artifacts ++ [⟨cast, now⟩] }
  | some existing =>
    require (Ledger.sameExecutionArtifact existing.artifact artifact = true)
      (Ledger.artifactConflict artifact.generationDigest)

/-- What is active for the ruleset in the execution's environment and is another generation or version. -/
def GenerationRow.superseded (execution : ExecutionRecord) (r : GenerationRow) : Bool :=
  decide (r.ruleset = execution.ruleset ∧ r.environment = execution.tenantNamespace ∧ r.state = .active ∧
    (r.generationDigest ≠ execution.generationDigest ∨ r.version ≠ execution.version))

def retireGenerations (execution : ExecutionRecord) : Tx Unit := do
  texts [execution.ruleset, execution.tenantNamespace, execution.generationDigest, execution.version]
  exec fun db => { db with
    generations := Table.update (GenerationRow.superseded execution)
      (fun r => { r with state := .retired, retiredAt := some now }) db.generations }

/-- The row of a generation that is now in use. -/
def generationRow (execution : ExecutionRecord) : GenerationRow where
  ruleset := execution.ruleset
  version := execution.version
  environment := execution.tenantNamespace
  generationDigest := execution.generationDigest
  state := .active
  retiredAt := none

/-- `ON CONFLICT (ruleset, version, generation_digest) DO UPDATE`: the environment of a row that was there
stays. -/
def activated (execution : ExecutionRecord) (db : Database) : Database :=
  let new := generationRow execution
  { db with
    generations :=
      if db.generations.any fun r => decide (r.key = new.key) then
        Table.update (fun r => decide (r.key = new.key)) (fun r => { r with state := .active, retiredAt := none })
          db.generations
      else db.generations ++ [new] }

def activateGeneration (execution : ExecutionRecord) : Tx Unit := exec (activated execution)

def newExecutionRow (execution : ExecutionRecord) : ExecutionRow where
  executionID := execution.executionID
  admissionIdentity := execution.admissionIdentity
  requestHash := execution.requestHash
  ruleset := execution.ruleset
  version := execution.version
  tenantNamespace := execution.tenantNamespace
  mergePolicy := execution.mergePolicy
  generationDigest := execution.generationDigest
  effectiveFacts := execution.effectiveFacts
  state := .accepted
  revision := 1
  recoveryOwner := none
  recoveryToken := none
  recoveryDeadline := none
  lastError := none
  updatedAt := now

/-- Only texts that were no parameters of the statements before are taken here. -/
def insertExecution (execution : ExecutionRecord) : Tx Unit := do
  texts [execution.executionID, execution.admissionIdentity, execution.requestHash, execution.mergePolicy]
  let facts ← jsonb execution.effectiveFacts
  exec fun db => { db with
    executions := db.executions ++ [newExecutionRow now { execution with effectiveFacts := facts }] }

def insertFacts (execution : ExecutionRecord) (application : FactApplication) : Tx Unit := do
  texts [application.executionID, application.factEventID, application.mergePolicy]
  let facts ← jsonb application.facts
  exec fun db => { db with
    applications := db.applications ++ [⟨application.executionID, application.factEventID, application.mergePolicy,
      facts, application.appliedRevision, now⟩] }
  let snapshot ← jsonb execution.effectiveFacts
  exec fun db => { db with
    snapshots := db.snapshots ++ [⟨execution.executionID, snapshot, application.appliedRevision, now⟩] }

def insertExecutionPlansTx : List ExecutionPlanRecord → Tx Unit
  | [] => pure ()
  | plan :: rest => do
    texts [plan.executionID, plan.planID, plan.sagaID]
    exec fun db => { db with
      plans := db.plans ++ [⟨plan.executionID, plan.planID, plan.sagaID, plan.ordinal, "selected"⟩] }
    insertExecutionPlansTx rest

/-! ### The transaction -/

/-- `admitExecutionLedgerTx`, which only the atomic admission calls, without its plans: the record, and whether it
is new. -/
def admitExecutionLedgerTx (admission : DurableAdmission) : Tx (ExecutionRecord × Bool) := do
  let execution := admission.execution
  putArtifactTx now admission.artifact
  texts [execution.admissionIdentity]
  let db ← get
  match db.admitted? execution.admissionIdentity with
  | some existing =>
    require (existing.executionID = execution.executionID ∧ existing.requestHash = execution.requestHash)
      (.wrap .identityConflict (("admission identity " : Text) ++ execution.admissionIdentity))
    let record ← lift (db.getExecution none existing.executionID)
    return (record, false)
  | none =>
    retireGenerations now execution
    activateGeneration execution
    insertExecution now execution
    insertFacts now execution admission.factApplication
    return ({ execution with state := .accepted, revision := 1, plans := admission.plans }, true)

/-- Create the saga of each plan. -/
def createSagasTx (executionID : Text) : Nat → List (CreateSagaRequest × ExecutionPlanRecord) → Tx Unit
  | _, [] => pure ()
  | index, (request, plan) :: rest => do
    require (request.executionID = executionID ∧ request.sagaID = plan.sagaID ∧ request.planID = plan.planID)
      (.new (("admission saga " : Text) ++ Text.ofInt index ++ (" does not match selected plan" : Text)))
    let _ ← createSagaTx now request
    createSagasTx executionID (index + 1) rest

def enqueueStepsTx : List EnqueueStepRequest → Tx Unit
  | [] => pure ()
  | step :: rest => do
    let _ ← enqueueStepTx now step
    enqueueStepsTx rest

/-- A saga without a step is completed at once, and its plan with it. -/
def completeEmptyTx (executionID : Text) (stepped : List Text) : List CreateSagaRequest → Tx Unit
  | [] => pure ()
  | saga :: rest => do
    if saga.sagaID ∉ stepped then
      updateSagas (fun r => decide (r.sagaID = saga.sagaID ∧ r.state = .running)) fun r =>
        { r with state := .completed, revision := r.revision + 1, updatedAt := now }
      exec fun db => { db with
        plans := Table.update (fun r => decide (r.executionID = executionID ∧ r.sagaID = saga.sagaID))
          (fun r => { r with state := "completed" }) db.plans }
    completeEmptyTx executionID stepped rest

/-- An execution none of whose plans has a step is completed at once. -/
def completeExecutionTx (record : ExecutionRecord) : Tx ExecutionRecord := do
  exec fun db => { db with
    executions := Table.update (fun r => decide (r.executionID = record.executionID))
      (fun r => { r with state := .completed, revision := r.revision + 1, updatedAt := now }) db.executions }
  return { record with
    state := .completed, revision := record.revision + 1
    plans := record.plans.map fun plan => { plan with state := "completed" } }

/-- What follows a new record. -/
def admitPlansTx (admission : DurableAdmission) (record : ExecutionRecord) : Tx ExecutionRecord := do
  createSagasTx now record.executionID 0 (admission.sagas.zip admission.plans)
  insertExecutionPlansTx admission.plans
  enqueueStepsTx now admission.initialSteps
  completeEmptyTx now record.executionID (admission.initialSteps.map (·.sagaID)) admission.sagas
  if admission.initialSteps = [] then completeExecutionTx now record else return record

def admitExecutionTx (ctx : Option Err) (admission : DurableAdmission) : Tx (ExecutionRecord × Bool) := do
  lift (Ledger.validateDurableAdmission admission)
  require (admission.sagas.length = admission.plans.length) (.new "selected plan and saga counts differ")
  require (admission.initialSteps.length ≤ admission.plans.length) (.new "too many initial steps")
  start ctx
  let (record, created) ← admitExecutionLedgerTx now admission
  if created then return (← admitPlansTx now admission record, true) else return (record, false)

end

namespace Database

variable [Platform] [ColumnTypes]

/-- `admitExecutionAtomicOnce`: what ends without a new record is rolled back. -/
def admitExecutionAtomicOnce (db : Database) (ctx : Option Err) (now : Timestamp) (admission : DurableAdmission) :
    Except Failure (ExecutionRecord × Bool) × Database :=
  match admitExecutionTx now ctx admission db with
  | .ok ((record, true), after) => (.ok (record, true), after)
  | .ok ((record, false), _) => (.ok (record, false), db)
  | .error failure => (.error failure, db)

/-- `PutArtifact`. -/
def putArtifact (db : Database) (ctx : Option Err) (now : Timestamp) (artifact : ExecutionArtifact) :
    Except Err Unit × Database :=
  (commit (do
    lift (Ledger.validateExecutionArtifact artifact)
    start ctx
    putArtifactTx now artifact) db).map (·.mapError Failure.toErr) id

/-- A record another try may have left under the identity. -/
def matchAdmitted (admission : DurableAdmission) (existing : ExecutionRecord) : Except Err (ExecutionRecord × Bool) :=
  let execution := admission.execution
  if existing.executionID ≠ execution.executionID ∨ existing.requestHash ≠ execution.requestHash ∨
      existing.generationDigest ≠ execution.generationDigest then
    .error (.wrap .identityConflict (("admission identity " : Text) ++ execution.admissionIdentity))
  else .ok (existing, false)

def maxAttempts : Nat := 6

/-- The loop, with the tries that are left. The wait between two tries is not cut short. -/
def retryAdmission (ctx : Option Err) (now : Nat → Timestamp) (admission : DurableAdmission) :
    Nat → Database → Except Err (ExecutionRecord × Bool) × Database
  | 0, db => (.error (.new "admission retry loop exhausted"), db)
  | left + 1, db =>
    match db.admitExecutionAtomicOnce ctx (now left) admission with
    | (.ok result, db) => (.ok result, db)
    | (.error failure, db) =>
      if failure.isRetryable = false then (.error failure.toErr, db)
      else
        match db.getExecutionByAdmission ctx admission.execution.admissionIdentity with
        | .ok existing => (matchAdmitted admission existing, db)
        | .error err =>
          if err.is .executionRecordNotFound = false then (.error err, db)
          else if left = 0 then
            (.error (failure.toErr.under (("admit execution after " : Text) ++ Text.ofInt maxAttempts ++
              (" concurrency retries" : Text))), db)
          else retryAdmission ctx now admission left db

/-- `AdmitExecutionAtomic`, and `AdmitExecution`, which is the same. -/
def admitExecutionAtomic (db : Database) (ctx : Option Err) (now : Nat → Timestamp) (admission : DurableAdmission) :
    Except Err (ExecutionRecord × Bool) × Database :=
  retryAdmission ctx now admission maxAttempts db

end Database

end Effectus.Postgres

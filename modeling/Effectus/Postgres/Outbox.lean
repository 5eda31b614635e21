import Effectus.Outbox.Run
import Effectus.Postgres.Transaction

/-!
Sagas and steps in PostgreSQL, as far as an admission writes them. `now` is what `now()` reads during the transaction; row
locks are left out, since a transaction is one step. The columns of these tables are taken to hold whatever is written to
them.
-/

namespace Effectus.Postgres

/-! ### Columns that may be NULL -/

/-- `nullString` and `nullJSON`. -/
def nullText (t : Text) : Option Text := if t = [] then none else some t

/-! ### Rows as they are read back -/

/-- `scanSaga`. -/
def SagaRow.scan (r : SagaRow) : SagaInstance where
  ns := r.ns
  sagaID := r.sagaID
  executionID := r.executionID
  planID := r.planID
  planDigest := r.planDigest
  state := r.state
  serial := r.serial
  revision := r.revision
  createdAt := r.createdAt.time
  updatedAt := r.updatedAt.time

/-- `scanDispatch`. -/
def OutboxRow.scan (r : OutboxRow) : Dispatch where
  id := r.dispatchID
  sagaID := r.sagaID
  effectID := r.effectID
  sequence := r.sequence
  direction := r.direction
  verb := r.verb
  contractHash := r.contractHash
  arguments := r.arguments
  argumentHash := r.argumentHash
  idempotencyKey := r.idempotencyKey
  state := r.state
  attempt := r.attempt
  leaseOwner := r.leaseOwner.getD []
  leaseToken := r.leaseToken.getD []
  leaseDeadline := (r.leaseDeadline.map Timestamp.time).getD 0
  nextAttemptAt := (r.nextAttemptAt.map Timestamp.time).getD 0
  fencing := r.fencingRequirements
  fencingGrants := r.fencingGrants
  lastOutcome := r.lastOutcome.getD .unset
  lastError := r.lastError.getD []
  result := r.result.getD []
  revision := r.revision
  createdAt := r.createdAt.time
  updatedAt := r.updatedAt.time

/-! ### Statements -/

namespace Database

variable (db : Database)

def saga? (sagaID : Text) : Option SagaRow := Keyed.get? SagaRow.sagaID db.sagas sagaID

def step? (sagaID effectID : Text) : Option StepRow := Keyed.get? StepRow.key db.steps (sagaID, effectID)

def dispatch? (dispatchID : Text) : Option OutboxRow := Keyed.get? OutboxRow.dispatchID db.outbox dispatchID

def dispatchFor? (sagaID effectID : Text) (direction : Direction) : Option OutboxRow :=
  Keyed.get? OutboxRow.effectKey db.outbox (sagaID, effectID, direction)

def stepsOf (sagaID : Text) : List StepRow := db.steps.filter fun r => r.sagaID = sagaID

end Database

namespace Tx

/-- A check of the code between two statements. -/
def require (p : Prop) [Decidable p] (err : Err) : Tx Unit := if p then pure () else fail (.err err)

/-- `BeginTx`, which a context that is done refuses. -/
def start (ctx : Option Err) : Tx Unit :=
  match ctx with
  | some err => fail (.err err)
  | none => pure ()

def updateSagas (p : SagaRow → Bool) (f : SagaRow → SagaRow) : Tx Unit :=
  exec fun db => { db with sagas := Table.update p f db.sagas }

end Tx

open Tx

def getSagaTx (sagaID : Text) : Tx SagaInstance := do
  let db ← get
  let r ← row (db.saga? sagaID)
  return r.scan

def getDispatchTx (dispatchID : Text) : Tx Dispatch := do
  let db ← get
  let r ← row (db.dispatch? dispatchID)
  return r.scan

section

variable [Platform] (now : Timestamp)

/-! ### Sagas and steps -/

/-- The row `createSagaTx` inserts, with the columns' defaults. -/
def newSagaRow (request : CreateSagaRequest) : SagaRow where
  sagaID := request.sagaID
  ns := request.ns
  executionID := request.executionID
  planID := request.planID
  planDigest := request.planDigest
  state := .running
  serial := request.serial
  revision := 1
  createdAt := now
  updatedAt := now

/-- The insertion is `ON CONFLICT (saga_id) DO NOTHING`; only a row that was there already is compared. -/
def createSagaTx (request : CreateSagaRequest) : Tx SagaInstance := do
  lift (validateSagaRequest request)
  let db ← get
  match db.saga? request.sagaID with
  | none =>
    exec fun db => { db with sagas := db.sagas ++ [newSagaRow now request] }
    getSagaTx request.sagaID
  | some existing =>
    require (existing.ns = request.ns ∧ existing.executionID = request.executionID ∧
      existing.planID = request.planID ∧ existing.planDigest = request.planDigest ∧
      existing.serial = request.serial) (.wrap .identityConflict (("saga " : Text) ++ request.sagaID))
    return existing.scan

/-- The stored step is the one asked for. -/
def sameStepRow (r : StepRow) (n : NormalizedStep) : Bool :=
  decide (r.sequence = n.request.sequence) && decide (r.verb = n.request.verb) &&
    decide (r.contractHash = n.request.contractHash) && decide (r.argumentHash = n.argumentHash) &&
    decide (r.compensationVerb.getD [] = n.request.compensationVerb) &&
    decide (r.compensationContractHash.getD [] = n.request.compensationContract) &&
    decide (r.compensationArgumentHash.getD [] = n.compensationHash) &&
    decide (r.fencingRequirements = n.request.fencing)

def newStepRow (n : NormalizedStep) : StepRow where
  sagaID := n.request.sagaID
  effectID := n.request.effectID
  sequence := n.request.sequence
  verb := n.request.verb
  contractHash := n.request.contractHash
  arguments := n.arguments
  argumentHash := n.argumentHash
  compensationVerb := nullText n.request.compensationVerb
  compensationContractHash := nullText n.request.compensationContract
  compensationArguments := nullText n.compensationArguments
  compensationArgumentHash := nullText n.compensationHash
  fencingRequirements := n.request.fencing
  state := .pending
  result := none

/-- A dispatch as it is first stored. -/
def queuedRow (saga : SagaInstance) (direction : Direction) (effectID : Text) (sequence : Int) (verb contractHash
    arguments argumentHash : Text) (fencing : List FencingRequirement) : OutboxRow where
  dispatchID := dispatchIDOf (idempotencyKey saga.ns saga.sagaID effectID direction)
  sagaID := saga.sagaID
  effectID := effectID
  sequence := sequence
  direction := direction
  verb := verb
  contractHash := contractHash
  arguments := arguments
  argumentHash := argumentHash
  idempotencyKey := idempotencyKey saga.ns saga.sagaID effectID direction
  state := .queued
  attempt := 0
  leaseOwner := none
  leaseToken := none
  leaseDeadline := none
  nextAttemptAt := none
  fencingRequirements := fencing
  fencingGrants := []
  lastOutcome := none
  lastError := none
  result := none
  serialSaga := saga.serial
  revision := 1
  createdAt := now
  updatedAt := now

def forwardRow (saga : SagaInstance) (n : NormalizedStep) : OutboxRow :=
  queuedRow now saga .forward n.request.effectID n.request.sequence n.request.verb n.request.contractHash n.arguments
    n.argumentHash n.request.fencing

/-- `COALESCE(max(sequence), 0)`. -/
def maxSequence (rows : List StepRow) : Int := rows.foldl (fun m r => max m r.sequence) 0

/-- The three statements that add a step. -/
def insertStep (saga : SagaInstance) (n : NormalizedStep) : Tx Unit := do
  exec fun db => { db with steps := db.steps ++ [newStepRow n] }
  exec fun db => { db with outbox := db.outbox ++ [forwardRow now saga n] }
  updateSagas (fun r => decide (r.sagaID = saga.sagaID)) fun r =>
    { r with revision := r.revision + 1, updatedAt := now }

def enqueueStepTx (request : EnqueueStepRequest) : Tx Dispatch := do
  let n ← lift (normalizeEnqueue request)
  let saga ← getSagaTx n.request.sagaID
  let db ← get
  match db.dispatchFor? n.request.sagaID n.request.effectID .forward with
  | some existing =>
    let step ← row (db.step? n.request.sagaID n.request.effectID)
    require (sameStepRow step n = true) (.wrap .identityConflict (("saga " : Text) ++ n.request.sagaID ++
      (" effect " : Text) ++ n.request.effectID))
    return existing.scan
  | none =>
    require (saga.state = .running) (.wrap .invalidTransition (("saga " : Text) ++ saga.sagaID ++
      (" is " : Text) ++ saga.state.text))
    require (n.request.sequence = maxSequence (db.stepsOf saga.sagaID) + 1)
      (.wrap .identityConflict "non-dense sequence")
    insertStep now saga n
    getDispatchTx (dispatchIDOf (idempotencyKey saga.ns saga.sagaID n.request.effectID .forward))

end

end Effectus.Postgres

import Effectus.Ledger.Memory

/-!
Admission in one transaction over ledger and outbox: the record, the sagas of its plans and their first
steps are written together or not at all. Sagas without a step are completed at once, and so is an
execution none of whose plans has one.
-/

namespace Effectus.Ledger

section

variable [Platform]

/-- Create the saga of each plan. -/
def createSagas (executionID : Text) (now : Time) :
    Nat → List (CreateSagaRequest × ExecutionPlanRecord) → Store → Except Err Store
  | _, [], s => .ok s
  | index, (request, plan) :: rest, s =>
    if request.executionID ≠ executionID ∨ request.sagaID ≠ plan.sagaID ∨ request.planID ≠ plan.planID then
      .error (.new (("admission saga " : Text) ++ Text.ofInt index ++ (" does not match selected plan" : Text)))
    else
      match s.createSaga none now request with
      | (.error err, _) => .error err
      | (.ok _, s) => createSagas executionID now (index + 1) rest s

def enqueueSteps (now : Time) : List EnqueueStepRequest → Store → Except Err Store
  | [], s => .ok s
  | step :: rest, s =>
    match s.enqueueStep none now step with
    | (.error err, _) => .error err
    | (.ok _, s) => enqueueSteps now rest s

/-- Complete a saga that runs. -/
def completeRunning (now : Time) (s : Store) (sagaID : Text) : Store :=
  match s.saga? sagaID with
  | some saga => if saga.state = .running then s.setSaga (Store.moved saga .completed now) else s
  | none => s

/-- The sagas for which no step was enqueued. -/
def emptySagas (admission : DurableAdmission) : List Text :=
  (admission.sagas.map (·.sagaID)).filter fun sagaID => !(admission.initialSteps.map (·.sagaID)).contains sagaID

/-- The record the transaction leaves. -/
def committedRecord (admission : DurableAdmission) (now : Time) : ExecutionRecord :=
  let record := admittedRecord admission now
  let record := { record with
    plans := record.plans.map fun plan =>
      if (emptySagas admission).contains plan.sagaID then { plan with state := "completed" } else plan }
  if admission.initialSteps = [] then { record with state := .completed, revision := record.revision + 1 } else record

/-- The record it returns, where plans are only marked when the execution is completed. -/
def returnedRecord (admission : DurableAdmission) (now : Time) : ExecutionRecord :=
  let record := admittedRecord admission now
  if admission.initialSteps = [] then
    { record with
      state := .completed, revision := record.revision + 1
      plans := record.plans.map fun plan => { plan with state := "completed" } }
  else record

/-- The transaction once no execution has the admission's identity. An execution under the same ID violates
its key. -/
def insertExecution (s : Store) (l : Ledger) (now : Time) (admission : DurableAdmission) :
    Except Err (Store × Ledger) :=
  let execution := admission.execution
  if (l.execution? execution.executionID).isSome then
    .error (.wrap .databaseConcurrency "admit execution after 6 concurrency retries: insert execution")
  else
    match createSagas execution.executionID now 0 (admission.sagas.zip admission.plans) s with
    | .error err => .error err
    | .ok s =>
      match enqueueSteps now admission.initialSteps s with
      | .error err => .error err
      | .ok s => .ok ((emptySagas admission).foldl (completeRunning now) s,
          { l with
            executions := l.executions ++ [committedRecord admission now]
            byAdmission := l.byAdmission ++ [(execution.admissionIdentity, execution.executionID)] })

/-- `AdmitExecutionAtomic`. A retry after a serialization failure starts over, so only the last try counts;
one that found no other admission is an error from outside. What ends without a new record is rolled
back. -/
def admitExecutionAtomic (s : Store) (l : Ledger) (ctx : Option Err) (now : Time) (admission : DurableAdmission) :
    Except Err (ExecutionRecord × Bool) × Store × Ledger :=
  let execution := admission.execution
  match ctx, validateDurableAdmission admission with
  | some err, _ => (.error err, s, l)
  | none, .error err => (.error err, s, l)
  | none, .ok () =>
    if admission.sagas.length ≠ admission.plans.length then
      (.error (.new "selected plan and saga counts differ"), s, l)
    else if admission.plans.length < admission.initialSteps.length then
      (.error (.new "too many initial steps"), s, l)
    else
      match l.storeArtifact admission.artifact, l.admitted? execution.admissionIdentity with
      | (.error err, _), _ => (.error err, s, l)
      | (.ok (), _), some existing =>
        if existing.executionID ≠ execution.executionID ∨ existing.requestHash ≠ execution.requestHash then
          (.error (.wrap .identityConflict (("admission identity " : Text) ++ execution.admissionIdentity)), s, l)
        else (.ok (existing, false), s, l)
      | (.ok (), stored), none =>
        match insertExecution s stored now admission with
        | .error err => (.error err, s, l)
        | .ok (s, l) => (.ok (returnedRecord admission now, true), s, l)

end

end Effectus.Ledger

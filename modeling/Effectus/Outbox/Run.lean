import Effectus.Outbox.Closing

/-!
Runs of the store. A call carries everything the source takes from outside: its arguments, whether its
context is already done, what the clock reads during it and, for a claim, what the random source
returns. Calls of any number of workers interleave as a list, since each runs under the lock.
-/

namespace Effectus

/-- One call that may change the store. -/
inductive Op where
  | createSaga (ctx : Option Err) (now : Time) (request : CreateSagaRequest)
  | enqueueStep (ctx : Option Err) (now : Time) (request : EnqueueStepRequest)
  | claimDispatch (ctx : Option Err) (clock : Time) (token : Except Err Text) (options : ClaimOptions)
  | saveFencingGrants (ctx : Option Err) (checkedAt updatedAt : Time) (dispatchID : Text) (attempt : Nat)
      (leaseToken : Text) (grants : List FencingGrant)
  | completeDispatch (ctx : Option Err) (readAt checkedAt : Time) (completion : Completion)
  | completeSaga (ctx : Option Err) (now : Time) (sagaID : Text)
  | finalizeStoppedExecution (ctx : Option Err) (now : Time) (executionID : Text)
  | blockSagaCompensation (ctx : Option Err) (now : Time) (sagaID : Text)
  | finalizeFailFastSaga (ctx : Option Err) (now : Time) (sagaID : Text)

/-- What a call returns. -/
inductive Reply where
  | saga (result : Except Err SagaInstance)
  | dispatch (result : Except Err Dispatch)
  | done (result : Except Err Unit)

/-- The error a call returned, if any. -/
def Reply.err? : Reply → Option Err
  | .saga (.error err) | .dispatch (.error err) | .done (.error err) => some err
  | .saga (.ok _) | .dispatch (.ok _) | .done (.ok _) => none

namespace Store

section

variable [Platform]

def apply (s : Store) : Op → Reply × Store
  | .createSaga ctx now request => (s.createSaga ctx now request).map .saga id
  | .enqueueStep ctx now request => (s.enqueueStep ctx now request).map .dispatch id
  | .claimDispatch ctx clock token options => (s.claimDispatch ctx clock token options).map .dispatch id
  | .saveFencingGrants ctx checkedAt updatedAt dispatchID attempt leaseToken grants =>
    (s.saveFencingGrants ctx checkedAt updatedAt dispatchID attempt leaseToken grants).map .done id
  | .completeDispatch ctx readAt checkedAt completion =>
    (s.completeDispatch ctx readAt checkedAt completion).map .done id
  | .completeSaga ctx now sagaID => (s.completeSaga ctx now sagaID).map .done id
  | .finalizeStoppedExecution ctx now executionID =>
    (s.finalizeStoppedExecution ctx now executionID).map .done id
  | .blockSagaCompensation ctx now sagaID => (s.blockSagaCompensation ctx now sagaID).map .done id
  | .finalizeFailFastSaga ctx now sagaID => (s.finalizeFailFastSaga ctx now sagaID).map .done id

/-- The store a call leaves. -/
def after (s : Store) (op : Op) : Store := (s.apply op).2

/-- The store a list of calls leaves. -/
def run (s : Store) (ops : List Op) : Store := ops.foldl after s

@[simp] theorem run_nil (s : Store) : s.run [] = s := rfl

@[simp] theorem run_cons (s : Store) (op : Op) (ops : List Op) : s.run (op :: ops) = (s.after op).run ops := rfl

@[simp] theorem run_append (s : Store) (ops more : List Op) : s.run (ops ++ more) = (s.run ops).run more :=
  List.foldl_append ..

end

end Store

end Effectus

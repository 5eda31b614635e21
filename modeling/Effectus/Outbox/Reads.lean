import Effectus.Outbox.Closing

/-!
The reads of the store, and the replay of a step an older release wrote with an inverse. None of them
changes the store.
-/

namespace Effectus.Store

variable (s : Store) (ctx : Option Err)

def getSaga (sagaID : Text) : Except Err SagaInstance :=
  match ctx, s.saga? sagaID with
  | some err, _ => .error err
  | none, none => .error (notFound sagaID)
  | none, some saga => .ok saga

def getDispatch (dispatchID : Text) : Except Err Dispatch :=
  match ctx, s.dispatch? dispatchID with
  | some err, _ => .error err
  | none, none => .error (.new (("dispatch not found: " : Text) ++ dispatchID))
  | none, some d => .ok d

/-- By sequence, the inverse of a step before the step. -/
def listsBefore (a b : Dispatch) : Bool :=
  if a.sequence ≠ b.sequence then decide (a.sequence < b.sequence) else Text.lt a.direction.text b.direction.text

def listDispatches (sagaID : Text) : Except Err (List Dispatch) :=
  match ctx with
  | some err => .error err
  | none => .ok ((s.dispatches.filter fun d => d.sagaID = sagaID).insertionSort fun a b => listsBefore b a = false)

def listAttempts (dispatchID : Text) : Except Err (List DispatchAttempt) :=
  match ctx with
  | some err => .error err
  | none => .ok (s.attempts dispatchID)

section

variable [Platform]

/-- The dispatch of the step, if the step is the one asked for. -/
def replayedStep (n : NormalizedStep) : Except Err Dispatch :=
  match s.saga? n.request.sagaID with
  | none => .error (notFound n.request.sagaID)
  | some saga =>
    match s.dispatch? (dispatchIDOf (idempotencyKey saga.ns saga.sagaID n.request.effectID .forward)),
      s.step? n.request.sagaID n.request.effectID with
    | some d, some step =>
      if sameStep step n.request n.argumentHash n.compensationHash then .ok d
      else .error (.wrap .identityConflict
        (("saga " : Text) ++ n.request.sagaID ++ (" effect " : Text) ++ n.request.effectID))
    | _, _ => .error (.wrap .identityConflict
        (("saga " : Text) ++ n.request.sagaID ++ (" effect " : Text) ++ n.request.effectID))

def replayExistingStep (request : EnqueueStepRequest) : Except Err Dispatch :=
  match ctx, normalizeEnqueue request with
  | some err, _ => .error err
  | none, .error err => .error err
  | none, .ok n => s.replayedStep n

end

end Effectus.Store

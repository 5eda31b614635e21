import Effectus.Outbox.Completion

/-!
Closing sagas: completion of a saga whose dispatches all succeeded, and the three finalizers that stop
work for good. A finalizer never touches a live lease, and keeps what may have committed as blocked.
-/

namespace Effectus.Store

def completeSaga (s : Store) (ctx : Option Err) (now : Time) (sagaID : Text) : Except Err Unit × Store :=
  match ctx, s.saga? sagaID with
  | some err, _ => (.error err, s)
  | none, none => (.error (notFound sagaID), s)
  | none, some saga =>
    if saga.state = .completed then (.ok (), s)
    else if saga.state ≠ .running then
      (.error (.wrap .invalidTransition (("cannot complete saga from " : Text) ++ saga.state.text)), s)
    else
      match s.dispatches.find? fun d => decide (d.sagaID = sagaID ∧ d.state ≠ .succeeded) with
      | some d =>
        (.error (.wrap .invalidTransition (("dispatch " : Text) ++ d.id ++ (" is " : Text) ++ d.state.text)), s)
      | none => (.ok (), s.setSaga (moved saga .completed now))

def cancelDispatch (now : Time) (reason : Text) (d : Dispatch) : Dispatch :=
  { d with
    state := .canceled, nextAttemptAt := 0, lastError := reason, revision := d.revision + 1, updatedAt := now }

def blockExpiredDispatch (now : Time) (d : Dispatch) : Dispatch :=
  { d with
    state := .blockedUnknown, leaseOwner := [], leaseToken := [], leaseDeadline := 0, nextAttemptAt := 0
    lastError := "dispatch lease expired without a known outcome", revision := d.revision + 1, updatedAt := now }

def blockUnknownRetryDispatch (now : Time) (d : Dispatch) : Dispatch :=
  { d with state := .blockedUnknown, nextAttemptAt := 0, revision := d.revision + 1, updatedAt := now }

def isUncertainRetry (s : Store) (d : Dispatch) : Bool :=
  if d.state ≠ .retryWait then false
  else if d.lastOutcome = .unknown then true
  else (s.attempts d.id).any fun a => decide (a.outcome = .unknown ∨ a.completedAt = 0)

/-- Whether some dispatch of the saga holds a lease that has not run out. -/
def hasActiveLease (s : Store) (sagaID : Text) (now : Time) : Bool :=
  s.dispatches.any fun d => decide (d.sagaID = sagaID ∧ d.state = .inFlight ∧ now < d.leaseDeadline)

/-- The first pass over a stopped saga's dispatches: an expired lease and an uncertain retry are
blocked. -/
def blockUncertain (s : Store) (now : Time) (d : Dispatch) : Dispatch :=
  if d.state = .inFlight then blockExpiredDispatch now d
  else if s.isUncertainRetry d then blockUnknownRetryDispatch now d
  else d

def stoppedReason : Text := "execution stopped before dispatch could complete"

/-- The second pass: what has not run is canceled. -/
def cancelWaiting (now : Time) (d : Dispatch) : Dispatch :=
  if d.state = .queued ∨ d.state = .retryWait then cancelDispatch now stoppedReason d else d

/-- Both passes over the dispatches of one saga. -/
def closeDispatches (s : Store) (sagaID : Text) (now : Time) : List Dispatch :=
  (s.dispatches.map fun d => if d.sagaID = sagaID then s.blockUncertain now d else d).map fun d =>
    if d.sagaID = sagaID then cancelWaiting now d else d

/-- Whether the first pass finds an effect that may have committed. -/
def isUncertain (s : Store) (d : Dispatch) : Bool :=
  decide (d.state = .inFlight) || s.isUncertainRetry d || decide (d.state = .blockedUnknown)

/-- The state an open saga is stopped in, one dispatch at a time. -/
def stoppedState (s : Store) (sagaID : Text) (next : SagaState) (d : Dispatch) : SagaState :=
  if d.sagaID ≠ sagaID then next
  else if s.isUncertain d then .blockedUnknown
  else if d.direction = .forward ∧ d.state = .succeeded ∧ next ≠ .blockedUnknown then .blockedDependency
  else next

/-- Close one saga of a stopped execution. -/
def stopSaga (now : Time) (s : Store) (saga : SagaInstance) : Store :=
  let closed := { s with dispatches := s.closeDispatches saga.sagaID now }
  if isTerminalSaga saga.state then
    if (s.dispatches.any fun d => decide (d.sagaID = saga.sagaID) && s.isUncertain d) ∧
        saga.state ≠ .blockedUnknown then
      closed.setSaga (moved saga .blockedUnknown now)
    else closed
  else
    let start := if saga.state = .compensating then .blockedDependency else .failed
    closed.setSaga (moved saga (s.dispatches.foldl (s.stoppedState saga.sagaID) start) now)

/-- The sagas of an execution. -/
def sagasOf (s : Store) (executionID : Text) : List SagaInstance :=
  s.sagas.filter fun saga => saga.executionID = executionID

def finalizeStoppedExecution (s : Store) (ctx : Option Err) (now : Time) (executionID : Text) :
    Except Err Unit × Store :=
  match ctx with
  | some err => (.error err, s)
  | none =>
    if executionID = [] then (.error (.new "execution ID is required"), s)
    else
      match (s.sagasOf executionID).find? fun saga => s.hasActiveLease saga.sagaID now with
      | some saga => (.error (.wrap .activeDispatchLease (("saga " : Text) ++ saga.sagaID)), s)
      | none => (.ok (), (s.sagasOf executionID).foldl (stopSaga now) s)

def disabledReason : Text := "compensation disabled by fail-fast execution policy"

/-- The switch over one inverse's state. -/
def blockInverse (s : Store) (now : Time) (d : Dispatch) : Dispatch :=
  match d.state with
  | .queued => cancelDispatch now disabledReason d
  | .inFlight => blockExpiredDispatch now d
  | .retryWait =>
    if s.isUncertainRetry d then blockUnknownRetryDispatch now d else cancelDispatch now disabledReason d
  | _ => d

def blockInverses (s : Store) (sagaID : Text) (now : Time) : List Dispatch :=
  s.dispatches.map fun d => if d.sagaID = sagaID ∧ d.direction = .compensation then s.blockInverse now d else d

/-- Whether an inverse may have committed: its lease ran out, or a retry waits on an unknown outcome. -/
def hasUncertainInverse (s : Store) (sagaID : Text) : Bool :=
  s.dispatches.any fun d => decide (d.sagaID = sagaID ∧ d.direction = .compensation) &&
    (decide (d.state = .inFlight) || s.isUncertainRetry d)

def blockSagaCompensation (s : Store) (ctx : Option Err) (now : Time) (sagaID : Text) :
    Except Err Unit × Store :=
  match ctx, s.saga? sagaID with
  | some err, _ => (.error err, s)
  | none, none => (.error (notFound sagaID), s)
  | none, some saga =>
    if saga.state = .blockedCompensation then (.ok (), s)
    else if saga.state ≠ .compensating then
      (.error (.wrap .invalidTransition (("cannot block compensation from " : Text) ++ saga.state.text)), s)
    else if s.hasActiveLease sagaID now then
      (.error (.wrap .activeDispatchLease (("saga " : Text) ++ sagaID)), s)
    else
      let state := if s.hasUncertainInverse sagaID then .blockedUnknown else .blockedCompensation
      (.ok (), { s with dispatches := s.blockInverses sagaID now }.setSaga (moved saga state now))

def hasInverseOrInFlight (s : Store) (sagaID : Text) : Bool :=
  s.dispatches.any fun d => decide (d.sagaID = sagaID ∧ (d.direction = .compensation ∨ d.state = .inFlight))

def finalizeFailFastSaga (s : Store) (ctx : Option Err) (now : Time) (sagaID : Text) : Except Err Unit × Store :=
  match ctx, s.saga? sagaID with
  | some err, _ => (.error err, s)
  | none, none => (.error (notFound sagaID), s)
  | none, some saga =>
    if saga.state = .failed then (.ok (), s)
    else if saga.state ≠ .blockedCompensation then
      (.error (.wrap .invalidTransition (("cannot finalize fail-fast saga from " : Text) ++ saga.state.text)), s)
    else if s.hasInverseOrInFlight sagaID then
      (.error (.wrap .invalidTransition (("saga " : Text) ++ sagaID ++
        (" has compensation or in-flight work" : Text))), s)
    else (.ok (), s.setSaga (moved saga .failed now))

end Effectus.Store

import Effectus.Lib.Ranging
import Effectus.Outbox.Closing

/-!
`FinalizeStoppedExecution` with the order of its loops written out. Each `range` over a map takes the keys
in an order of its own, and the inner loops take theirs afresh for every saga; records are rewritten
through their pointers while the loop goes on. No loop adds or removes a key.
-/

namespace Effectus.Store

/-- The orders one call takes the keys of the two maps in: the loops that look for a lease, the loop that
closes the sagas, and for each saga the two passes over the dispatches. -/
structure Walk (s : Store) where
  leaseSagas : List Text
  leaseDispatches : Text → List Text
  sagas : List Text
  firstPass : Text → List Text
  secondPass : Text → List Text
  leaseSagas_perm : leaseSagas.Perm (s.sagas.map (·.sagaID))
  leaseDispatches_perm : ∀ sagaID, (leaseDispatches sagaID).Perm (s.dispatches.map (·.id))
  sagas_perm : sagas.Perm (s.sagas.map (·.sagaID))
  firstPass_perm : ∀ sagaID, (firstPass sagaID).Perm (s.dispatches.map (·.id))
  secondPass_perm : ∀ sagaID, (secondPass sagaID).Perm (s.dispatches.map (·.id))

/-- The order in which records were put in. -/
instance (s : Store) : Inhabited s.Walk where
  default :=
    { leaseSagas := s.sagas.map (·.sagaID), leaseDispatches := fun _ => s.dispatches.map (·.id)
      sagas := s.sagas.map (·.sagaID), firstPass := fun _ => s.dispatches.map (·.id)
      secondPass := fun _ => s.dispatches.map (·.id), leaseSagas_perm := .refl _
      leaseDispatches_perm := fun _ => .refl _, sagas_perm := .refl _, firstPass_perm := fun _ => .refl _
      secondPass_perm := fun _ => .refl _ }

/-- The first pass over a terminal saga's dispatches, with `uncertain`. -/
def blockTerminal (s : Store) (now : Time) (sagaID : Text) (uncertain : Bool) (d : Dispatch) : Bool × Dispatch :=
  if d.sagaID ≠ sagaID then (uncertain, d)
  else if d.state = .inFlight then (true, blockExpiredDispatch now d)
  else if s.isUncertainRetry d then (true, blockUnknownRetryDispatch now d)
  else if d.state = .blockedUnknown then (true, d)
  else (uncertain, d)

/-- The first pass over an open saga's dispatches, with `nextState`. -/
def blockOpen (s : Store) (now : Time) (sagaID : Text) (nextState : SagaState) (d : Dispatch) :
    SagaState × Dispatch :=
  if d.sagaID ≠ sagaID then (nextState, d)
  else if d.state = .inFlight then (.blockedUnknown, blockExpiredDispatch now d)
  else if s.isUncertainRetry d then (.blockedUnknown, blockUnknownRetryDispatch now d)
  else if d.state = .blockedUnknown then (.blockedUnknown, d)
  else if d.direction = .forward ∧ d.state = .succeeded ∧ nextState ≠ .blockedUnknown then (.blockedDependency, d)
  else (nextState, d)

/-- The second pass. -/
def cancelTurn (now : Time) (sagaID : Text) (_ : Unit) (d : Dispatch) : Unit × Dispatch :=
  if d.sagaID = sagaID ∧ (d.state = .queued ∨ d.state = .retryWait) then ((), cancelDispatch now stoppedReason d)
  else ((), d)

namespace Walk

variable {s : Store}

/-- The body of the loop over the sagas, on the dispatches as the turns before left them. -/
def closeTurn (w : s.Walk) (now : Time) (executionID : Text) (dispatches : List Dispatch) (saga : SagaInstance) :
    List Dispatch × SagaInstance :=
  if saga.executionID ≠ executionID then (dispatches, saga)
  else if isTerminalSaga saga.state then
    let first := Keyed.range (·.id) (s.blockTerminal now saga.sagaID) (w.firstPass saga.sagaID) false dispatches
    let second := Keyed.range (·.id) (cancelTurn now saga.sagaID) (w.secondPass saga.sagaID) () first.2
    (second.2,
      if first.1 ∧ saga.state ≠ .blockedUnknown then moved saga .blockedUnknown now else saga)
  else if saga.state ≠ .running ∧ saga.state ≠ .compensating then (dispatches, saga)
  else
    let start := if saga.state = .compensating then .blockedDependency else .failed
    let first := Keyed.range (·.id) (s.blockOpen now saga.sagaID) (w.firstPass saga.sagaID) start dispatches
    let second := Keyed.range (·.id) (cancelTurn now saga.sagaID) (w.secondPass saga.sagaID) () first.2
    (second.2, moved saga first.1 now)

/-- The first saga met that has a live lease. -/
def leased? (w : s.Walk) (now : Time) (executionID : Text) : Option SagaInstance :=
  (w.leaseSagas.filterMap s.saga?).find? fun saga =>
    decide (saga.executionID = executionID) &&
      ((w.leaseDispatches saga.sagaID).filterMap s.dispatch?).any fun d =>
        decide (d.sagaID = saga.sagaID ∧ d.state = .inFlight ∧ now < d.leaseDeadline)

/-- `FinalizeStoppedExecution` along one walk. -/
def finalizeStoppedExecution (w : s.Walk) (ctx : Option Err) (now : Time) (executionID : Text) :
    Except Err Unit × Store :=
  match ctx with
  | some err => (.error err, s)
  | none =>
    if executionID = [] then (.error (.new "execution ID is required"), s)
    else
      match w.leased? now executionID with
      | some saga => (.error (.wrap .activeDispatchLease (("saga " : Text) ++ saga.sagaID)), s)
      | none =>
        let closed := Keyed.range (·.sagaID) (w.closeTurn now executionID) w.sagas s.dispatches s.sagas
        (.ok (), { s with sagas := closed.2, dispatches := closed.1 })

end Walk

end Effectus.Store

import Effectus.Outbox.Store

/-!
Completing a dispatch: the outcome settles the dispatch, its step and its saga, and decides whether
the saga turns to undoing its succeeded steps, last first.
-/

namespace Effectus.Store

section

variable [Platform]

/-! ### Compensation -/

/-- The succeeded step with a compensation that has the highest sequence. -/
def compensationCandidate? (s : Store) (sagaID : Text) : Option SagaStep :=
  (s.stepsOf sagaID).foldl (fun candidate step =>
    if step.state ≠ .succeeded ∨ step.compensationVerb = [] then candidate
    else
      match candidate with
      | none => some step
      | some c => if c.sequence < step.sequence then some step else candidate) none

def hasSucceededStep (s : Store) (sagaID : Text) : Bool :=
  (s.stepsOf sagaID).any fun step => decide (step.state = .succeeded)

/-- The dispatch that undoes a step. -/
def compensationDispatch (saga : SagaInstance) (step : SagaStep) (now : Time) : Dispatch where
  id := dispatchIDOf (idempotencyKey saga.ns saga.sagaID step.effectID .compensation)
  sagaID := saga.sagaID
  effectID := step.effectID
  sequence := step.sequence
  direction := .compensation
  verb := step.compensationVerb
  contractHash := step.compensationContract
  arguments := step.compensationArguments
  argumentHash := step.compensationArgumentHash
  idempotencyKey := idempotencyKey saga.ns saga.sagaID step.effectID .compensation
  state := .queued
  attempt := 0
  leaseOwner := []
  leaseToken := []
  leaseDeadline := 0
  nextAttemptAt := 0
  fencing := step.fencing
  fencingGrants := []
  lastOutcome := .unset
  lastError := []
  result := []
  revision := 1
  createdAt := now
  updatedAt := now

def enqueueCompensation (s : Store) (saga : SagaInstance) (step : SagaStep) (now : Time) : Store :=
  let dispatch := compensationDispatch saga step now
  match s.dispatch? dispatch.id with
  | some _ => s
  | none => { s with dispatches := s.dispatches ++ [dispatch] }

/-- A saga in a new state, with its revision advanced. -/
def moved (saga : SagaInstance) (state : SagaState) (now : Time) : SagaInstance :=
  { saga with state := state, revision := saga.revision + 1, updatedAt := now }

def startCompensation (s : Store) (saga : SagaInstance) (now : Time) : Store :=
  match s.compensationCandidate? saga.sagaID with
  | none =>
    s.setSaga (moved saga (if s.hasSucceededStep saga.sagaID then .blockedCompensation else .failed) now)
  | some candidate => (s.setSaga (moved saga .compensating now)).enqueueCompensation saga candidate now

def enqueueNextCompensation (s : Store) (saga : SagaInstance) (now : Time) : Store :=
  match s.compensationCandidate? saga.sagaID with
  | none =>
    s.setSaga (moved saga (if s.hasSucceededStep saga.sagaID then .blockedCompensation else .compensated) now)
  | some candidate => s.enqueueCompensation saga candidate now

/-! ### Completion -/

/-- The result decodes, and its canonical encoding is the text itself. -/
def isCanonicalJSON (text : Text) : Bool :=
  match Json.decode text with
  | none => false
  | some decoded =>
    match (GoValue.ofJson decoded).marshal with
    | none => false
    | some canonical => canonical.render == text

def validateCompletion (c : Completion) : Except Err Unit :=
  if c.dispatchID = [] ∨ c.attempt = 0 ∨ c.leaseToken = [] then
    .error (.new "dispatch ID, attempt, and lease token are required")
  else
    match c.outcome with
    | .success =>
      if c.result = [] then .error (.new "successful dispatch requires a canonical result")
      else if (Json.decode c.result).isNone then
        .error (.new "successful dispatch result is invalid JSON")
      else if isCanonicalJSON c.result = false then
        .error (.new "successful dispatch result is not canonical JSON")
      else .ok ()
    | .retryableKnownNotCommitted | .permanentFailure | .unknown | .staleFence =>
      if c.error = [] then
        .error (.new (("dispatch outcome " : Text) ++ c.outcome.text ++ (" requires an error" : Text)))
      else .ok ()
    | .unset | .other _ => .error (.new (("invalid dispatch outcome " : Text) ++ Text.quote c.outcome.text))

def terminalOutcomeMayMaskPriorUnknown (c : Completion) : Bool :=
  decide (c.outcome = .permanentFailure ∨ c.outcome = .staleFence ∨
    (c.outcome = .retryableKnownNotCommitted ∧ c.exhausted = true))

/-- A later known non-commit cannot resolve an earlier unknown result. The current attempt is among
the records, its outcome still unset. -/
def priorAttemptsKnownNotCommitted (attempts : List DispatchAttempt) (currentAttempt : Nat) : Bool :=
  decide (attempts.length = currentAttempt) &&
    attempts.zipIdx.all fun (a, index) =>
      decide (a.attempt = index + 1) &&
        (decide (a.attempt = currentAttempt) ||
          decide (a.completedAt ≠ 0 ∧ a.outcome = .retryableKnownNotCommitted))

/-- The saga state a dispatch that cannot settle leaves behind. -/
def blockedBy (direction : Direction) (forward : SagaState) : SagaState :=
  match direction with
  | .compensation => .blockedCompensation
  | .forward => forward

/-- The states `applyCompletion` gives the dispatch, its step and its saga. -/
def completionStates (d : Dispatch) (step : SagaStep) (saga : SagaInstance) (c : Completion)
    (priorUnresolved : Bool) : DispatchState × StepState × SagaState :=
  if priorUnresolved then (.blockedUnknown, step.state, blockedBy d.direction .blockedUnknown)
  else
    match c.outcome with
    | .success =>
      (.succeeded, (match d.direction with | .forward => .succeeded | .compensation => .compensated), saga.state)
    | .retryableKnownNotCommitted =>
      if c.exhausted then
        match d.direction with
        | .compensation => (.failedPermanent, step.state, .blockedCompensation)
        | .forward => (.failedPermanent, .failed, .failed)
      else (.retryWait, step.state, saga.state)
    | .permanentFailure =>
      match d.direction with
      | .forward => (.failedPermanent, .failed, saga.state)
      | .compensation => (.failedPermanent, step.state, .blockedCompensation)
    | .unknown =>
      if c.exhausted then (.blockedUnknown, step.state, blockedBy d.direction .blockedUnknown)
      else (.retryWait, step.state, saga.state)
    | .staleFence => (.blockedFence, step.state, .blockedFence)
    | .unset | .other _ => (d.state, step.state, saga.state)

/-- The dispatch after its lease's outcome. Only a retry sets the next attempt's time, and only a
success the result. -/
def completedDispatch (d : Dispatch) (c : Completion) (state : DispatchState) : Dispatch :=
  { d with
    state := state, lastOutcome := c.outcome, lastError := c.error, leaseOwner := [], leaseToken := []
    leaseDeadline := 0, revision := d.revision + 1, updatedAt := c.now
    nextAttemptAt := if state = .retryWait then c.nextAttemptAt else d.nextAttemptAt
    result := if state = .succeeded then c.result else d.result }

def completedStep (step : SagaStep) (d : Dispatch) (c : Completion) (state : StepState)
    (dispatchState : DispatchState) : SagaStep :=
  { step with
    state := state
    result := if dispatchState = .succeeded ∧ d.direction = .forward then c.result else step.result }

def completedAttempt (c : Completion) (a : DispatchAttempt) : DispatchAttempt :=
  { a with outcome := c.outcome, error := c.error, completedAt := c.now }

/-- Whether an earlier attempt leaves the outcome of the dispatch open. -/
def isPriorUnresolved (s : Store) (d : Dispatch) (c : Completion) : Bool :=
  terminalOutcomeMayMaskPriorUnknown c && !priorAttemptsKnownNotCommitted (s.attempts d.id) d.attempt

/-- `applyCompletion` and the record of the attempt. -/
def recordCompletion (s : Store) (d : Dispatch) (step : SagaStep) (saga : SagaInstance) (c : Completion) : Store :=
  let states := completionStates d step saga c (s.isPriorUnresolved d c)
  (((s.setDispatch (completedDispatch d c states.1)).setStep
    (completedStep step d c states.2.1 states.1)).setSaga (moved saga states.2.2 c.now)).setAttempts d.id
    (modifyLast (completedAttempt c) (s.attempts d.id))

/-- A forward failure that is known not to have committed starts compensation. -/
def startsCompensation (d : Dispatch) (c : Completion) (priorUnresolved : Bool) : Bool :=
  decide (d.direction = .forward) && !priorUnresolved &&
    decide (c.outcome = .permanentFailure ∨ (c.outcome = .retryableKnownNotCommitted ∧ c.exhausted = true))

/-- The store after an outcome: recorded, and followed by the compensation it calls for. -/
def settle (s : Store) (d : Dispatch) (step : SagaStep) (saga : SagaInstance) (c : Completion) : Store :=
  let priorUnresolved := s.isPriorUnresolved d c
  let saga' := moved saga (completionStates d step saga c priorUnresolved).2.2 c.now
  let recorded := s.recordCompletion d step saga c
  if startsCompensation d c priorUnresolved then recorded.startCompensation saga' c.now
  else if d.direction = .compensation ∧ c.outcome = .success then recorded.enqueueNextCompensation saga' c.now
  else recorded

/-- `CompleteDispatch`; the clock is read for an unset completion time and again for the lease. -/
def completeDispatch (s : Store) (ctx : Option Err) (readAt checkedAt : Time) (completion : Completion) :
    Except Err Unit × Store :=
  match ctx with
  | some err => (.error err, s)
  | none =>
    let c := { completion with now := if completion.now = 0 then readAt else completion.now }
    match validateCompletion c, s.dispatch? c.dispatchID with
    | .error err, _ => (.error err, s)
    | .ok (), none => (.error (.of .staleLease), s)
    | .ok (), some d =>
      if currentLeaseAt d c.attempt c.leaseToken checkedAt = false then (.error (.of .staleLease), s)
      else
        match s.saga? d.sagaID, s.step? d.sagaID d.effectID with
        | some saga, some step => (.ok (), s.settle d step saga c)
        | _, _ => (.error (.new "dispatch dependencies are missing"), s)

end

end Effectus.Store

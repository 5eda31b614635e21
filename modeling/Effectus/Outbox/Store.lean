import Effectus.Lib.Keyed
import Effectus.Outbox.Identity

/-!
The in-memory outbox: sagas, steps and dispatches under their keys, and the attempts made at each
dispatch. Lists stand for Go's maps in the order records were put in; nothing the operations return
depends on it. Every operation runs under the store's lock, so each is one function of the store,
and returns the store as the source leaves it on that path.
-/

namespace Effectus

structure Store where
  sagas : List SagaInstance
  steps : List SagaStep
  dispatches : List Dispatch
  attempts : Text → List DispatchAttempt

namespace Store

/-- `NewInMemoryOutboxStore`. -/
def empty : Store := ⟨[], [], [], fun _ => []⟩

def saga? (s : Store) (sagaID : Text) : Option SagaInstance := Keyed.get? (·.sagaID) s.sagas sagaID

def stepKey (step : SagaStep) : Text × Text := (step.sagaID, step.effectID)

def step? (s : Store) (sagaID effectID : Text) : Option SagaStep :=
  Keyed.get? stepKey s.steps (sagaID, effectID)

def dispatch? (s : Store) (id : Text) : Option Dispatch := Keyed.get? (·.id) s.dispatches id

/-- The steps of one saga. -/
def stepsOf (s : Store) (sagaID : Text) : List SagaStep := s.steps.filter fun step => step.sagaID = sagaID

def setSaga (s : Store) (saga : SagaInstance) : Store :=
  { s with sagas := Keyed.modify (·.sagaID) s.sagas saga.sagaID fun _ => saga }

def setStep (s : Store) (step : SagaStep) : Store :=
  { s with steps := Keyed.modify stepKey s.steps (stepKey step) fun _ => step }

def setDispatch (s : Store) (dispatch : Dispatch) : Store :=
  { s with dispatches := Keyed.modify (·.id) s.dispatches dispatch.id fun _ => dispatch }

def setAttempts (s : Store) (id : Text) (attempts : List DispatchAttempt) : Store :=
  { s with attempts := Function.update s.attempts id attempts }

end Store

/-- Rewrite the last entry, as `attempts[len(attempts)-1]` does. -/
def modifyLast {α : Type} (f : α → α) (xs : List α) : List α :=
  xs.dropLast ++ (xs.getLast?.map f).toList

def isTerminalSaga : SagaState → Bool
  | .completed | .compensated | .failed | .blockedUnknown | .blockedDependency | .blockedFence
  | .blockedCompensation => true
  | .running | .compensating => false

namespace Store

section

variable [Platform]

/-! ### Sagas and steps -/

def createSaga (s : Store) (ctx : Option Err) (now : Time) (request : CreateSagaRequest) :
    Except Err SagaInstance × Store :=
  match ctx, validateSagaRequest request, s.saga? request.sagaID with
  | some err, _, _ => (.error err, s)
  | none, .error err, _ => (.error err, s)
  | none, .ok (), some existing =>
    if existing.ns ≠ request.ns ∨ existing.executionID ≠ request.executionID ∨
        existing.planID ≠ request.planID ∨ existing.planDigest ≠ request.planDigest ∨
        existing.serial ≠ request.serial then
      (.error (.wrap .identityConflict (("saga " : Text) ++ request.sagaID)), s)
    else (.ok existing, s)
  | none, .ok (), none =>
    let saga : SagaInstance := {
      ns := request.ns, sagaID := request.sagaID, executionID := request.executionID
      planID := request.planID, planDigest := request.planDigest, state := .running
      serial := request.serial, revision := 1, createdAt := now, updatedAt := now }
    (.ok saga, { s with sagas := s.sagas ++ [saga] })

/-- `sameRequirements` is equality of the sorted lists. -/
def sameStep (step : SagaStep) (request : EnqueueStepRequest) (argumentHash compensationHash : Text) : Bool :=
  step.sequence = request.sequence && step.verb = request.verb && step.contractHash = request.contractHash &&
    step.argumentHash = argumentHash && step.compensationVerb = request.compensationVerb &&
    step.compensationContract = request.compensationContract &&
    step.compensationArgumentHash = compensationHash && step.fencing = request.fencing

def notFound (sagaID : Text) : Err := .new (("saga not found: " : Text) ++ sagaID)

/-- The step a checked request asks for. -/
def newStep (n : NormalizedStep) : SagaStep where
  sagaID := n.request.sagaID
  effectID := n.request.effectID
  sequence := n.request.sequence
  verb := n.request.verb
  contractHash := n.request.contractHash
  arguments := n.arguments
  argumentHash := n.argumentHash
  compensationVerb := n.request.compensationVerb
  compensationContract := n.request.compensationContract
  compensationArguments := n.compensationArguments
  compensationArgumentHash := n.compensationHash
  fencing := n.request.fencing
  state := .pending
  result := []

/-- The dispatch that carries a step forward. -/
def forwardDispatch (saga : SagaInstance) (step : SagaStep) (now : Time) : Dispatch where
  id := dispatchIDOf (idempotencyKey saga.ns saga.sagaID step.effectID .forward)
  sagaID := saga.sagaID
  effectID := step.effectID
  sequence := step.sequence
  direction := .forward
  verb := step.verb
  contractHash := step.contractHash
  arguments := step.arguments
  argumentHash := step.argumentHash
  idempotencyKey := idempotencyKey saga.ns saga.sagaID step.effectID .forward
  state := .queued
  attempt := 0
  leaseOwner := []
  leaseToken := []
  leaseDeadline := 0
  nextAttemptAt := 0
  fencing := step.fencing
  fencingGrants := []
  lastOutcome := .unset
  lastError := []
  result := []
  revision := 1
  createdAt := now
  updatedAt := now

/-- The store with a new step and its forward dispatch. -/
def addStep (s : Store) (saga : SagaInstance) (n : NormalizedStep) (now : Time) : Store :=
  { s with
    steps := s.steps ++ [newStep n]
    dispatches := s.dispatches ++ [forwardDispatch saga (newStep n) now] }.setSaga
    { saga with revision := saga.revision + 1, updatedAt := now }

/-- `EnqueueStep` once the request is checked. -/
def enqueueNormalized (s : Store) (now : Time) (n : NormalizedStep) : Except Err Dispatch × Store :=
  match s.saga? n.request.sagaID with
  | none => (.error (notFound n.request.sagaID), s)
  | some saga =>
    match s.dispatch? (dispatchIDOf (idempotencyKey saga.ns saga.sagaID n.request.effectID .forward)) with
    | some existing =>
      match s.step? n.request.sagaID n.request.effectID with
      | some step =>
        if sameStep step n.request n.argumentHash n.compensationHash then (.ok existing, s)
        else (.error (.wrap .identityConflict (("saga " : Text) ++ n.request.sagaID ++ (" effect " : Text) ++
          n.request.effectID)), s)
      | none => (.error (.wrap .identityConflict (("saga " : Text) ++ n.request.sagaID ++
          (" effect " : Text) ++ n.request.effectID)), s)
    | none =>
      if isTerminalSaga saga.state then
        (.error (.wrap .terminalSaga (("saga " : Text) ++ saga.sagaID ++ (" is " : Text) ++ saga.state.text)), s)
      else if saga.state ≠ .running then
        (.error (.wrap .invalidTransition (("cannot enqueue a forward step while saga " : Text) ++ saga.sagaID ++
          (" is " : Text) ++ saga.state.text)), s)
      else if n.request.sequence ≠ (s.stepsOf n.request.sagaID).length + 1 then
        (.error (.wrap .identityConflict (("saga " : Text) ++ n.request.sagaID ++ (" step sequence is " : Text) ++
          Text.ofInt n.request.sequence ++ (", want dense sequence " : Text) ++
          Text.ofInt ((s.stepsOf n.request.sagaID).length + 1))), s)
      else (.ok (forwardDispatch saga (newStep n) now), s.addStep saga n now)

def enqueueStep (s : Store) (ctx : Option Err) (now : Time) (request : EnqueueStepRequest) :
    Except Err Dispatch × Store :=
  match ctx, normalizeEnqueue request with
  | some err, _ => (.error err, s)
  | none, .error err => (.error err, s)
  | none, .ok n => s.enqueueNormalized now n

/-! ### Claims -/

/-- Whether a dispatch may be claimed at `now`, by its own state and its saga's. -/
def isEligible (s : Store) (options : ClaimOptions) (now : Time) (d : Dispatch) : Bool :=
  if options.targetDispatchID ≠ [] ∧ d.id ≠ options.targetDispatchID then false
  else
    match s.saga? d.sagaID with
    | none => false
    | some saga =>
      if isTerminalSaga saga.state then false
      else if saga.state = .compensating ∧ d.direction ≠ .compensation then false
      else if saga.state = .running ∧ d.direction ≠ .forward then false
      else
        match d.state with
        | .queued => true
        | .retryWait => decide (d.nextAttemptAt ≤ now)
        | .inFlight => decide (d.leaseDeadline ≤ now)
        | _ => false

/-- The order eligible dispatches are tried in: creation, saga, sequence, id. -/
def claimLess (a b : Dispatch) : Bool :=
  if a.createdAt ≠ b.createdAt then decide (a.createdAt < b.createdAt)
  else if a.sagaID ≠ b.sagaID then Text.lt a.sagaID b.sagaID
  else if a.sequence ≠ b.sequence then decide (a.sequence < b.sequence)
  else Text.lt a.id b.id

def hasOtherInFlight (s : Store) (sagaID dispatchID : Text) (now : Time) : Bool :=
  s.dispatches.any fun d => decide (d.id ≠ dispatchID ∧ d.sagaID = sagaID ∧ d.state = .inFlight ∧
    now < d.leaseDeadline)

def hasUnfinishedEarlierForward (s : Store) (candidate : Dispatch) : Bool :=
  if candidate.direction ≠ .forward then false
  else s.dispatches.any fun d => decide (d.sagaID = candidate.sagaID ∧ d.direction = .forward ∧
    d.sequence < candidate.sequence ∧ d.state ≠ .succeeded)

/-- A serial saga's dispatch waits for the others. An eligible dispatch has a saga. -/
def mustWait (s : Store) (now : Time) (d : Dispatch) : Bool :=
  match s.saga? d.sagaID with
  | none => true
  | some saga => saga.serial && (s.hasOtherInFlight d.sagaID d.id now || s.hasUnfinishedEarlierForward d)

/-- The dispatch a claim takes, if any. -/
def candidate? (s : Store) (options : ClaimOptions) (now : Time) : Option Dispatch :=
  ((s.dispatches.filter (s.isEligible options now)).insertionSort fun a b => claimLess b a = false).find? fun d =>
    !s.mustWait now d

/-- A dispatch under its new lease. -/
def leased (d : Dispatch) (options : ClaimOptions) (now : Time) (token : Text) : Dispatch :=
  { d with
    state := .inFlight, attempt := d.attempt + 1, leaseOwner := options.owner, leaseToken := token
    leaseDeadline := now + options.leaseDuration, fencingGrants := [], revision := d.revision + 1
    updatedAt := now }

/-- The record of a new attempt. -/
def newAttempt (d : Dispatch) (now : Time) : DispatchAttempt where
  dispatchID := d.id
  attempt := d.attempt
  leaseOwner := d.leaseOwner
  leaseToken := d.leaseToken
  leaseDeadline := d.leaseDeadline
  fencingGrants := []
  outcome := .unset
  error := []
  startedAt := now
  completedAt := 0

/-- The store with a dispatch under a new lease, and the attempt on record. -/
def claim (s : Store) (d : Dispatch) (options : ClaimOptions) (now : Time) (token : Text) : Store :=
  (s.setDispatch (leased d options now token)).setAttempts d.id
    (s.attempts d.id ++ [newAttempt (leased d options now token) now])

/-- `ClaimDispatch`; `token` is what `randomLeaseToken` returns. -/
def claimDispatch (s : Store) (ctx : Option Err) (clock : Time) (token : Except Err Text)
    (options : ClaimOptions) : Except Err Dispatch × Store :=
  match ctx with
  | some err => (.error err, s)
  | none =>
    if options.owner = [] ∨ options.leaseDuration ≤ 0 then
      (.error (.new "claim owner and positive lease duration are required"), s)
    else
      let now := if options.now = 0 then clock else options.now
      match s.candidate? options now, token with
      | none, _ => (.error (.of .noDispatch), s)
      | some _, .error err => (.error err, s)
      | some d, .ok token => (.ok (leased d options now token), s.claim d options now token)

/-! ### Leases -/

def currentLease (d : Dispatch) (attempt : Nat) (token : Text) : Bool :=
  decide (d.state = .inFlight ∧ d.attempt = attempt ∧ token ≠ [] ∧ d.leaseToken = token)

def currentLeaseAt (d : Dispatch) (attempt : Nat) (token : Text) (now : Time) : Bool :=
  currentLease d attempt token && decide (now < d.leaseDeadline)

/-- Grants are complete, unique and in canonical order. -/
def validateGrantsFrom : Option FencingGrant → Nat → List FencingGrant → Except Err Unit
  | _, _, [] => .ok ()
  | previous, index, grant :: rest =>
    if grant.authority = [] ∨ grant.resource = [] ∨ grant.token = 0 then
      .error (.new (("invalid fencing grant at index " : Text) ++ Text.ofInt index))
    else if previous.any fun p => Text.lt grant.authority p.authority ||
        (decide (p.authority = grant.authority) && !Text.lt p.resource grant.resource) then
      .error (.new "fencing grants must be unique and canonically ordered")
    else validateGrantsFrom (some grant) (index + 1) rest

def validateGrants (grants : List FencingGrant) : Except Err Unit := validateGrantsFrom none 0 grants

/-- The index of the first grant that is not for the requirement at its place. -/
def mismatchedGrant (requirements : List FencingRequirement) (grants : List FencingGrant) : Option Nat :=
  (requirements.zip grants).findIdx? fun (r, g) => decide (g.authority ≠ r.authority ∨ g.resource ≠ r.resource)

/-- The store with grants on a dispatch and on its last attempt. -/
def grant (s : Store) (d : Dispatch) (grants : List FencingGrant) (now : Time) : Store :=
  (s.setDispatch { d with fencingGrants := grants, revision := d.revision + 1, updatedAt := now }).setAttempts d.id
    (modifyLast (fun a => { a with fencingGrants := grants }) (s.attempts d.id))

/-- `SaveFencingGrants`; the clock is read for the lease and again for the update. -/
def saveFencingGrants (s : Store) (ctx : Option Err) (checkedAt updatedAt : Time) (dispatchID : Text)
    (attempt : Nat) (leaseToken : Text) (grants : List FencingGrant) : Except Err Unit × Store :=
  match ctx, validateGrants grants, s.dispatch? dispatchID with
  | some err, _, _ => (.error err, s)
  | none, .error err, _ => (.error err, s)
  | none, .ok (), none => (.error (.of .staleLease), s)
  | none, .ok (), some d =>
    if currentLeaseAt d attempt leaseToken checkedAt = false then (.error (.of .staleLease), s)
    else if d.fencing.length ≠ grants.length then
      (.error (.new "fencing grant count does not match dispatch requirements"), s)
    else
      match mismatchedGrant d.fencing grants with
      | some index =>
        (.error (.new (("fencing grant " : Text) ++ Text.ofInt index ++
          (" does not match dispatch requirement" : Text))), s)
      | none =>
        if d.fencingGrants ≠ [] ∧ d.fencingGrants ≠ grants then
          (.error (.wrap .identityConflict "fencing grants already persisted"), s)
        else (.ok (), s.grant d grants updatedAt)

end

end Store

end Effectus

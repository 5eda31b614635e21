import Effectus.Runtime.World

/-!
The dispatcher: it claims an intent, takes the fences the intent asks for, stores their grants, invokes the executor and
stores what came of it.
-/

namespace Effectus

structure DispatcherOptions where
  owner : Text
  requestID : Text
  leaseDuration : Int
  invocationTimeout : Int
  maxAttempts : Nat
  initialBackoff : Int
  maxBackoff : Int
  requireDurableFencing : Bool
  deriving DecidableEq

namespace DispatcherOptions

def second : Int := 1000000000

def minute : Int := 60 * second

/-- The lease, the timeout under it and the number of attempts, with their defaults. -/
def withLease (options : DispatcherOptions) : DispatcherOptions :=
  let lease := if options.leaseDuration = 0 then 30 * second else options.leaseDuration
  { options with
    leaseDuration := lease
    invocationTimeout := if options.invocationTimeout = 0 then lease - lease.tdiv 4 else options.invocationTimeout
    maxAttempts := if options.maxAttempts = 0 then 8 else options.maxAttempts }

/-- The backoffs with their defaults: an initial one that is not set is no longer than the maximum. -/
def withBackoff (options : DispatcherOptions) : DispatcherOptions :=
  let maxBackoff := if options.maxBackoff ≤ 0 then minute else options.maxBackoff
  { options with
    maxBackoff := maxBackoff
    initialBackoff := if options.initialBackoff ≤ 0 then min second maxBackoff else options.initialBackoff }

/-- The checks of `NewDispatcher` on its options, for a provider of this guarantee or for none. -/
def validated (options : DispatcherOptions) (provider : Option FencingGuarantee) : Except Err DispatcherOptions :=
  if options.owner = [] then .error (.new "dispatcher owner is required")
  else if options.leaseDuration < 0 ∨ options.invocationTimeout < 0 ∨ options.initialBackoff < 0 ∨
      options.maxBackoff < 0 then
    .error (.new "dispatcher durations must not be negative")
  else
    let leased := options.withLease
    if leased.leaseDuration ≤ leased.invocationTimeout then
      .error (.new "invocation timeout must be shorter than the dispatch lease")
    else if leased.invocationTimeout ≤ 0 then .error (.new "dispatcher lease duration is too short")
    else
      let full := leased.withBackoff
      if full.maxBackoff < full.initialBackoff then
        .error (.new "initial backoff must not exceed maximum backoff")
      else if full.requireDurableFencing ∧ provider ≠ some .durableMonotonic then
        .error (.new "durable fencing is required but the provider is not durable_monotonic")
      else .ok full

end DispatcherOptions

/-! ### Backoff -/

/-- The seed of the jitter. A key is hexadecimal, so its runes are its bytes. -/
def backoffSeed (d : Dispatch) : UInt64 :=
  (d.idempotencyKey.foldl (fun seed b => seed * 33 + b.toUInt64) 0) + UInt64.ofNat d.attempt * 0x9e3779b97f4a7c15

/-- `time.Duration(f)` for a float in range. -/
def Float64.truncate (f : Float64) : Int := f.toRat.num.tdiv f.toRat.den

/-- How long the next attempt waits: doubled at each attempt up to the maximum, times a jitter that depends on the
dispatch and the attempt alone. -/
def DispatcherOptions.backoff (options : DispatcherOptions) (d : Dispatch) : Int :=
  let most := Float64.ofInt options.maxBackoff
  let doubled := (Float64.ofInt options.initialBackoff).mul (.ofRat false (2 ^ (d.attempt - 1)))
  let capped := if most.lt doubled then most else doubled
  let jitter := (Float64.ofRat false (3 / 4)).add
    ((Float64.ofInt ((backoffSeed d).toNat % 5000)).div (.ofInt 10000))
  let value := capped.mul jitter
  if most.le value then options.maxBackoff else value.truncate

/-! ### Outcomes -/

def validateOutcome (outcome : InvocationOutcome) : Except Err Unit :=
  match outcome.outcomeClass with
  | .success => if outcome.err.isSome then .error (.new "successful invocation has an error") else .ok ()
  | .retryableKnownNotCommitted | .permanentFailure | .unknown | .staleFence =>
    if outcome.err.isNone then
      .error (.new (("invocation outcome " : Text) ++ outcome.outcomeClass.text ++ (" requires an error" : Text)))
    else .ok ()
  | .unset | .other _ =>
    .error (.new (("unknown invocation outcome class " : Text) ++ Text.quote outcome.outcomeClass.text))

/-- A text decoded into a map of arguments; null is the nil map. -/
def decodeArguments (text : Text) : Option (Option FactMap) :=
  match Json.decode text with
  | some (.obj members) => some (some (GoValue.ofJsonMembers members))
  | some .null => some none
  | _ => none

/-! ### Dispatching -/

section

variable [Platform] [FencingProvider]

/-- An executor is a program; one that does not say when an unknown outcome may be tried again has no policy. -/
structure Dispatcher where
  options : DispatcherOptions
  hasProvider : Bool
  invoke : InvocationRequest → Act InvocationOutcome
  retryUnknownOutcome : Option (InvocationRequest → Bool)

/-- `NewDispatcher`, of a store and an executor. -/
def newDispatcher (hasProvider : Bool) (invoke : InvocationRequest → Act InvocationOutcome)
    (retryUnknownOutcome : Option (InvocationRequest → Bool)) (options : DispatcherOptions) : Except Err Dispatcher :=
  (options.validated (if hasProvider then some FencingProvider.guarantee else none)).map fun options =>
    ⟨options, hasProvider, invoke, retryUnknownOutcome⟩

/-- What `Dispatch` returns: a dispatch or nil, and an error or nil. -/
abbrev Dispatched := Option Dispatch × Option Err

namespace Dispatcher

/-- Release from the last to the first. -/
def releaseFences : List FencingProvider.Lease → Act Unit
  | [] => return ()
  | lease :: rest => do
    releaseFences rest
    let _ ← act (.releaseFence true lease)
    return ()

/-- Take one fence after another; those taken are released when one is not to be had. -/
def acquireEach (d : Dispatcher) (holder : Text) :
    List FencingRequirement → List FencingProvider.Lease → Act (Except Err (List FencingProvider.Lease))
  | [], leases => return .ok leases
  | requirement :: rest, leases => do
    match ← act (.acquireFence ⟨requirement.authority, requirement.resource, holder, d.options.leaseDuration⟩) with
    | .error err =>
      releaseFences leases
      return .error err
    | .ok lease => d.acquireEach holder rest (leases ++ [lease])

/-- The name a dispatch holds its fences under. -/
def holder (dispatch : Dispatch) : Text :=
  dispatch.id ++ ("/" : Text) ++ Text.ofInt dispatch.attempt ++ ("/" : Text) ++ dispatch.leaseToken

def acquireFences (d : Dispatcher) (dispatch : Dispatch) : Act (Except Err (List FencingProvider.Lease)) :=
  if dispatch.fencing = [] then return .ok []
  else if d.hasProvider = false then
    return .error (.new "dispatch requires fencing but no provider is configured")
  else if d.options.requireDurableFencing ∧ FencingProvider.guarantee ≠ .durableMonotonic then
    return .error (.new "dispatch requires durable fencing")
  else d.acquireEach (holder dispatch) (dispatch.fencing.insertionSort fun a b => requirementLE a b = true) []

/-- A completion of this attempt, with nothing but its class. -/
def completionOf (dispatch : Dispatch) (outcome : OutcomeClass) (now : Time) : Completion where
  dispatchID := dispatch.id
  attempt := dispatch.attempt
  leaseToken := dispatch.leaseToken
  outcome := outcome
  result := []
  error := []
  nextAttemptAt := 0
  exhausted := false
  now := now

/-- The time of the next attempt, unless there is none. -/
def withRetry (d : Dispatcher) (dispatch : Dispatch) (exhausted : Bool) (c : Completion) : Completion :=
  { c with
    exhausted := exhausted
    nextAttemptAt := if exhausted then 0 else c.now + d.options.backoff dispatch }

/-- Store a completion and read the dispatch again. -/
def finish (dispatch : Dispatch) (c : Completion) : Act Dispatched := do
  match ← act (.completeDispatch c) with
  | .error err => return (some dispatch, some err)
  | .ok () =>
    match ← act (.getDispatch dispatch.id) with
    | .error err => return (none, some err)
    | .ok current => return (some current, none)

/-- The error of an operation, if any. -/
def failureOf {α : Type} : Except Err α → Option Err
  | .error err => some err
  | .ok _ => none

/-- A claim past the last attempt is completed without a call. -/
def completeExhaustedClaim (d : Dispatcher) (dispatch : Dispatch) : Act Dispatched := do
  match ← act (.listAttempts dispatch.id) with
  | .error err => return (some dispatch, some err)
  | .ok attempts =>
    let known := Store.priorAttemptsKnownNotCommitted attempts dispatch.attempt
    let budget := ("retry budget " : Text) ++ Text.ofInt d.options.maxAttempts
    let now ← act .clock
    finish dispatch { completionOf dispatch (if known then .retryableKnownNotCommitted else .unknown) now with
      error := budget ++ (if known then (" exhausted before invocation after known non-commit" : Text)
        else (" exhausted before invocation; prior effect remains uncertain" : Text))
      exhausted := true }

/-- An outcome without a retry contract is unknown and final. -/
def completeUnknown (dispatch : Dispatch) (cause : Err) : Act Dispatched := do
  let now ← act .clock
  let completed ← act (.completeDispatch { completionOf dispatch .unknown now with
    error := cause.text, exhausted := true })
  return (some dispatch, some (cause.join [failureOf completed]))

/-- Without its fences a dispatch is known not to have been called. -/
def completeUnfenced (d : Dispatcher) (dispatch : Dispatch) (err : Err) : Act Dispatched := do
  let now ← act .clock
  let completed ← act (.completeDispatch (d.withRetry dispatch (decide (d.options.maxAttempts ≤ dispatch.attempt))
    { completionOf dispatch .retryableKnownNotCommitted now with error := err.text }))
  return (some dispatch, some (err.join [failureOf completed]))

/-- Store an outcome. -/
def completeOutcome (d : Dispatcher) (dispatch : Dispatch) (request : InvocationRequest) (outcome : InvocationOutcome) :
    Act Dispatched :=
  match validateOutcome outcome with
  | .error err => completeUnknown dispatch (err.under "invalid invocation outcome")
  | .ok () => do
    let now ← act .clock
    let c := { completionOf dispatch outcome.outcomeClass now with error := (outcome.err.map (·.text)).getD [] }
    if outcome.outcomeClass = .success then
      match canonicalJSON outcome.result with
      | .error err => completeUnknown dispatch (err.under "successful result is not serializable")
      | .ok (result, _) => finish dispatch { c with result := result }
    else if outcome.outcomeClass = .retryableKnownNotCommitted ∨ outcome.outcomeClass = .unknown then
      let allowed := outcome.outcomeClass ≠ .unknown ∨ (d.retryUnknownOutcome.any fun policy => policy request) = true
      finish dispatch (d.withRetry dispatch (decide (d.options.maxAttempts ≤ dispatch.attempt) || !decide allowed) c)
    else finish dispatch c

/-- What the executor is called with. -/
def requestFor (d : Dispatcher) (dispatch : Dispatch) (saga : SagaInstance) (grants : List FencingGrant)
    (arguments : Option FactMap) (deadline : Time) : InvocationRequest where
  requestID := d.options.requestID
  executionID := saga.executionID
  sagaID := dispatch.sagaID
  effectID := dispatch.effectID
  attempt := dispatch.attempt
  direction := dispatch.direction
  idempotencyKey := dispatch.idempotencyKey
  fencingGrants := grants
  deadline := deadline
  verb := dispatch.verb
  arguments := arguments
  argumentHash := dispatch.argumentHash
  contractHash := dispatch.contractHash

/-- The call, if enough of the lease is left. -/
def invokeBefore (d : Dispatcher) (leaseDeadline : Time) (dispatch : Dispatch) (grants : List FencingGrant)
    (arguments : Option FactMap) (saga : SagaInstance) : Act Dispatched := do
  let now ← act .clock
  let deadline := min (now + d.options.invocationTimeout) (leaseDeadline - d.options.leaseDuration.tdiv 10)
  if deadline ≤ now then
    return (some dispatch, some (.new "dispatch lease has insufficient time for external invocation"))
  else
    match ← act .ctxErr with
    | some err => return (some dispatch, some err)
    | none =>
      let request := d.requestFor dispatch saga grants arguments deadline
      let outcome ← d.invoke request
      d.completeOutcome dispatch request outcome

/-- What is done while the fences are held. -/
def underFences (d : Dispatcher) (leaseDeadline : Time) (dispatch : Dispatch) (grants : List FencingGrant) :
    Act Dispatched := do
  match ← act (.saveFencingGrants dispatch.id dispatch.attempt dispatch.leaseToken grants) with
  | .error err => return (some dispatch, some err)
  | .ok () =>
    let dispatch := { dispatch with fencingGrants := grants }
    match decodeArguments dispatch.arguments with
    | none => completeUnknown dispatch (.new "decode persisted arguments")
    | some arguments =>
      match ← act (.getSaga dispatch.sagaID) with
      | .error err => return (some dispatch, some err)
      | .ok saga => d.invokeBefore leaseDeadline dispatch grants arguments saga

/-- `Dispatch`. -/
def dispatch (d : Dispatcher) (target : Text) : Act Dispatched := do
  let started ← act .clock
  match ← act (.claimDispatch ⟨d.options.owner, d.options.leaseDuration, 0, target⟩) with
  | .error err => return (none, some err)
  | .ok dispatch =>
    if d.options.maxAttempts < dispatch.attempt then d.completeExhaustedClaim dispatch
    else
      match ← d.acquireFences dispatch with
      | .error err => d.completeUnfenced dispatch err
      | .ok leases =>
        let result ← d.underFences (started + d.options.leaseDuration) dispatch (leases.map FencingProvider.grant)
        releaseFences leases
        return result

end Dispatcher

end

end Effectus

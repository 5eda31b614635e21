import Effectus.Runtime.Dispatcher

/-!
What a checked plan gives the dispatcher of its steps: the contract an inverse was frozen with, the options its retry
policies select, and an executor that invokes only what the generation and the plan allow.
-/

namespace Effectus

namespace Generation

variable [Platform]

/-- `checkedCompensationContract`: the inverse contract of the first step that froze this verb and hash, if the
generation's own copy of it still has that hash. -/
def checkedCompensationContract (g : Generation) (planID effectID verb hash : Text) : Option VerbContract :=
  if planID = [] then none
  else
    let steps := (g.plans.filter fun plan => plan.id = planID).flatMap Plan.steps
    match steps.find? fun step => step.id = effectID ∧ step.compensation = some ⟨verb, hash⟩ with
    | none => none
    | some _ =>
      match g.environment.verbs.get? verb with
      | none => none
      | some contract =>
        match contractHash contract with
        | .error _ => none
        | .ok actual => if actual = hash then some contract else none

/-- Whether the first plan of this ID undoes what it did. -/
def isCompensating (g : Generation) (planID : Text) : Bool :=
  (g.plans.find? fun plan => plan.id = planID).any fun plan => decide (plan.executionPolicy = .durableCompensating)

end Generation

/-! ### Dispatcher options -/

/-- `time.Duration(n) * time.Millisecond`, in 64 bits. -/
def millis (n : UInt64) : Int := ((n.toNat : Int).bmod (2 ^ 64) * 1000000).bmod (2 ^ 64)

/-- The options a step's frozen retry policy selects. -/
def DispatcherOptions.forStep (options : DispatcherOptions) (step : Step) : DispatcherOptions :=
  match step.retryPolicy with
  | none => options
  | some policy =>
    { options with
      maxAttempts := policy.maxAttempts.toNat, initialBackoff := millis policy.initialBackoffMillis
      maxBackoff := millis policy.maxBackoffMillis }

/-- The options an inverse contract selects. -/
def DispatcherOptions.forInverse (options : DispatcherOptions) (contract : VerbContract) : DispatcherOptions :=
  { options with
    maxAttempts := if contract.retryPolicy.maxAttempts = 0 then 1 else contract.retryPolicy.maxAttempts.toNat
    initialBackoff := millis contract.retryPolicy.initialBackoffMillis
    maxBackoff := millis contract.retryPolicy.maxBackoffMillis }

section

variable [Platform] [FencingProvider]

/-! ### Invoking -/

/-- An outcome that settles the call for good. -/
def permanentFailure (err : Err) : InvocationOutcome := ⟨.permanentFailure, .nil, some err⟩

/-- `checkedWorkflowInvocationExecutor.Invoke`: the saga must belong to the generation, the plan and its policy. -/
def checkedInvoke (g : Generation) (planID : Text) (request : InvocationRequest) : Act InvocationOutcome := do
  match ← act (.getSaga request.sagaID) with
  | .error err => return ⟨.unknown, .nil, some err⟩
  | .ok saga =>
    if saga.planDigest ≠ g.checked.digest then return permanentFailure (.of .identityConflict)
    else if planID ≠ [] ∧ saga.planID ≠ planID then return permanentFailure (.of .identityConflict)
    else if request.direction = .compensation ∧ g.isCompensating saga.planID = false then
      return permanentFailure (.wrap .invalidTransition
        (("compensation is not enabled for checked plan " : Text) ++ Text.quote saga.planID))
    else if g.executors.contains request.verb = false then
      return permanentFailure (.new (("verb " : Text) ++ Text.quote request.verb ++ (" is unavailable" : Text)))
    else act (.invoke request)

end

end Effectus

import Effectus.IR.Check
import Effectus.Runtime.Evaluate

/-!
The first step of a plan as admission stores it: its arguments, resolved from the facts, and the request that enqueues it.
-/

namespace Effectus

/-- A step that must be fenced asks for a grant on its verb. -/
def checkedFencing (step : Step) : List FencingRequirement := [⟨"checked-contract", step.verb⟩]

/-- The request for a step with its resolved arguments, and the inverse its plan calls for. -/
def stepRequest (sagaID : Text) (sequence : Int) (step : Step) (arguments : FactMap)
    (compensation : Option CompensationContract) (fencing : List FencingRequirement) : EnqueueStepRequest where
  sagaID := sagaID
  effectID := step.id
  sequence := sequence
  verb := step.verb
  contractHash := step.contractHash
  arguments := some arguments
  compensationVerb := (compensation.map (·.inverseVerb)).getD []
  compensationContract := (compensation.map (·.inverseContractHash)).getD []
  compensationArguments := compensation.map fun _ => arguments
  fencing := fencing

/-! ### First steps -/

/-- `resolveCheckedWorkflowValue` without result slots, as the first step of a plan has them. -/
def resolveCheckedWorkflowValue (facts : FactMap) : ArgumentValue → Except Err GoValue
  | .absent => .error (.new "value is nil")
  | .unset => .error (.new "value kind is not set")
  | .literal value => (checkedLiteralValue value).mapError EvalError.err
  | .factPath path =>
    match lookupWorkflowFact facts path with
    | some value => .ok value
    | none => .error (EvalError.missingFact path).err
  | .resultSlot slot => .error (.new (("result slot " : Text) ++ Text.ofInt slot.toNat ++ (" is unavailable" : Text)))

def resolveInitialArguments (plan : Plan) (facts : FactMap) (resolved : FactMap) : List Argument → Except Err FactMap
  | [] => .ok resolved
  | argument :: rest =>
    match resolveCheckedWorkflowValue facts argument.value with
    | .error err => .error (err.under (("resolve plan " : Text) ++ Text.quote plan.id ++
        (" first step argument " : Text) ++ Text.quote argument.name))
    | .ok value => resolveInitialArguments plan facts (Assoc.set resolved argument.name value) rest

/-- The first step of a plan as admission stores it. -/
def durableInitialStep (plan : Plan) (step : Step) (facts : FactMap) (sagaID : Text) : Except Err EnqueueStepRequest :=
  match resolveInitialArguments plan facts [] step.arguments with
  | .error err => .error err
  | .ok arguments =>
    .ok (stepRequest sagaID 1 step arguments
      (if plan.executionPolicy = .durableCompensating then step.compensation else none)
      (if step.fencingRequirement = .required then checkedFencing step else []))

end Effectus

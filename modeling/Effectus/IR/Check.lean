import Effectus.IR.Environment

/-!
Checking an artifact against an environment. The checker counts what it has seen in a state that every
check passes on; an accepted artifact comes back with the policies its verbs declare filled in.
-/

namespace Effectus

/-- Zero selects the default; negative is invalid. -/
structure Limits where
  maxArtifactBytes : Int
  maxPlans : Int
  maxSteps : Int
  maxStepsPerPlan : Int
  maxArgumentsPerStep : Int
  maxPredicateNodes : Int
  maxLiteralNodes : Int
  maxDepth : Int
  maxStringBytes : Int
  maxBytesValue : Int
  maxCollectionItems : Int
  maxObjectFields : Int
  maxTotalStringBytes : Int

/-- `ir.Limits{}`: every limit is the default. -/
def Limits.zero : Limits := ⟨0, 0, 0, 0, 0, 0, 0, 0, 0, 0, 0, 0, 0⟩

def validationDefaults : Limits where
  maxArtifactBytes := 4 * 2 ^ 20
  maxPlans := 1000
  maxSteps := 10000
  maxStepsPerPlan := 1000
  maxArgumentsPerStep := 128
  maxPredicateNodes := 1024
  maxLiteralNodes := 10000
  maxDepth := 64
  maxStringBytes := 2 ^ 20
  maxBytesValue := 2 ^ 20
  maxCollectionItems := 10000
  maxObjectFields := 1024
  maxTotalStringBytes := 4 * 2 ^ 20

def invalid (message : Text) : Err := .wrap .invalidArtifact message

def contextualInvalid (location : Text) (err : Err) : Err :=
  ⟨.invalidArtifact :: err.sentinels,
    Sentinel.invalidArtifact.text ++ (": " : Text) ++ location ++ (": " : Text) ++ err.text⟩

def limitError (name : Text) (actual limit : Int) : Err :=
  .wrap .limitExceeded (name ++ (" is " : Text) ++ Text.ofInt actual ++ (", limit is " : Text) ++ Text.ofInt limit)

def limitOrDefault (name : Text) (limit default : Int) : Except Err Int :=
  if limit < 0 then .error (invalid (("limit " : Text) ++ name ++ (" must not be negative" : Text)))
  else .ok (if limit = 0 then default else limit)

def Limits.withDefaults (limits : Limits) : Except Err Limits := do
  let defaults := validationDefaults
  return {
    maxArtifactBytes := ← limitOrDefault "MaxArtifactBytes" limits.maxArtifactBytes defaults.maxArtifactBytes
    maxPlans := ← limitOrDefault "MaxPlans" limits.maxPlans defaults.maxPlans
    maxSteps := ← limitOrDefault "MaxSteps" limits.maxSteps defaults.maxSteps
    maxStepsPerPlan := ← limitOrDefault "MaxStepsPerPlan" limits.maxStepsPerPlan defaults.maxStepsPerPlan
    maxArgumentsPerStep := ← limitOrDefault "MaxArgumentsPerStep" limits.maxArgumentsPerStep defaults.maxArgumentsPerStep
    maxPredicateNodes := ← limitOrDefault "MaxPredicateNodes" limits.maxPredicateNodes defaults.maxPredicateNodes
    maxLiteralNodes := ← limitOrDefault "MaxLiteralNodes" limits.maxLiteralNodes defaults.maxLiteralNodes
    maxDepth := ← limitOrDefault "MaxDepth" limits.maxDepth defaults.maxDepth
    maxStringBytes := ← limitOrDefault "MaxStringBytes" limits.maxStringBytes defaults.maxStringBytes
    maxBytesValue := ← limitOrDefault "MaxBytesValue" limits.maxBytesValue defaults.maxBytesValue
    maxCollectionItems := ← limitOrDefault "MaxCollectionItems" limits.maxCollectionItems defaults.maxCollectionItems
    maxObjectFields := ← limitOrDefault "MaxObjectFields" limits.maxObjectFields defaults.maxObjectFields
    maxTotalStringBytes := ← limitOrDefault "MaxTotalStringBytes" limits.maxTotalStringBytes defaults.maxTotalStringBytes }

/-- What the checker has counted so far; `predicateNodes` counts within one plan. -/
structure CheckState where
  planIDs : List Text := []
  stepIDs : List Text := []
  sourceOrders : List (SourceDialect × UInt32) := []
  stepCount : Nat := 0
  literalNodes : Nat := 0
  stringBytes : Nat := 0
  predicateNodes : Nat := 0

/-- A check may fail, and passes its counts on. -/
abbrev Check := StateT CheckState (Except Err)

/-- What an `artifactChecker` is made with: the normalized environment and the limits. -/
structure Checker where
  env : Environment
  limits : Limits

namespace Checker

/-- Fail unless a count is within its limit. -/
def within (name : Text) (actual limit : Int) : Check Unit :=
  if limit < actual then throw (limitError name actual limit) else return ()

def text (c : Checker) (location value : Text) (required : Bool) : Check Unit := do
  if required ∧ Text.trimSpace value = [] then throw (invalid (location ++ (" is empty" : Text)))
  if required ∧ value ≠ Text.trimSpace value then
    throw (invalid (location ++ (" has leading or trailing whitespace" : Text)))
  if Text.validUTF8 value = false then throw (invalid (location ++ (" is not valid UTF-8" : Text)))
  within (location ++ (" bytes" : Text)) value.length c.limits.maxStringBytes
  modify fun s => { s with stringBytes := s.stringBytes + value.length }
  within "total string bytes" (← get).stringBytes c.limits.maxTotalStringBytes

/-! ### Literals -/

/-- Names in strictly increasing order. -/
def isNameOrdered (previous : Option Text) (name : Text) : Bool :=
  match previous with
  | none => true
  | some previous => Text.lt previous name

/-- One literal more, at this depth. -/
def enterLiteral (c : Checker) (depth : Nat) : Check Unit := do
  within "literal depth" depth c.limits.maxDepth
  modify fun s => { s with literalNodes := s.literalNodes + 1 }
  within "literal nodes" (← get).literalNodes c.limits.maxLiteralNodes

mutual

def checkLiteralStructure (c : Checker) (depth : Nat) : Literal → Check Unit
  | .absent => throw (.new "literal is nil")
  | .unset => do
    c.enterLiteral depth
    throw (.new "literal kind is not set")
  | .null value => do
    c.enterLiteral depth
    if value ≠ .null then throw (.new "null enum is unspecified")
  | .bool _ | .int _ => c.enterLiteral depth
  | .double f => do
    c.enterLiteral depth
    if f.isFinite = false then throw (.new "double must be finite")
  | .string s => do
    c.enterLiteral depth
    c.text "literal string" s false
  | .bytes b => do
    c.enterLiteral depth
    within "literal bytes" b.length c.limits.maxBytesValue
  | .list values => do
    c.enterLiteral depth
    within "list items" values.length c.limits.maxCollectionItems
    c.checkLiteralItems (depth + 1) values
  | .object fields => do
    c.enterLiteral depth
    within "object fields" fields.length c.limits.maxObjectFields
    c.checkLiteralFields (depth + 1) none fields

def checkLiteralItems (c : Checker) (depth : Nat) : List Literal → Check Unit
  | [] => return ()
  | value :: rest => do
    c.checkLiteralStructure depth value
    c.checkLiteralItems depth rest

def checkLiteralFields (c : Checker) (depth : Nat) (previous : Option Text) : List (Text × Literal) → Check Unit
  | [] => return ()
  | (name, value) :: rest => do
    c.text "object field name" name true
    if isNameOrdered previous name = false then throw (.new "object fields are not uniquely ordered by name")
    c.checkLiteralStructure depth value
    c.checkLiteralFields depth (some name) rest

end

/-! ### Predicates -/

def typeBoolIf (holds : Bool) (message : Text) : Except Err TypeRef :=
  if holds then .ok .bool else .error (.new message)

/-- The switch of `checkBinary`, on the types of the operands. -/
def binaryType (env : Environment) (operator : BinaryOperator) (left right : TypeRef) : Except Err TypeRef :=
  let compatible := env.assignable left right || env.assignable right left
  match operator with
  | .equal | .notEqual => typeBoolIf compatible "equality operands are incompatible"
  | .greater | .greaterEqual | .less | .lessEqual =>
    typeBoolIf (compatible && ((left.isNumeric && right.isNumeric) || decide (left.kind = .string ∧ right.kind = .string)))
      "comparison operands must be compatible numbers or strings"
  | .and | .or => typeBoolIf (decide (left.kind = .bool ∧ right.kind = .bool)) "logical operands must be bool"
  | .isIn =>
    match env.resolve right with
    | .ok (.list _ element) => typeBoolIf (env.assignable left element) "in requires a value and a compatible list"
    | _ => .error (.new "in requires a value and a compatible list")
  | .contains =>
    match env.resolve left with
    | .error err => .error err
    | .ok resolved =>
      let listed := match resolved with
        | .list _ element => env.assignable right element
        | _ => false
      typeBoolIf (decide (resolved.kind = .string ∧ right.kind = .string) || listed)
        "contains requires string/string or list/element operands"
  | .add | .subtract | .multiply | .divide | .modulo =>
    if operator = .add ∧ left.kind = .string ∧ right.kind = .string then .ok .string
    else if (left.isNumeric && right.isNumeric) = false then .error (.new "arithmetic operands must be numeric")
    else if operator = .modulo ∧ (left.kind ≠ .int ∨ right.kind ≠ .int) then .error (.new "modulo operands must be int")
    else if left.kind = .float ∨ right.kind = .float ∨ operator = .divide then .ok .float
    else .ok .int
  | .matches | .startsWith | .endsWith =>
    typeBoolIf (decide (left.kind = .string ∧ right.kind = .string)) "string operator operands must be string"
  | .unspecified => .error (.new "invalid binary operator 0")
  | .other n => .error (.new (("invalid binary operator " : Text) ++ Text.ofInt n))

/-- The switch over a unary operator. -/
def unaryType (operator : UnaryOperator) (operand : TypeRef) : Except Err TypeRef :=
  match operator with
  | .not => typeBoolIf (decide (operand.kind = .bool)) "not operand must be bool"
  | .negate => if operand.isNumeric then .ok operand else .error (.new "negate operand must be numeric")
  | .unspecified => .error (.new "invalid unary operator 0")
  | .other n => .error (.new (("invalid unary operator " : Text) ++ Text.ofInt n))

/-- One expression more, at this depth. -/
def enterExpression (c : Checker) (depth : Nat) : Check Unit := do
  within "predicate depth" depth c.limits.maxDepth
  modify fun s => { s with predicateNodes := s.predicateNodes + 1 }
  within "predicate nodes" (← get).predicateNodes c.limits.maxPredicateNodes

/-- The function a call names, if it may be called with so many arguments. -/
def calledFunction (c : Checker) (function : Text) (arguments : Nat) : Check FunctionContract := do
  c.text "predicate function" function true
  match c.env.functions.get? function with
  | none => throw (.new (("unknown function " : Text) ++ Text.quote function))
  | some contract =>
    if contract.pure = false ∨ contract.total = false then
      throw (.new (("function " : Text) ++ Text.quote function ++ (" is not declared pure and total" : Text)))
    if arguments ≠ contract.argumentTypes.length then
      throw (.new (("function " : Text) ++ Text.quote function ++ (" has " : Text) ++ Text.ofInt arguments ++
        (" arguments, want " : Text) ++ Text.ofInt contract.argumentTypes.length))
    return contract

mutual

def checkExpression (c : Checker) (depth : Nat) : Expression → Check TypeRef
  | .absent => throw (.new "expression is nil")
  | .unset => do
    c.enterExpression depth
    throw (.new "expression kind is not set")
  | .literal value => do
    c.enterExpression depth
    c.checkLiteralStructure depth value
    c.env.literalType (65 - depth) value
  | .factPath path => do
    c.enterExpression depth
    c.text "predicate fact_path" path true
    match c.env.facts.get? path with
    | none => throw (.new (("unknown fact " : Text) ++ Text.quote path))
    | some typeName => c.env.parse typeName false
  | .unary operator operand => do
    c.enterExpression depth
    let operand ← c.checkExpression (depth + 1) operand
    unaryType operator operand
  | .binary operator left right => do
    c.enterExpression depth
    let left ← c.checkExpression (depth + 1) left
    let right ← c.checkExpression (depth + 1) right
    binaryType c.env operator left right
  | .call function arguments => do
    c.enterExpression depth
    let contract ← c.calledFunction function arguments.length
    c.checkArguments (depth + 1) function contract.argumentTypes 0 arguments
    c.env.parse contract.returnType false

/-- The arguments of a call against the types declared for them; there are as many of each. -/
def checkArguments (c : Checker) (depth : Nat) (function : Text) (types : List Text) (index : Nat) :
    List Expression → Check Unit
  | [] => return ()
  | argument :: rest => do
    let actual ← c.checkExpression depth argument
    let typeName := types.getD index []
    let assignable := match c.env.parse typeName false with
      | .ok expected => c.env.assignable actual expected
      | .error _ => false
    if assignable = false then
      throw (.new (("function " : Text) ++ Text.quote function ++ (" argument " : Text) ++ Text.ofInt index ++
        (" is incompatible with " : Text) ++ typeName))
    c.checkArguments depth function types (index + 1) rest

end

/-! ### Steps -/

def checkValue (c : Checker) (value : ArgumentValue) (expected : TypeRef) (slots : List TypeRef) (location : Text) :
    Check Unit :=
  match value with
  | .absent => throw (invalid (location ++ (" value is nil" : Text)))
  | .unset => throw (invalid (location ++ (" value kind is not set" : Text)))
  | .literal literal => do
    tryCatch (c.checkLiteralStructure 1 literal) fun err => throw (contextualInvalid (location ++ (" literal" : Text)) err)
    match c.env.literalAssignable literal expected with
    | .error err => throw (invalid (location ++ (": " : Text) ++ err.text))
    | .ok () => return ()
  | .factPath path => do
    c.text (location ++ (" fact_path" : Text)) path true
    match c.env.facts.get? path with
    | none => throw (invalid (location ++ (" references unknown fact " : Text) ++ Text.quote path))
    | some typeName =>
      let assignable := match c.env.parse typeName false with
        | .ok actual => c.env.assignable actual expected
        | .error _ => false
      if assignable = false then
        throw (invalid (location ++ (" fact " : Text) ++ Text.quote path ++ (" type is incompatible with " : Text) ++
          expected.describe))
  | .resultSlot slot =>
    match slots[slot.toNat]? with
    | none =>
      throw (invalid (location ++ (" references non-preceding result slot " : Text) ++ Text.ofInt slot.toNat))
    | some actual =>
      if c.env.assignable actual expected = false then
        throw (invalid (location ++ (" result slot " : Text) ++ Text.ofInt slot.toNat ++
          (" type is incompatible with " : Text) ++ expected.describe))
      else return ()

/-- A policy left open takes the contract's; one that is set must be the contract's. -/
def frozenPolicy {α : Type} [DecidableEq α] (isOpen : Bool) (actual expected : α) (message : Text) : Except Err α :=
  if isOpen then .ok expected else if actual ≠ expected then .error (invalid message) else .ok actual

def contractIdempotency (contract : VerbContract) : StepIdempotency :=
  if contract.idempotencyPolicy = idempotencyKeyRequired then .keyRequired
  else if contract.idempotencyPolicy = idempotencySinkGuaranteed then .sinkGuaranteed
  else .none

section

variable [Platform]

/-- The inverse a step freezes, if its verb has one. -/
def stepCompensation (c : Checker) (location : Text) (step : Step) (contract : VerbContract) (policy : ExecutionPolicy) :
    Except Err (Option CompensationContract) :=
  if contract.inverseVerb = [] then
    if step.compensation.isSome then
      .error (invalid (location ++ (" has compensation but verb " : Text) ++ Text.quote step.verb ++ (" has no inverse" : Text)))
    else .ok none
  else
    match c.env.verbs.get? contract.inverseVerb with
    | none =>
      .error (invalid (location ++ (" verb " : Text) ++ Text.quote step.verb ++ (" references unknown inverse " : Text) ++
        Text.quote contract.inverseVerb))
    | some inverse =>
      match contractHash inverse with
      | .error err => .error (invalid (location ++ (" inverse contract: " : Text) ++ err.text))
      | .ok inverseHash =>
        match step.compensation with
        | none => .ok (if policy = .durableCompensating then some ⟨contract.inverseVerb, inverseHash⟩ else none)
        | some compensation =>
          if compensation.inverseVerb ≠ contract.inverseVerb ∨ compensation.inverseContractHash ≠ inverseHash then
            .error (invalid (location ++ (" compensation does not match verb " : Text) ++ Text.quote step.verb))
          else .ok (some compensation)

/-- The step with the policies of its verb's contract. -/
def checkStepPolicies (c : Checker) (location : Text) (step : Step) (contract : VerbContract) (policy : ExecutionPolicy) :
    Except Err Step := do
  let expectedRetry : CheckedRetryPolicy := {
    maxAttempts := contract.retryPolicy.maxAttempts, initialBackoffMillis := contract.retryPolicy.initialBackoffMillis
    maxBackoffMillis := contract.retryPolicy.maxBackoffMillis }
  let matching := fun what : Text => location ++ what ++ (" does not match verb " : Text) ++ Text.quote step.verb
  let retry ← frozenPolicy step.retryPolicy.isNone step.retryPolicy (some expectedRetry) (matching " retry_policy")
  let idempotency ← frozenPolicy (decide (step.idempotencyPolicy = .unspecified)) step.idempotencyPolicy
    (contractIdempotency contract) (matching " idempotency_policy")
  let fencing ← frozenPolicy (decide (step.fencingRequirement = .unspecified)) step.fencingRequirement
    (if contract.fencingRequired then .required else .none) (matching " fencing_requirement")
  let compensation ← c.stepCompensation location step contract policy
  return { step with
    retryPolicy := retry, idempotencyPolicy := idempotency, fencingRequirement := fencing, compensation := compensation }

/-- The arguments of a step, in name order, against the contract's declarations. -/
def checkStepArguments (c : Checker) (location verb : Text) (contract : VerbContract) (slots : List TypeRef)
    (previous : Option Text) (index : Nat) : List Argument → Check Unit
  | [] => return ()
  | argument :: rest => do
    let argumentLocation := location ++ (".argument[" : Text) ++ Text.ofInt index ++ ("]" : Text)
    c.text (argumentLocation ++ (".name" : Text)) argument.name true
    if isNameOrdered previous argument.name = false then
      throw (invalid (location ++ (" arguments are not uniquely ordered by name" : Text)))
    match contract.arguments.get? argument.name with
    | none => throw (invalid (argumentLocation ++ (" is not declared by verb " : Text) ++ Text.quote verb))
    | some expectedTypeName =>
      match c.env.parse expectedTypeName false with
      | .error err => throw (invalid (argumentLocation ++ (" type: " : Text) ++ err.text))
      | .ok expectedType => c.checkValue argument.value expectedType slots argumentLocation
    c.checkStepArguments location verb contract slots (some argument.name) (index + 1) rest

/-- The result types bound so far, with this step's if it binds one. -/
def bindResult (location : Text) (step : Step) (resultType : TypeRef) (slots : List TypeRef) :
    Except Err (List TypeRef) :=
  match step.resultSlot with
  | none => .ok slots
  | some slot =>
    if resultType.kind = .void then .error (invalid (location ++ (" binds a void result" : Text)))
    else if slot ≠ UInt32.ofNat slots.length then
      .error (invalid (location ++ (" result_slot is " : Text) ++ Text.ofInt slot.toNat ++ (", want dense slot " : Text) ++
        Text.ofInt slots.length))
    else .ok (slots ++ [resultType])

def checkStep (c : Checker) (planLocation : Text) (index : Nat) (step : Step) (slots : List TypeRef)
    (policy : ExecutionPolicy) : Check (Step × List TypeRef) := do
  let location := planLocation ++ (".step[" : Text) ++ Text.ofInt index ++ ("]" : Text)
  if step.ordinal ≠ UInt32.ofNat index then
    throw (invalid (location ++ (" ordinal is " : Text) ++ Text.ofInt step.ordinal.toNat ++ (", want " : Text) ++
      Text.ofInt index))
  c.text (location ++ (".id" : Text)) step.id true
  if (← get).stepIDs.contains step.id then
    throw (invalid (location ++ (" has duplicate id " : Text) ++ Text.quote step.id))
  modify fun s => { s with stepIDs := step.id :: s.stepIDs }
  c.text (location ++ (".verb" : Text)) step.verb true
  match c.env.verbs.get? step.verb with
  | none => throw (invalid (location ++ (" references unknown verb " : Text) ++ Text.quote step.verb))
  | some contract =>
    match contractHash contract with
    | .error err => throw (invalid (location ++ (" contract: " : Text) ++ err.text))
    | .ok expectedHash =>
      if step.contractHash ≠ expectedHash then
        throw (invalid (location ++ (" contract_hash does not match verb " : Text) ++ Text.quote step.verb))
    c.text (location ++ (".contract_hash" : Text)) step.contractHash true
    let checked ← c.checkStepPolicies location step contract policy
    within (location ++ (" arguments" : Text)) step.arguments.length c.limits.maxArgumentsPerStep
    c.checkStepArguments location step.verb contract slots none 0 step.arguments
    match (contract.requiredArgs.getD []).find? fun required => !(step.arguments.map (·.name)).contains required with
    | some required =>
      throw (invalid (location ++ (" is missing required argument " : Text) ++ Text.quote required))
    | none =>
      match c.env.parse contract.resultType true with
      | .error err => throw (invalid (location ++ (" result type: " : Text) ++ err.text))
      | .ok resultType =>
        let slots ← bindResult location step resultType slots
        return (checked, slots)

def checkSteps (c : Checker) (location : Text) (policy : ExecutionPolicy) :
    Nat → List Step → List TypeRef → Check (List Step)
  | _, [], _ => return []
  | index, step :: rest, slots => do
    let (checked, slots) ← c.checkStep location index step slots policy
    let checkedRest ← c.checkSteps location policy (index + 1) rest slots
    return checked :: checkedRest

/-! ### Plans -/

/-- `comparePlans`: dialect, higher priority, source order, id. -/
def comparePlans (left right : Plan) : Int :=
  if left.sourceDialect ≠ right.sourceDialect then left.sourceDialect.number - right.sourceDialect.number
  else if left.priority ≠ right.priority then if left.priority > right.priority then -1 else 1
  else if left.sourceOrder ≠ right.sourceOrder then if left.sourceOrder < right.sourceOrder then -1 else 1
  else if Text.lt left.id right.id then -1
  else if left.id = right.id then 0
  else 1

def dialectName : SourceDialect → Text
  | .list => "SOURCE_DIALECT_LIST"
  | .flow => "SOURCE_DIALECT_FLOW"
  | .unspecified => "SOURCE_DIALECT_UNSPECIFIED"
  | .other n => Text.ofInt n

def policyNumber : ExecutionPolicy → Int
  | .unspecified => 0
  | .durableFailFast => 1
  | .durableCompensating => 2
  | .other n => n

/-- The identity of a plan: its id, dialect, source order and policy. -/
def checkPlanIdentity (c : Checker) (location : Text) (plan : Plan) : Check Unit := do
  c.text (location ++ (".id" : Text)) plan.id true
  if (← get).planIDs.contains plan.id then
    throw (invalid (location ++ (" has duplicate id " : Text) ++ Text.quote plan.id))
  modify fun s => { s with planIDs := plan.id :: s.planIDs }
  if plan.sourceDialect ≠ .list ∧ plan.sourceDialect ≠ .flow then
    throw (invalid (location ++ (" has invalid source_dialect " : Text) ++ Text.ofInt plan.sourceDialect.number))
  if (← get).sourceOrders.contains (plan.sourceDialect, plan.sourceOrder) then
    throw (invalid (location ++ (" duplicates source_order " : Text) ++ Text.ofInt plan.sourceOrder.toNat ++
      (" for " : Text) ++ dialectName plan.sourceDialect))
  modify fun s => { s with sourceOrders := (plan.sourceDialect, plan.sourceOrder) :: s.sourceOrders }
  if plan.executionPolicy ≠ .durableFailFast ∧ plan.executionPolicy ≠ .durableCompensating then
    throw (invalid (location ++ (" has invalid execution_policy " : Text) ++ Text.ofInt (policyNumber plan.executionPolicy)))

/-- A plan's predicate is an expression of type bool. -/
def checkPredicate (c : Checker) (location : Text) (predicate : Expression) : Check Unit := do
  match predicate with
  | .absent => throw (invalid (location ++ (" predicate is required" : Text)))
  | predicate =>
    modify fun s => { s with predicateNodes := 0 }
    let predicateType ← tryCatch (c.checkExpression 1 predicate) fun err =>
      throw (contextualInvalid (location ++ (" predicate" : Text)) err)
    if predicateType.kind ≠ .bool then
      throw (invalid (location ++ (" predicate returns " : Text) ++ predicateType.describe ++ (", want bool" : Text)))

def checkPlan (c : Checker) (index : Nat) (plan : Plan) : Check Plan := do
  let location := ("plan[" : Text) ++ Text.ofInt index ++ ("]" : Text)
  c.checkPlanIdentity location plan
  c.checkPredicate location plan.predicate
  within (location ++ (" steps" : Text)) plan.steps.length c.limits.maxStepsPerPlan
  modify fun s => { s with stepCount := s.stepCount + plan.steps.length }
  within "steps" (← get).stepCount c.limits.maxSteps
  let steps ← c.checkSteps location plan.executionPolicy 0 plan.steps []
  return { plan with steps := steps }

def checkPlans (c : Checker) (previous : Option Plan) : Nat → List Plan → Check (List Plan)
  | _, [] => return []
  | index, plan :: rest => do
    if (previous.any fun previous => decide (0 ≤ comparePlans previous plan)) then
      throw (invalid (("plans are not in canonical dialect, priority, and source order at index " : Text) ++
        Text.ofInt index))
    let checked ← c.checkPlan index plan
    let checkedRest ← c.checkPlans (some plan) (index + 1) rest
    return checked :: checkedRest

/-- A lowercase SHA-256 digest. -/
def isDigest (digest : Text) : Bool :=
  decide (digest.length = 64) && digest.all fun b => (0x30 ≤ b && b ≤ 0x39) || (0x61 ≤ b && b ≤ 0x66)

def check (c : Checker) (artifact : RuleArtifact) : Check RuleArtifact := do
  if artifact.formatVersion ≠ 1 then
    throw (invalid (("format_version is " : Text) ++ Text.ofInt artifact.formatVersion.toNat ++ (", want 1" : Text)))
  match artifact.compiler with
  | none => throw (invalid "compiler metadata is required")
  | some compiler =>
    c.text "compiler.name" compiler.name true
    c.text "compiler.version" compiler.version true
    if isDigest compiler.buildDigest = false then
      throw (invalid "compiler.build_digest must be a lowercase SHA-256 digest")
    c.text "compiler.build_digest" compiler.buildDigest true
  match environmentDigest c.env with
  | .error err => throw (invalid (("environment digest: " : Text) ++ err.text))
  | .ok expected =>
    if artifact.environmentDigest ≠ expected then
      throw (invalid "environment_digest does not match the supplied environment")
  c.text "environment_digest" artifact.environmentDigest true
  within "plans" artifact.plans.length c.limits.maxPlans
  let plans ← c.checkPlans none 0 artifact.plans
  return { artifact with plans := plans }

end

end Checker

/-- An accepted artifact and the digest of its encoding. The source keeps only the encoding and decodes
it on every read. -/
structure Checked where
  artifact : RuleArtifact
  wire : Text
  digest : Text
  planCount : Nat
  stepCount : Nat

/-- `ir.Check`. -/
def checkArtifact [Platform] [Protobuf] (artifact : RuleArtifact) (environment : Environment) (limits : Limits) :
    Except Err Checked := do
  let limits ← limits.withDefaults
  if limits.maxArtifactBytes < Protobuf.size artifact then
    throw (limitError "artifact bytes" (Protobuf.size artifact) limits.maxArtifactBytes)
  match artifact.unknownFields with
  | some message => throw (invalid (("protobuf contains unknown fields in " : Text) ++ message))
  | none =>
    match normalizeEnvironment environment with
    | .error err => throw (invalid (("environment: " : Text) ++ err.text))
    | .ok env =>
      let (checked, counts) ← (Checker.check ⟨env, limits⟩ artifact).run {}
      match Protobuf.marshal checked with
      | none => throw (invalid "encode canonical protobuf")
      | some wire =>
        if limits.maxArtifactBytes < wire.length then throw (limitError "artifact bytes" wire.length limits.maxArtifactBytes)
        return ⟨checked, wire, hexEncode (Platform.sha256 wire), checked.plans.length, counts.stepCount⟩

end Effectus

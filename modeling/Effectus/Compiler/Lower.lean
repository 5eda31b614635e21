import Effectus.Compiler.Frontend
import Effectus.Runtime.Build

/-!
Lowering: rules and flows become plans. A step freezes the policies of its verb's contract, its arguments are sorted by
name, and a binding takes the next result slot.
-/

namespace Effectus

namespace Compiler

open Fallible

/-! ### Predicates -/

/-- The nodes of the expression library; the last is any other, by the name of its type. -/
inductive ExprNode where
  | nil
  | bool (value : Bool)
  | integer (value : Int64)
  | float (value : Float64)
  | string (value : Text)
  | array (nodes : List ExprNode)
  | identifier (value : Text)
  | member (node property : ExprNode) (isOptional isMethod : Bool)
  | unary (operator : Text) (node : ExprNode)
  | binary (operator : Text) (left right : ExprNode)
  | call (callee : ExprNode)
  | builtin (name : Text)
  | other (typeName : Text)

/-- The parser of the expression library. -/
class ExprParser where
  parse : Text → Except Err ExprNode

def ExprNode.typeName : ExprNode → Text
  | .nil => "*ast.NilNode"
  | .bool _ => "*ast.BoolNode"
  | .integer _ => "*ast.IntegerNode"
  | .float _ => "*ast.FloatNode"
  | .string _ => "*ast.StringNode"
  | .array _ => "*ast.ArrayNode"
  | .identifier _ => "*ast.IdentifierNode"
  | .member .. => "*ast.MemberNode"
  | .unary .. => "*ast.UnaryNode"
  | .binary .. => "*ast.BinaryNode"
  | .call _ => "*ast.CallNode"
  | .builtin _ => "*ast.BuiltinNode"
  | .other typeName => typeName

def expressionFactPath : ExprNode → Except Err Text
  | .identifier value => .ok value
  | .member node property isOptional isMethod =>
    if isOptional ∨ isMethod then .error (.new "optional and method member access is unsupported")
    else
      match expressionFactPath node with
      | .error err => .error err
      | .ok base =>
        match property with
        | .string name => .ok (base ++ (0x2E :: name))
        | .integer index => .ok (base ++ ("[" : Text) ++ Text.ofInt index.toInt ++ ("]" : Text))
        | _ => .error (.new "dynamic fact member access is unsupported")
  | node => .error (.new (("expression " : Text) ++ node.typeName ++ (" is not a fact path" : Text)))

/-- The operator of a word, and whether its result is negated. -/
def binaryOperators : List (Text × BinaryOperator × Bool) :=
  [("==", .equal, false), ("!=", .notEqual, false), (">", .greater, false), (">=", .greaterEqual, false),
    ("<", .less, false), ("<=", .lessEqual, false), ("&&", .and, false), ("and", .and, false), ("||", .or, false),
    ("or", .or, false), ("in", .isIn, false), ("not in", .isIn, true), ("contains", .contains, false),
    ("not contains", .contains, true), ("+", .add, false), ("-", .subtract, false), ("*", .multiply, false),
    ("/", .divide, false), ("%", .modulo, false), ("matches", .matches, false), ("not matches", .matches, true),
    ("startsWith", .startsWith, false), ("not startsWith", .startsWith, true), ("endsWith", .endsWith, false),
    ("not endsWith", .endsWith, true)]

def lowerBinaryOperator (operator : Text) : Except Err (BinaryOperator × Bool) :=
  match Assoc.get? binaryOperators operator with
  | some lowered => .ok lowered
  | none => .error (.new (("unsupported binary operator " : Text) ++ Text.quote operator))

def lowerFunctionCall (name : Text) : Except Err Expression :=
  .error (.new (("predicate function " : Text) ++ Text.quote name ++
    (" is unavailable in immutable generations" : Text)))

mutual

def lowerExprNode : ExprNode → Except Err Expression
  | .nil => .ok (.literal (.null .null))
  | .bool value => .ok (.literal (.bool value))
  | .integer value => .ok (.literal (.int value))
  | .float value => .ok (.literal (.double value))
  | .string value => .ok (.literal (.string value))
  | .array nodes =>
    match lowerExprItems 0 nodes with
    | .error err => .error err
    | .ok values => .ok (.literal (.list values))
  | .identifier value => .ok (.factPath value)
  | .member node property isOptional isMethod =>
    (expressionFactPath (.member node property isOptional isMethod)).map .factPath
  | .unary operator node =>
    match lowerExprNode node with
    | .error err => .error err
    | .ok operand =>
      if operator = ("!" : Text) ∨ operator = ("not" : Text) then .ok (.unary .not operand)
      else if operator = ("-" : Text) then .ok (.unary .negate operand)
      else .error (.new (("unsupported unary operator " : Text) ++ Text.quote operator))
  | .binary operator left right =>
    match lowerExprNode left with
    | .error err => .error err
    | .ok left =>
      match lowerExprNode right with
      | .error err => .error err
      | .ok right =>
        match lowerBinaryOperator operator with
        | .error err => .error err
        | .ok (operator, isNegated) =>
          .ok (if isNegated then .unary .not (.binary operator left right) else .binary operator left right)
  | .call (.identifier name) => lowerFunctionCall name
  | .call _ => .error (.new "predicate method calls are unavailable in immutable generations")
  | .builtin name => lowerFunctionCall name
  | .other typeName => .error (.new (("unsupported predicate AST node " : Text) ++ typeName))

/-- The items of an array, each of which is a literal. -/
def lowerExprItems (index : Nat) : List ExprNode → Except Err (List Literal)
  | [] => .ok []
  | node :: rest =>
    match lowerExprNode node with
    | .error err => .error err
    | .ok (.literal value) => (lowerExprItems (index + 1) rest).map (value :: ·)
    | .ok _ => .error (.new (("predicate array item " : Text) ++ Text.ofInt index ++ (" is not a literal" : Text)))

end

def lowerPredicate [ExprParser] (expression : Text) : Except Err Expression :=
  match ExprParser.parse expression with
  | .error err =>
    if err.text.tails.any (("invalid integer literal" : Text).isPrefixOf ·) then
      .error (err.under (("parse expression: integer literal magnitude must fit int64; " : Text) ++
        ("spell the minimum int64 value as (-9223372036854775807 - 1)" : Text)))
    else .error (err.under "parse expression")
  | .ok node => lowerExprNode node

def trueExpression : Expression := .literal (.bool true)

def conjunction : List Expression → Expression
  | [] => trueExpression
  | first :: rest => rest.foldl (.binary .and) first

/-! ### Literals -/

def countSet (flags : List Bool) : Nat := (flags.filter id).length

mutual

def lowerASTLiteral : AstLiteral → Except Err Literal
  | .mk string int float bool list map =>
    if countSet [string.isSome, int.isSome, float.isSome, bool.isSome, !list.isEmpty, !map.isEmpty] ≠ 1 then
      .error (.new "literal must contain exactly one value kind")
    else
      match string, int, float, bool with
      | some value, _, _, _ => .ok (.string value)
      | _, some value, _, _ => .ok (.int value)
      | _, _, some value, _ =>
        if value.isNaN ∨ value.isInf then .error (.new "floating literal must be finite") else .ok (.double value)
      | _, _, _, some value => .ok (.bool value)
      | none, none, none, none =>
        if list.isEmpty = false then (lowerItems 0 list).map .list
        else
          (lowerEntries [] map).map fun fields =>
            .object (fields.insertionSort fun a b => Text.lt b.1 a.1 = false)

def lowerItems (index : Nat) : List AstLiteral → Except Err (List Literal)
  | [] => .ok []
  | item :: rest =>
    match lowerASTLiteral item with
    | .error err => .error (err.under (("list item " : Text) ++ Text.ofInt index))
    | .ok value => (lowerItems (index + 1) rest).map (value :: ·)

/-- The fields that are left, after those with these names. -/
def lowerEntries (seen : List Text) : List (Text × AstLiteral) → Except Err (List (Text × Literal))
  | [] => .ok []
  | (key, value) :: rest =>
    if Text.trimSpace key = [] then .error (.new "object contains an invalid field")
    else if seen.contains key then .error (.new (("object repeats field " : Text) ++ Text.quote key))
    else
      match lowerASTLiteral value with
      | .error err => .error (err.under (("object field " : Text) ++ Text.quote key))
      | .ok value => (lowerEntries (key :: seen) rest).map ((key, value) :: ·)

end

/-! ### Arguments -/

/-- Result slots by the name they are bound to. -/
abbrev Bindings := List (Text × UInt32)

def lowerArgumentValue (bindings : Bindings) : ArgValue AstLiteral → Except Err ArgumentValue
  | .literal value => (lowerASTLiteral value).map .literal
  | .pathExpr path =>
    if Text.trimSpace path = [] then .error (.new "fact path is empty") else .ok (.factPath (Text.trimSpace path))
  | .varRef reference =>
    let name := if Text.hasPrefix reference "$" then reference.drop 1 else reference
    if name = reference ∨ name = [] then .error (.new (("invalid result reference " : Text) ++ Text.quote reference))
    else
      match Assoc.get? bindings name with
      | some slot => .ok (.resultSlot slot)
      | none => .error (.new (("result binding " : Text) ++ Text.quote name ++ (" is not available" : Text)))

/-- Every argument has a name of its own. -/
def checkArgumentNames (index : Nat) (seen : List Text) : List (StepArg AstLiteral) → Except Err Unit
  | [] => .ok ()
  | argument :: rest =>
    if Text.trimSpace argument.name = [] then
      .error (.new (("argument " : Text) ++ Text.ofInt (index + 1) ++ (" is invalid" : Text)))
    else if seen.contains argument.name then
      .error (.new (("duplicate argument " : Text) ++ Text.quote argument.name))
    else checkArgumentNames (index + 1) (argument.name :: seen) rest

def lowerArgument (bindings : Bindings) (argument : StepArg AstLiteral) : Except Err Argument :=
  match lowerArgumentValue bindings argument.value with
  | .error err => .error (err.under (("argument " : Text) ++ Text.quote argument.name))
  | .ok value => .ok ⟨argument.name, value⟩

/-- The arguments by name. -/
def lowerArguments (arguments : List (StepArg AstLiteral)) (bindings : Bindings) : Except Err (List Argument) := do
  checkArgumentNames 0 [] arguments
  (arguments.insertionSort fun a b => Text.lt b.name a.name = false).mapM (lowerArgument bindings)

/-! ### Steps -/

def equalStringMap (left right : Dict Text Text) : Bool :=
  decide (left.entries.length = right.entries.length) &&
    left.entries.all fun entry => decide ((right.get? entry.1).getD [] = entry.2)

def equalStringSet (left right : List Text) : Bool :=
  decide (List.intercalate [0] (sortedStrings left) = List.intercalate [0] (sortedStrings right))

def validateCompensationContract (verb : Text) (contract : VerbContract) (environment : Environment) : Except Err Unit :=
  if contract.inverseVerb = [] then
    .error (.new (("compensating execution requires verb " : Text) ++ Text.quote verb ++
      (" to declare an inverse" : Text)))
  else
    match environment.verbs.get? contract.inverseVerb with
    | none =>
      .error (.new (("verb " : Text) ++ Text.quote verb ++ (" references unknown inverse " : Text) ++
        Text.quote contract.inverseVerb))
    | some inverse =>
      if equalStringMap contract.arguments inverse.arguments = false ∨
          equalStringSet (contract.requiredArgs.getD []) (inverse.requiredArgs.getD []) = false then
        .error (.new (("verb " : Text) ++ Text.quote verb ++ (" inverse " : Text) ++ Text.quote contract.inverseVerb ++
          (" has an incompatible argument contract" : Text)))
      else .ok ()

section

variable [Platform]

/-- The policies of the contract; no attempts are one. -/
def freezeStepPolicies (step : Step) (contract : VerbContract) (environment : Environment) (policy : ExecutionPolicy) :
    Step where
  __ := step
  retryPolicy := some {
    maxAttempts := if contract.retryPolicy.maxAttempts = 0 then 1 else contract.retryPolicy.maxAttempts
    initialBackoffMillis := contract.retryPolicy.initialBackoffMillis
    maxBackoffMillis := contract.retryPolicy.maxBackoffMillis }
  idempotencyPolicy := Checker.contractIdempotency contract
  fencingRequirement := if contract.fencingRequired then .required else .none
  compensation :=
    if policy = .durableCompensating ∧ contract.inverseVerb ≠ [] then
      match environment.verbs.get? contract.inverseVerb with
      | none => step.compensation
      | some inverse =>
        match contractHash inverse with
        | .error _ => step.compensation
        | .ok hash => some ⟨contract.inverseVerb, hash⟩
    else step.compensation

/-- `%06d` -/
def stepNumber (n : Nat) : Text := List.replicate (6 - (Text.decimal n).length) 0x30 ++ Text.decimal n

/-- The slot a binding takes, with the bindings it leaves. -/
def bindSlot (index : Nat) (binding : Text) (bindings : Bindings) : Except Err (Option UInt32 × Bindings) :=
  if binding = [] then .ok (none, bindings)
  else if Text.trimSpace binding ≠ binding then
    .error (.new (("step " : Text) ++ Text.ofInt (index + 1) ++ (" has an invalid result binding" : Text)))
  else if (Assoc.get? bindings binding).isSome then
    .error (.new (("step " : Text) ++ Text.ofInt (index + 1) ++ (" redefines result binding " : Text) ++
      Text.quote binding))
  else .ok (some (.ofNat bindings.length), (binding, .ofNat bindings.length) :: bindings)

/-- One step, as far as its arguments and policies. -/
def lowerInvocation (planID : Text) (index : Nat) (invocation : Invocation AstLiteral) (bindings : Bindings)
    (environment : Environment) (policy : ExecutionPolicy) : Except Err Step := do
  let label := ("step " : Text) ++ Text.ofInt (index + 1)
  if Text.trimSpace invocation.verb = [] then throw (.new (label ++ (" has an empty verb" : Text)))
  match environment.verbs.get? invocation.verb with
  | none => throw (.new (label ++ (" references unknown verb " : Text) ++ Text.quote invocation.verb))
  | some contract =>
    let verbLabel := label ++ (" verb " : Text) ++ Text.quote invocation.verb
    let hash ← (contractHash contract).mapError (·.under (verbLabel ++ (" contract" : Text)))
    let arguments ← (lowerArguments invocation.args bindings).mapError (·.under verbLabel)
    let step : Step := {
      id := planID ++ (".step." : Text) ++ stepNumber (index + 1), ordinal := .ofNat index, verb := invocation.verb
      contractHash := hash, arguments := arguments, resultSlot := none, compensation := none, retryPolicy := none
      idempotencyPolicy := .unspecified, fencingRequirement := .unspecified }
    if policy = .durableCompensating then
      (validateCompensationContract invocation.verb contract environment).mapError (·.under label)
    return freezeStepPolicies step contract environment policy

def lowerInvocations (planID : Text) (environment : Environment) (policy : ExecutionPolicy) :
    Nat → Bindings → List (Invocation AstLiteral) → Except Err (List Step)
  | _, _, [] => .ok []
  | index, bindings, invocation :: rest => do
    let step ← lowerInvocation planID index invocation bindings environment policy
    let (slot, bindings) ← bindSlot index invocation.bindName bindings
    let others ← lowerInvocations planID environment policy (index + 1) bindings rest
    return { step with resultSlot := slot } :: others

/-! ### Plans -/

variable [ExprParser]

/-- The predicates of the blocks that have one. -/
def lowerBlockPredicates (name : Text) : List (WhenThenBlock AstLiteral) → Except Err (List Expression)
  | [] => .ok []
  | block :: rest =>
    if Text.trimSpace block.when = [] then lowerBlockPredicates name rest
    else
      match lowerPredicate block.when with
      | .error err => .error (err.under (("rule " : Text) ++ Text.quote name ++ (" predicate" : Text)))
      | .ok expression => (lowerBlockPredicates name rest).map (expression :: ·)

def lowerListRule (rule : Rule Text AstLiteral) (sourceOrder : Nat) (environment : Environment)
    (policy : ExecutionPolicy) : Except Err Plan := do
  if Text.trimSpace rule.name = [] ∨ rule.name ≠ Text.trimSpace rule.name then throw (.new "invalid list rule name")
  let predicates ← lowerBlockPredicates rule.name rule.blocks
  let steps ← (lowerInvocations rule.name environment policy 0 [] (rule.blocks.flatMap (·.effects))).mapError
    (·.under (("rule " : Text) ++ Text.quote rule.name))
  return {
    id := rule.name, sourceDialect := .list, sourceOrder := .ofNat sourceOrder, priority := .ofInt rule.priority
    predicate := conjunction predicates, executionPolicy := policy, steps := steps }

def lowerFlow (flow : Flow Text AstLiteral) (sourceOrder : Nat) (environment : Environment) (policy : ExecutionPolicy) :
    Except Err Plan := do
  if Text.trimSpace flow.name = [] ∨ flow.name ≠ Text.trimSpace flow.name then throw (.new "invalid flow name")
  let predicate ←
    if Text.trimSpace flow.when = [] then .ok trueExpression
    else (lowerPredicate flow.when).mapError (·.under (("flow " : Text) ++ Text.quote flow.name ++ (" predicate" : Text)))
  let steps ← (lowerInvocations flow.name environment policy 0 [] flow.steps).mapError
    (·.under (("flow " : Text) ++ Text.quote flow.name))
  return {
    id := flow.name, sourceDialect := .flow, sourceOrder := .ofNat sourceOrder, priority := .ofInt flow.priority
    predicate := predicate, executionPolicy := policy, steps := steps }

def declarationBefore (a b : Position) : Bool :=
  if a.line ≠ b.line then decide (a.line < b.line) else decide (a.column < b.column)

/-- The place of a declaration, before an error in it. -/
def declarationLabel (path : Text) (pos : Position) : Text :=
  path ++ (":" : Text) ++ Text.ofInt pos.line ++ (":" : Text) ++ Text.ofInt pos.column

/-- The plans of declarations of one kind, numbered from `order` on. -/
def lowerEach {D : Type} (path : Text) (pos : D → Position) (lower : D → Nat → Except Err Plan) :
    Nat → List D → Except Err (List Plan)
  | _, [] => .ok []
  | order, declaration :: rest => do
    let plan ← (lower declaration order).mapError (·.under (declarationLabel path (pos declaration)))
    let others ← lowerEach path pos lower (order + 1) rest
    return plan :: others

/-- The plans of the sources that are left, after so many rules and flows. -/
def lowerParsed (environment : Environment) (policy : ExecutionPolicy) :
    Nat → Nat → List ParsedSource → Except Err (List Plan)
  | _, _, [] => .ok []
  | listOrder, flowOrder, source :: rest => do
    if pathExtension source.path = (".eff" : Text) then
      let rules := source.file.rules.insertionSort fun a b => declarationBefore b.pos a.pos = false
      let plans ← lowerEach source.path (·.pos) (fun rule order => lowerListRule rule order environment policy)
        listOrder rules
      let others ← lowerParsed environment policy (listOrder + plans.length) flowOrder rest
      return plans ++ others
    else
      let flows := source.file.flows.insertionSort fun a b => declarationBefore b.pos a.pos = false
      let plans ← lowerEach source.path (·.pos) (fun flow order => lowerFlow flow order environment policy)
        flowOrder flows
      let others ← lowerParsed environment policy listOrder (flowOrder + plans.length) rest
      return plans ++ others

def canonicalPlanOrder (plans : List Plan) : List Plan := plans.insertionSort fun a b => 0 ≤ Checker.comparePlans b a

/-- What `CompileChecked` does with the sources before it has the plans checked. -/
def lowerSources : LowerSources := fun sources environment policy => do
  let ordered ← parseSources sources
  let plans ← lowerParsed environment policy 0 0 ordered
  return canonicalPlanOrder plans

end

end Compiler

end Effectus

import Effectus.Go.Value
import Effectus.IR.Types
import Effectus.Outbox.Identity

/-!
Environments as the checker takes them: declarations trimmed, required names sorted, and every type
name they mention parsed once. A digest is that of the canonical JSON of the declarations.
-/

namespace Effectus

def sortedStrings (input : List Text) : List Text := input.insertionSort fun a b => Text.lt b a = false

/-- The first name a list repeats. -/
def duplicate? : List Text → Option Text
  | [] => none
  | name :: rest => if rest.contains name then some name else duplicate? rest

def isReservedTypeName (name : Text) : Bool :=
  (builtinType true name (Text.toLower (Text.trimSpace name))).isSome

/-- A declared name is not empty and has no white space around it. -/
def checkDeclaredName (what name : Text) : Except Err Unit :=
  if Text.trimSpace name = [] then .error (.new (what ++ (" is empty" : Text)))
  else if Text.trimSpace name ≠ name then
    .error (.new (what ++ (" " : Text) ++ Text.quote name ++ (" has leading or trailing whitespace" : Text)))
  else .ok ()

/-! ### Verb contracts -/

def idempotencyNone : Text := "none"

def idempotencyKeyRequired : Text := "key_required"

def idempotencySinkGuaranteed : Text := "sink_guaranteed"

/-- The milliseconds a duration can hold. -/
def maxBackoffMillis : Nat := (2 ^ 63 - 1) / 1000000

/-- The required arguments, sorted; all of them when none are listed. -/
def requiredArguments (contract : VerbContract) : List Text :=
  sortedStrings (contract.requiredArgs.getD (contract.arguments.entries.map Prod.fst))

def checkRetryPolicy (policy : RetryPolicy) : Except Err Unit :=
  if policy.maxBackoffMillis ≠ 0 ∧ policy.initialBackoffMillis > policy.maxBackoffMillis then
    .error (.new "retry initial backoff exceeds maximum backoff")
  else if policy.initialBackoffMillis.toNat > maxBackoffMillis ∨ policy.maxBackoffMillis.toNat > maxBackoffMillis then
    .error (.new "retry backoff exceeds supported duration")
  else .ok ()

def normalizeVerbContract (contract : VerbContract) : Except Err VerbContract :=
  match contract.arguments.entries.find? fun entry => Text.trimSpace entry.1 = [] ∨ Text.trimSpace entry.1 ≠ entry.1 with
  | some entry => .error (.new (("invalid argument name " : Text) ++ Text.quote entry.1))
  | none =>
    let required := requiredArguments contract
    match duplicate? required, required.find? fun name => (contract.arguments.get? name).isNone with
    | some name, _ => .error (.new (("duplicate required argument " : Text) ++ Text.quote name))
    | none, some name =>
      .error (.new (("required argument " : Text) ++ Text.quote name ++ (" is not declared" : Text)))
    | none, none =>
      let retry := { contract.retryPolicy with
        maxAttempts := if contract.retryPolicy.maxAttempts = 0 then 1 else contract.retryPolicy.maxAttempts }
      match checkRetryPolicy retry with
      | .error err => .error err
      | .ok () =>
        let policy := if contract.idempotencyPolicy = [] then idempotencyNone else contract.idempotencyPolicy
        if policy ≠ idempotencyNone ∧ policy ≠ idempotencyKeyRequired ∧ policy ≠ idempotencySinkGuaranteed then
          .error (.new (("invalid idempotency policy " : Text) ++ Text.quote policy))
        else .ok {
          arguments := contract.arguments.map Text.trimSpace, requiredArgs := some required
          resultType := Text.trimSpace contract.resultType, inverseVerb := Text.trimSpace contract.inverseVerb
          retryPolicy := retry, idempotencyPolicy := policy, fencingRequired := contract.fencingRequired }

/-! ### Environments -/

def normalizeTypeDefinition (definition : TypeDefinition) : TypeDefinition where
  kind := Text.toLower (Text.trimSpace definition.kind)
  elementType := Text.trimSpace definition.elementType
  fields := definition.fields
  requiredFields := sortedStrings definition.requiredFields

def normalizeFunction (contract : FunctionContract) : FunctionContract :=
  { contract with
    returnType := Text.trimSpace contract.returnType, argumentTypes := contract.argumentTypes.map Text.trimSpace }

/-- The checks on a type's own name. -/
def checkTypeName (name : Text) : Except Err Unit :=
  match checkDeclaredName "type name" name with
  | .error err => .error err
  | .ok () =>
    if isReservedTypeName name then
      .error (.new (("type " : Text) ++ Text.quote name ++ (" shadows a built-in type" : Text)))
    else .ok ()

/-- A type name must parse; the label says where it stands. -/
def Environment.checkParses (env : Environment) (label typeName : Text) (allowVoid : Bool) : Except Err Unit :=
  match env.parse typeName allowVoid with
  | .error err => .error (err.under label)
  | .ok _ => .ok ()

def Environment.checkObjectField (env : Environment) (label : Text) (field typeName : Text) : Except Err Unit :=
  if Text.trimSpace field = [] then .error (.new (label ++ (": field name is empty" : Text)))
  else if Text.trimSpace field ≠ field then
    .error (.new (label ++ (": field name " : Text) ++ Text.quote field ++ (" has leading or trailing whitespace" : Text)))
  else env.checkParses (label ++ (" field " : Text) ++ Text.quote field) typeName false

def Environment.checkTypeDefinition (env : Environment) (name : Text) (definition : TypeDefinition) : Except Err Unit :=
  let label := ("type " : Text) ++ Text.quote name
  if definition.kind = typeKindObject then
    if definition.elementType ≠ [] then .error (.new (label ++ (": object cannot have an element type" : Text)))
    else
      match duplicate? definition.requiredFields,
        definition.requiredFields.find? fun field => (definition.fields.get? field).isNone with
      | some field, _ => .error (.new (label ++ (": duplicate required field " : Text) ++ Text.quote field))
      | none, some field =>
        .error (.new (label ++ (": required field " : Text) ++ Text.quote field ++ (" is not declared" : Text)))
      | none, none => definition.fields.entries.forM fun entry => env.checkObjectField label entry.1 entry.2
  else if definition.kind = typeKindList ∨ definition.kind = typeKindMap then
    if definition.fields.entries ≠ [] ∨ definition.requiredFields ≠ [] then
      .error (.new (label ++ (": " : Text) ++ definition.kind ++ (" cannot declare fields" : Text)))
    else env.checkParses (label ++ (" element" : Text)) definition.elementType false
  else .error (.new (label ++ (" has unsupported kind " : Text) ++ Text.quote definition.kind))

def Environment.checkVerb (env : Environment) (name : Text) (contract : VerbContract) : Except Err Unit := do
  let label := ("verb " : Text) ++ Text.quote name
  contract.arguments.entries.forM fun entry =>
    if Text.trimSpace entry.1 = [] then .error (.new (label ++ (" has an empty argument name" : Text)))
    else env.checkParses (label ++ (" argument " : Text) ++ Text.quote entry.1) entry.2 false
  env.checkParses (label ++ (" result" : Text)) contract.resultType true

def Environment.checkFunction (env : Environment) (name : Text) (contract : FunctionContract) : Except Err Unit := do
  let label := ("function " : Text) ++ Text.quote name
  contract.argumentTypes.zipIdx.forM fun (typeName, i) =>
    env.checkParses (label ++ (" argument " : Text) ++ Text.ofInt i) typeName false
  env.checkParses (label ++ (" result" : Text)) contract.returnType false

/-- `normalizeEnvironment`. The source goes through its maps in no fixed order; here each is gone through
in key order, which decides only which of several errors is reported. -/
def normalizeEnvironment (environment : Environment) : Except Err Environment := do
  environment.types.entries.forM fun entry => checkTypeName entry.1
  environment.facts.entries.forM fun entry => checkDeclaredName "fact path" entry.1
  environment.verbs.entries.forM fun entry => checkDeclaredName "verb name" entry.1
  let verbs ← environment.verbs.mapM fun name contract =>
    match normalizeVerbContract contract with
    | .error err => .error (err.under (("verb " : Text) ++ Text.quote name))
    | .ok normalized => .ok normalized
  environment.functions.entries.forM fun entry => checkDeclaredName "function name" entry.1
  let out : Environment := {
    facts := environment.facts.map Text.trimSpace, verbs := verbs
    functions := environment.functions.map normalizeFunction
    types := environment.types.map normalizeTypeDefinition }
  out.types.entries.forM fun entry => out.checkTypeDefinition entry.1 entry.2
  out.facts.entries.forM fun entry => out.checkParses (("fact " : Text) ++ Text.quote entry.1) entry.2 false
  out.verbs.entries.forM fun entry => out.checkVerb entry.1 entry.2
  out.functions.entries.forM fun entry => out.checkFunction entry.1 entry.2
  return out

/-! ### Digests -/

/-- What `json.Marshal` writes for a string, a map and a slice of strings, and a struct field. -/
def Json.ofText (t : Text) : Json := .str (.repair t)

def Json.ofTexts (ts : List Text) : Json := .arr (ts.map ofText)

def Json.ofDict {α : Type} (f : α → Json) (m : Dict Text α) : Json := .obj (m.entries.map fun x => (.repair x.1, f x.2))

def jsonMember (name : String) (value : Json) : Utf8Text × Json := (.repair name, value)

def RetryPolicy.json (policy : RetryPolicy) : Json :=
  .obj [jsonMember "max_attempts" (.num (.ofInt policy.maxAttempts.toNat)),
    jsonMember "initial_backoff_millis" (.num (.ofInt policy.initialBackoffMillis.toNat)),
    jsonMember "max_backoff_millis" (.num (.ofInt policy.maxBackoffMillis.toNat))]

def VerbContract.json (contract : VerbContract) : Json :=
  .obj ([jsonMember "arguments" (.ofDict .ofText contract.arguments),
      jsonMember "required_args" (.ofTexts (contract.requiredArgs.getD [])),
      jsonMember "result_type" (.ofText contract.resultType)] ++
    (if contract.inverseVerb = [] then [] else [jsonMember "inverse_verb" (.ofText contract.inverseVerb)]) ++
    [jsonMember "retry_policy" contract.retryPolicy.json,
      jsonMember "idempotency_policy" (.ofText contract.idempotencyPolicy),
      jsonMember "fencing_required" (.bool contract.fencingRequired)])

def FunctionContract.json (contract : FunctionContract) : Json :=
  .obj [jsonMember "argument_types" (.ofTexts contract.argumentTypes), jsonMember "return_type" (.ofText contract.returnType),
    jsonMember "pure" (.bool contract.pure), jsonMember "total" (.bool contract.total)]

def TypeDefinition.json (definition : TypeDefinition) : Json :=
  .obj ([jsonMember "kind" (.ofText definition.kind)] ++
    (if definition.elementType = [] then [] else [jsonMember "element_type" (.ofText definition.elementType)]) ++
    (if definition.fields.entries.isEmpty then [] else [jsonMember "fields" (.ofDict .ofText definition.fields)]) ++
    (if definition.requiredFields = [] then [] else [jsonMember "required_fields" (.ofTexts definition.requiredFields)]))

def Environment.json (env : Environment) : Json :=
  .obj [jsonMember "facts" (.ofDict .ofText env.facts), jsonMember "verbs" (.ofDict VerbContract.json env.verbs),
    jsonMember "functions" (.ofDict FunctionContract.json env.functions),
    jsonMember "types" (.ofDict TypeDefinition.json env.types)]

section

variable [Platform]

def contractHash (contract : VerbContract) : Except Err Text :=
  (normalizeVerbContract contract).map fun normalized => hexEncode (Platform.sha256 normalized.json.render)

def environmentDigest (environment : Environment) : Except Err Text :=
  (normalizeEnvironment environment).map fun normalized => hexEncode (Platform.sha256 normalized.json.render)

end

end Effectus

import Effectus.IR.Check
import Effectus.Ledger.Types

/-!
Generations: a checked artifact with the environment it was checked against, its labels and the executors
of its verbs, under one digest. An executor is known by its verb; what it does comes from outside.
-/

namespace Effectus

/-- An executor's resolver input: its canonical document and the resolver it names. -/
structure Descriptor where
  document : Json
  resolverID : Text

structure GenerationConfig where
  checked : Checked
  environment : Environment
  ruleset : Text
  version : Text
  executorDescriptors : Dict Text Descriptor
  functionIDs : Dict Text Text
  sourceDigest : Text
  executors : List Text
  production : Bool

structure Generation where
  checked : Checked
  environment : Environment
  ruleset : Text
  version : Text
  executorDescriptors : Dict Text Descriptor
  functionIDs : Dict Text Text
  sourceDigest : Text
  digest : Text
  executors : List Text

/-- No function is called anywhere in the predicate. -/
def validateGenerationExpression : Expression → Except Err Unit
  | .call function _ =>
    .error (.new (("predicate function " : Text) ++ Text.quote function ++
      (" is unavailable in immutable generations" : Text)))
  | .unary _ operand => validateGenerationExpression operand
  | .binary _ left right => do
    validateGenerationExpression left
    validateGenerationExpression right
  | _ => .ok ()

def validateResolvedGenerationVerb (config : GenerationConfig) (verb : Text) : Except Err Unit :=
  let label := ("production generation verb " : Text) ++ Text.quote verb
  match config.executorDescriptors.get? verb with
  | none => .error (.new (label ++ (" has no canonical descriptor" : Text)))
  | some descriptor =>
    if descriptor.resolverID = [] then
      .error (.new (label ++ (" is callback-only and cannot be recovered" : Text)))
    else if config.executors.contains verb then .ok ()
    else .error (.new (label ++ (" is unresolved" : Text)))

/-- What a generation digest covers. -/
def generationDigestManifest (config : GenerationConfig) (environmentDigest : Text) : Json :=
  .obj [jsonMember "ir_digest" (.ofText config.checked.digest),
    jsonMember "environment_digest" (.ofText environmentDigest), jsonMember "ruleset" (.ofText config.ruleset),
    jsonMember "version" (.ofText config.version), jsonMember "source_digest" (.ofText config.sourceDigest),
    jsonMember "executors" (.arr (config.executorDescriptors.entries.map fun x =>
      .obj [jsonMember "name" (.ofText x.1), jsonMember "descriptor" x.2.document])),
    jsonMember "functions" (.arr (config.functionIDs.entries.map fun x =>
      .obj [jsonMember "name" (.ofText x.1), jsonMember "value" (.ofText x.2)]))]

/-- A copied slice is nil when there is nothing to copy. -/
def cloneGenerationEnvironment (environment : Environment) : Environment :=
  { environment with
    verbs := environment.verbs.map fun contract => { contract with requiredArgs := contract.requiredArgs.filter (· ≠ []) } }

section

variable [Platform]

def checkExecutors (config : GenerationConfig) : Except Err Unit :=
  config.executors.forM fun verb =>
    match config.executorDescriptors.get? verb with
    | none => .error (.new (("generation executor " : Text) ++ Text.quote verb ++
        (" has no canonical descriptor" : Text)))
    | some descriptor =>
      if config.production ∧ Text.trimSpace descriptor.resolverID = [] then
        .error (.new (("production generation executor " : Text) ++ Text.quote verb ++
          (" is callback-only and cannot be recovered" : Text)))
      else .ok ()

def checkProductionVerbs (config : GenerationConfig) : Except Err Unit :=
  config.checked.artifact.plans.forM fun plan => plan.steps.forM fun step => do
    validateResolvedGenerationVerb config step.verb
    match step.compensation with
    | some compensation => validateResolvedGenerationVerb config compensation.inverseVerb
    | none => .ok ()

def newGeneration (config : GenerationConfig) : Except Err Generation :=
  if config.checked.digest = [] then .error (.new "generation checked IR is required")
  else if Text.trimSpace config.ruleset = [] ∨ Text.trimSpace config.version = [] then
    .error (.new "generation ruleset and version are required")
  else
    match environmentDigest config.environment with
    | .error err => .error (err.under "generation environment")
    | .ok digest =>
      if config.checked.artifact.environmentDigest ≠ digest then
        .error (.new "generation environment does not match checked IR")
      else do
        config.checked.artifact.plans.forM fun plan =>
          (validateGenerationExpression plan.predicate).mapError fun err =>
            err.under (("generation plan " : Text) ++ Text.quote plan.id)
        if config.production ∧ Text.trimSpace config.sourceDigest = [] then
          throw (.new "production generation source digest is required")
        checkExecutors config
        if config.production then checkProductionVerbs config
        return {
          checked := config.checked, environment := cloneGenerationEnvironment config.environment
          ruleset := config.ruleset, version := config.version
          executorDescriptors := config.executorDescriptors, functionIDs := config.functionIDs
          sourceDigest := config.sourceDigest, executors := config.executors
          digest := hexEncode (Platform.sha256 (generationDigestManifest config digest).render) }

end

/-- `json.Marshal` of the artifact's compiler metadata, with empty fields left out. -/
def CompilerMetadata.json (metadata : CompilerMetadata) : Json :=
  .obj ((if metadata.name = [] then [] else [jsonMember "name" (.ofText metadata.name)]) ++
    (if metadata.version = [] then [] else [jsonMember "version" (.ofText metadata.version)]) ++
    (if metadata.buildDigest = [] then [] else [jsonMember "build_digest" (.ofText metadata.buildDigest)]))

/-! ### Artifacts -/

/-- `json.Marshal` of a copied slice, which is nil when there was nothing to copy. -/
def Json.ofCopied (ts : List Text) : Json := if ts = [] then .null else .ofTexts ts

def VerbContract.document (contract : VerbContract) : Json :=
  .obj ([jsonMember "arguments" (.ofDict .ofText contract.arguments),
      jsonMember "required_args" (.ofCopied (contract.requiredArgs.getD [])),
      jsonMember "result_type" (.ofText contract.resultType)] ++
    (if contract.inverseVerb = [] then [] else [jsonMember "inverse_verb" (.ofText contract.inverseVerb)]) ++
    [jsonMember "retry_policy" contract.retryPolicy.json,
      jsonMember "idempotency_policy" (.ofText contract.idempotencyPolicy),
      jsonMember "fencing_required" (.bool contract.fencingRequired)])

def FunctionContract.document (contract : FunctionContract) : Json :=
  .obj [jsonMember "argument_types" (.ofCopied contract.argumentTypes),
    jsonMember "return_type" (.ofText contract.returnType), jsonMember "pure" (.bool contract.pure),
    jsonMember "total" (.bool contract.total)]

/-- `json.Marshal` of the environment of a generation. -/
def Environment.document (env : Environment) : Json :=
  .obj [jsonMember "facts" (.ofDict .ofText env.facts), jsonMember "verbs" (.ofDict VerbContract.document env.verbs),
    jsonMember "functions" (.ofDict FunctionContract.document env.functions),
    jsonMember "types" (.ofDict TypeDefinition.json env.types)]

/-- The identity part of an artifact's function manifest. -/
structure GenerationIdentity where
  ruleset : Text
  version : Text
  functionIDs : Dict Text Text

def GenerationIdentity.json (identity : GenerationIdentity) : Json :=
  .obj [jsonMember "ruleset" (.ofText identity.ruleset), jsonMember "version" (.ofText identity.version),
    jsonMember "function_ids" (.ofDict .ofText identity.functionIDs)]

/-- What is pinned of a generation, its documents as the values they are written from. -/
structure GenerationArtifact where
  generationDigest : Text
  irDigest : Text
  irBytes : Text
  environment : Environment
  executorManifest : Json
  functionManifest : GenerationIdentity
  sourceDigest : Text
  compilerMetadata : Json

/-- The artifact as it is stored. -/
def GenerationArtifact.encode (artifact : GenerationArtifact) : ExecutionArtifact where
  generationDigest := artifact.generationDigest
  irDigest := artifact.irDigest
  irBytes := artifact.irBytes
  environment := artifact.environment.document.render
  executorManifest := artifact.executorManifest.render
  functionManifest := artifact.functionManifest.json.render
  sourceDigest := artifact.sourceDigest
  compilerMetadata := artifact.compilerMetadata.render

namespace Generation

def plans (g : Generation) : List Plan := g.checked.artifact.plans

/-- `executionArtifactForGeneration`. -/
def executionArtifact (g : Generation) : GenerationArtifact where
  generationDigest := g.digest
  irDigest := g.checked.digest
  irBytes := g.checked.wire
  environment := g.environment
  executorManifest := .arr (g.executorDescriptors.entries.map fun x =>
    .obj [jsonMember "name" (.ofText x.1), jsonMember "descriptor" x.2.document])
  functionManifest := ⟨g.ruleset, g.version, g.functionIDs⟩
  sourceDigest := g.sourceDigest
  compilerMetadata := (g.checked.artifact.compiler.map CompilerMetadata.json).getD .null

end Generation

end Effectus

import Effectus.Bundle.Source

/-!
Building a generation from a source bundle, and again from the artifact pinned with an execution. What reads and lowers
the sources is a parameter: it gives the plans of the bundle in canonical order.
-/

namespace Effectus

/-- A resolver makes an executor for a descriptor, or fails. -/
structure Registry where
  resolvers : Dict Text (Descriptor → Except Err Unit)

def Registry.resolve (registry : Registry) (descriptor : Descriptor) : Except Err Unit :=
  if descriptor.resolverID = [] then .error (.new "callback-only invocation descriptor cannot be resolved")
  else
    match registry.resolvers.get? descriptor.resolverID with
    | none => .error (.new (("invocation resolver " : Text) ++ Text.quote descriptor.resolverID ++
        (" is not registered" : Text)))
    | some resolver => (resolver descriptor).mapError fun err =>
        err.under (("resolve invocation descriptor " : Text) ++ Text.quote descriptor.resolverID)

/-! ### Compiling -/

structure CompileOptions where
  executionPolicy : ExecutionPolicy
  limits : Limits

structure GenerationBuildConfig where
  bundle : SourceBundle
  compileOptions : CompileOptions
  resolvers : Option Registry
  functionIDs : Dict Text Text
  production : Bool

/-- The plans of the sources under an environment and a policy. -/
abbrev LowerSources := List Source → Environment → ExecutionPolicy → Except Err (List Plan)

def checkedCompilerName : Text := "effectusc"

def checkedCompilerVersion : Text := "checked-ir-v1"

/-- The policy to compile with; fail-fast when none is given. -/
def compilePolicy : ExecutionPolicy → Except Err ExecutionPolicy
  | .unspecified | .durableFailFast => .ok .durableFailFast
  | .durableCompensating => .ok .durableCompensating
  | .other n => .error (.new (("compile checked: unsupported execution policy " : Text) ++ Text.ofInt n))

section

variable [Platform]

/-- What the compiler hands to the checker. -/
def compiledArtifact (digest : Text) (plans : List Plan) : RuleArtifact where
  formatVersion := 1
  compiler := some ⟨checkedCompilerName, checkedCompilerVersion,
    hexEncode (Platform.sha256 (checkedCompilerName ++ 0 :: checkedCompilerVersion))⟩
  environmentDigest := digest
  plans := plans
  unknownFields := none

variable [Protobuf]

def compileChecked (lower : LowerSources) (bundle : SourceBundle) (options : CompileOptions) : Except Err Checked := do
  let policy ← compilePolicy options.executionPolicy
  let plans ← (lower bundle.sources bundle.environment policy).mapError (·.under "compile checked")
  let digest ← (environmentDigest bundle.environment).mapError (·.under "compile checked: environment")
  (checkArtifact (compiledArtifact digest plans) bundle.environment options.limits).mapError
    (·.under "compile checked: validate lowered artifact")

/-- Every verb a plan may call has a descriptor. -/
def checkDescribed (descriptors : Dict Text Descriptor) (verb : Text) : Except Err Unit :=
  if (descriptors.get? verb).isNone then
    .error (.new (("compile generation: checked verb " : Text) ++ Text.quote verb ++
      (" has no invocation descriptor" : Text)))
  else .ok ()

end

/-! ### Resolving -/

/-- Reading protobuf: the message, or nothing where the bytes are not one. -/
class ProtobufReader where
  unmarshal : Text → Option RuleArtifact

/-- The last member of an object under a name. -/
def Json.member? (members : List (Utf8Text × Json)) (name : Text) : Option Json :=
  ((members.filter fun x => x.1.bytes = name).getLast?).map Prod.snd

/-- The descriptor a canonical document is of. -/
def decodeDescriptor (document : Json) : Descriptor :=
  match document with
  | .obj members =>
    match Json.member? members "resolver_id" with
    | some (.str id) => ⟨document, id.bytes⟩
    | _ => ⟨document, []⟩
  | _ => ⟨document, []⟩

/-- An entry of the executor manifest; a field that is missing has its zero value. -/
def decodeExecutorEntry : Json → Except Err (Text × Descriptor)
  | .obj members =>
    match members.find? fun x => x.1.bytes ≠ ("name" : Text) ∧ x.1.bytes ≠ ("descriptor" : Text) with
    | some x => .error (.new (("json: unknown field " : Text) ++ Text.quote x.1.bytes))
    | none =>
      let descriptor := ((Json.member? members "descriptor").map decodeDescriptor).getD ⟨.null, []⟩
      match Json.member? members "name" with
      | some (.str name) => .ok (name.bytes, descriptor)
      | some .null | none => .ok ([], descriptor)
      | some _ => .error (.new "json: cannot unmarshal into Go struct field artifactExecutorEntry.name of type string")
  | .null => .ok ([], ⟨.null, []⟩)
  | _ => .error (.new "json: cannot unmarshal into Go value of type runtime.artifactExecutorEntry")

def decodeExecutorManifest : Json → Except Err (List (Text × Descriptor))
  | .arr items => items.mapM decodeExecutorEntry
  | .null => .ok []
  | _ => .error (.new "json: cannot unmarshal into Go value of type []runtime.artifactExecutorEntry")

section

variable [Platform] [Protobuf] [ProtobufReader]

/-- `ir.Parse`. -/
def parseArtifact (data : Text) (environment : Environment) (limits : Limits) : Except Err Checked := do
  let limits ← limits.withDefaults
  if limits.maxArtifactBytes < data.length then throw (limitError "artifact bytes" data.length limits.maxArtifactBytes)
  match ProtobufReader.unmarshal data with
  | none => throw (invalid "decode protobuf")
  | some artifact => checkArtifact artifact environment limits

/-- One entry of the manifest: its verb is declared and its descriptor resolves. -/
def resolveEntry (registry : Registry) (environment : Environment) (entry : Text × Descriptor) : Except Err Unit :=
  if (environment.verbs.get? entry.1).isNone then
    .error (.new (("executor " : Text) ++ Text.quote entry.1 ++ (" has no checked contract" : Text)))
  else (registry.resolve entry.2).mapError fun err => err.under (("resolve verb " : Text) ++ Text.quote entry.1)

/-- `ManifestArtifactResolver.ResolveGeneration`, of documents that are read back as what they were written from. -/
def resolveGeneration (registry : Registry) (artifact : GenerationArtifact) : Except Err Generation := do
  let checked ← (parseArtifact artifact.irBytes artifact.environment Limits.zero).mapError (·.under "parse checked artifact")
  if checked.digest ≠ artifact.irDigest then throw (.new "checked artifact digest mismatch")
  let entries ← (decodeExecutorManifest artifact.executorManifest).mapError (·.under "decode executor manifest")
  entries.forM (resolveEntry registry artifact.environment)
  let generation ← newGeneration {
    checked := checked, environment := artifact.environment, ruleset := artifact.functionManifest.ruleset
    version := artifact.functionManifest.version, executorDescriptors := .ofEntries entries
    functionIDs := artifact.functionManifest.functionIDs, sourceDigest := artifact.sourceDigest
    executors := entries.map Prod.fst, production := true }
  if generation.digest ≠ artifact.generationDigest then
    throw (.new "resolved generation digest does not match pinned artifact")
  return generation

end

end Effectus

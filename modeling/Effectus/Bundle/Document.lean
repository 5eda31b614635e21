import Effectus.Bundle.Source
import Effectus.Invocation.Descriptor

/-!
Source bundles as files. A bundle is written as one JSON document, on its own or as the only entry of a tar layer, and read
back strictly; what is read is made into a bundle again, with every check of a new one.
-/

namespace Effectus

open JsonSchema Invocation

/-! ### Declarations -/

def retryPolicySchema : Schema :=
  .struct [("max_attempts", .uint 32), ("initial_backoff_millis", .uint 64), ("max_backoff_millis", .uint 64)] []

def verbContractSchema : Schema :=
  .struct [("arguments", .map .string), ("required_args", .slice .string), ("result_type", .string),
    ("inverse_verb", .string), ("retry_policy", retryPolicySchema), ("idempotency_policy", .string),
    ("fencing_required", .bool)] ["inverse_verb"]

def functionContractSchema : Schema :=
  .struct [("argument_types", .slice .string), ("return_type", .string), ("pure", .bool), ("total", .bool)] []

def typeDefinitionSchema : Schema :=
  .struct [("kind", .string), ("element_type", .string), ("fields", .map .string), ("required_fields", .slice .string)]
    ["element_type", "fields", "required_fields"]

def environmentSchema : Schema :=
  .struct [("facts", .map .string), ("verbs", .map verbContractSchema), ("functions", .map functionContractSchema),
    ("types", .map typeDefinitionSchema)] []

def RetryPolicy.ofValue (v : Value) : RetryPolicy where
  maxAttempts := .ofNat (v.field "max_attempts").number
  initialBackoffMillis := .ofNat (v.field "initial_backoff_millis").number
  maxBackoffMillis := .ofNat (v.field "max_backoff_millis").number

/-- The required arguments, unless the slice is nil. -/
def requiredOf : Value → Option (List Text)
  | .slice items => some (items.map Value.text)
  | _ => none

def VerbContract.ofValue (v : Value) : VerbContract where
  arguments := (v.field "arguments").dict Value.text
  requiredArgs := requiredOf (v.field "required_args")
  resultType := (v.field "result_type").text
  inverseVerb := (v.field "inverse_verb").text
  retryPolicy := .ofValue (v.field "retry_policy")
  idempotencyPolicy := (v.field "idempotency_policy").text
  fencingRequired := (v.field "fencing_required").flag

def FunctionContract.ofValue (v : Value) : FunctionContract where
  argumentTypes := (v.field "argument_types").texts
  returnType := (v.field "return_type").text
  pure := (v.field "pure").flag
  total := (v.field "total").flag

def TypeDefinition.ofValue (v : Value) : TypeDefinition where
  kind := (v.field "kind").text
  elementType := (v.field "element_type").text
  fields := (v.field "fields").dict Value.text
  requiredFields := (v.field "required_fields").texts

/-- The declarations a value of the type `ir.Environment` stands for. -/
def Environment.ofValue (v : Value) : Environment where
  facts := (v.field "facts").dict Value.text
  verbs := (v.field "verbs").dict VerbContract.ofValue
  functions := (v.field "functions").dict FunctionContract.ofValue
  types := (v.field "types").dict TypeDefinition.ofValue

/-- `cloneEnvironment`: a copy through its JSON. -/
def cloneEnvironment (environment : Value) : Value :=
  ((Json.readOnly (marshal environmentSchema environment)).bind (decode environmentSchema (zero environmentSchema))).getD
    (zero environmentSchema)

/-! ### Bundles -/

/-- The descriptor of a document. -/
def descriptorOf [Casing] (document : DescriptorDocument) : Descriptor :=
  ⟨encode descriptorSchema document.toValue, document.resolverID⟩

/-- What a bundle is made from. The environment is a value of its type, with nil slices and maps. -/
structure PortableSpec where
  name : Text
  version : Text
  sources : List Source
  environment : Value
  executors : Dict Text DescriptorDocument
  metadata : Dict Text Text

/-- A bundle with all that its file holds. -/
structure PortableBundle where
  name : Text
  version : Text
  sources : List Source
  environment : Value
  executors : Dict Text DescriptorDocument
  metadata : Dict Text Text

namespace PortableBundle

section

variable [Platform] [Casing]

def checkExecutor (environment : Environment) (entry : Text × DescriptorDocument) : Except Err Unit := do
  checkBundleExecutor environment entry.1
  entry.2.validate.mapError (·.under (("source bundle executor " : Text) ++ Text.quote entry.1))

/-- `bundle.New`. The source goes through its maps in no fixed order; that decides only which of several errors it reports. -/
def new (spec : PortableSpec) : Except Err PortableBundle := do
  if Text.trimSpace spec.name = [] ∨ Text.trimSpace spec.name ≠ spec.name then
    throw (.new "source bundle name is required and must be normalized")
  if Text.trimSpace spec.version = [] ∨ Text.trimSpace spec.version ≠ spec.version then
    throw (.new "source bundle version is required and must be normalized")
  let _ ← (environmentDigest (.ofValue spec.environment)).mapError (·.under "source bundle declarations")
  let sources ← spec.sources.foldlM addSource []
  spec.executors.entries.forM (checkExecutor (.ofValue spec.environment))
  spec.metadata.entries.forM fun entry => checkMetadataKey entry.1
  return {
    name := spec.name, version := spec.version
    sources := sources.insertionSort fun a b => Text.lt b.path a.path = false
    environment := cloneEnvironment spec.environment, executors := spec.executors, metadata := spec.metadata }

end

/-! ### Writing -/

def sourceSchema : Schema := .struct [("path", .string), ("content", .string)] []

section

variable [Casing]

def namedDescriptorSchema : Schema := .struct [("verb", .string), ("descriptor", descriptorSchema)] []

def semanticFields : List (Text × Schema) :=
  [("format_version", .string), ("name", .string), ("version", .string), ("sources", .slice sourceSchema),
    ("environment", environmentSchema), ("executors", .slice namedDescriptorSchema)]

def semanticSchema : Schema := .struct semanticFields ["executors"]

def documentSchema : Schema := .struct (semanticFields ++ [(("metadata" : Text), .slice kvSchema)]) ["executors", "metadata"]

end

def sourceValue (source : Source) : Value := .struct [("path", .string source.path), ("content", .string source.content)]

def semanticValues (bundle : PortableBundle) : List (Text × Value) :=
  [("format_version", .string bundleFormatVersion), ("name", .string bundle.name), ("version", .string bundle.version),
    ("sources", .slice (bundle.sources.map sourceValue)), ("environment", bundle.environment),
    ("executors", .slice (bundle.executors.entries.map fun entry =>
      .struct [("verb", .string entry.1), ("descriptor", entry.2.toValue)]))]

/-- Metadata comes in the order of its names. -/
def document (bundle : PortableBundle) : Value :=
  .struct (bundle.semanticValues ++
    [(("metadata" : Text), .slice (bundle.metadata.entries.map fun entry => DescriptorKV.toValue ⟨entry.1, entry.2⟩))])

section

variable [Casing]

def bytes (bundle : PortableBundle) : Text := marshal documentSchema bundle.document

def digest [Platform] (bundle : PortableBundle) : Text :=
  ("sha256:" : Text) ++ hexEncode (Platform.sha256 (marshal semanticSchema (.struct bundle.semanticValues)))

end

/-! ### Compiling -/

/-- `Environment`: one more copy. -/
def environmentCopy (bundle : PortableBundle) : Value := cloneEnvironment bundle.environment

section

variable [Platform] [Casing]

def compiled (bundle : PortableBundle) : SourceBundle where
  name := bundle.name
  version := bundle.version
  sources := bundle.sources
  environment := .ofValue bundle.environmentCopy
  executors := bundle.executors.map descriptorOf
  digest := bundle.digest

end

/-! ### Reading -/

section

variable [Platform] [Casing]

/-- The executors so far, with one more. -/
def addExecutor (executors : Dict Text DescriptorDocument) (item : Value) : Except Err (Dict Text DescriptorDocument) :=
  let verb := (item.field "verb").text
  if (executors.get? verb).isSome then .error (.new (("source bundle repeats executor " : Text) ++ Text.quote verb))
  else .ok (executors.set verb (.ofValue (item.field "descriptor")))

def addMetadata (metadata : Dict Text Text) (item : Value) : Except Err (Dict Text Text) :=
  let kv := DescriptorKV.ofValue item
  if (metadata.get? kv.name).isSome then .error (.new (("source bundle repeats metadata " : Text) ++ Text.quote kv.name))
  else .ok (metadata.set kv.name kv.value)

def sourceOf (item : Value) : Source := ⟨(item.field "path").text, (item.field "content").text⟩

/-- A decoded document, made into a bundle. -/
def ofDocument (v : Value) : Except Err PortableBundle := do
  if (v.field "format_version").text ≠ bundleFormatVersion then
    throw (.new (("unsupported source bundle format " : Text) ++ Text.quote (v.field "format_version").text))
  let executors ← (v.field "executors").items.foldlM addExecutor .empty
  let metadata ← (v.field "metadata").items.foldlM addMetadata .empty
  new {
    name := (v.field "name").text, version := (v.field "version").text
    sources := (v.field "sources").items.map sourceOf, environment := v.field "environment"
    executors := executors, metadata := metadata }

/-- `bundle.Parse`. What the decoder has to say about a document is left out. -/
def parse (data : Text) : Except Err PortableBundle :=
  match unmarshalStrict documentSchema data with
  | none => .error (.new "decode source bundle")
  | some v => ofDocument v

end

end PortableBundle

/-- A new bundle, as it is compiled. -/
def SourceBundle.new [Platform] [Casing] (spec : PortableSpec) : Except Err SourceBundle :=
  (PortableBundle.new spec).map PortableBundle.compiled

/-! ### Layers -/

/-- An entry of a tar file, with what can be read of it. -/
structure TarEntry where
  name : Text
  isRegular : Bool
  size : Nat
  content : Option Text
  deriving DecidableEq

/-- `archive/tar`: a file of one regular entry, and the entries of a file up to its end or an error. -/
class Archive where
  pack : Text → Text → Text
  unpack : Text → List TarEntry × Option Err

namespace PortableBundle

def ociManifestPath : Text := "effectus/source-bundle.json"

/-- The entries that are left, and the manifest if it was there. -/
def readLayer : Option Text → List TarEntry → Except Err (Option Text)
  | manifest, [] => .ok manifest
  | manifest, entry :: rest =>
    if entry.name ≠ ociManifestPath ∨ entry.isRegular = false ∨ manifest.isSome then
      .error (.new (("decode source bundle OCI layer: unexpected entry " : Text) ++ Text.quote entry.name))
    else
      match entry.content.map fun content => content.take (entry.size + 1) with
      | some content =>
        if content.length = entry.size then readLayer (some content) rest
        else .error (.new "decode source bundle OCI layer: invalid manifest")
      | none => .error (.new "decode source bundle OCI layer: invalid manifest")

section

variable [Casing] [Archive]

def ociBytes (bundle : PortableBundle) : Text := Archive.pack ociManifestPath bundle.bytes

variable [Platform]

def parseOCI (data : Text) : Except Err PortableBundle := do
  match ← readLayer none (Archive.unpack data).1, (Archive.unpack data).2 with
  | _, some err => throw (err.under "decode source bundle OCI layer")
  | none, none => throw (.new "decode source bundle OCI layer: manifest is missing")
  | some manifest, none => parse manifest

end

end PortableBundle

end Effectus

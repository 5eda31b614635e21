import Effectus.Runtime.Engine

/-!
The four ways a request reaches the engine: the daemon's HTTP route, the gRPC service, the embedded runtime and the
Kafka handler. Each checks its input and makes an admission of it, with the identities it derives on its own.
-/

namespace Effectus

section

variable [Platform]

/-- `StableAdmissionID`. -/
def stableAdmissionID (ns deliveryID ruleset version : Text) : Text := hashIdentity [ns, deliveryID, ruleset, version]

/-- `StableExecutionID`. -/
def stableExecutionID (ns deliveryID ruleset version : Text) : Text := stableAdmissionID ns deliveryID ruleset version

end

namespace Transport

/-! ### JSON bodies -/

/-- `foldName` on the runes that fold to ASCII letters; no other rune matches the name of a field. -/
def foldName : Text → Text
  | 0xC5 :: 0xBF :: t => 0x53 :: foldName t
  | 0xE2 :: 0x84 :: 0xAA :: t => 0x4B :: foldName t
  | b :: t => (if 0x61 ≤ b ∧ b ≤ 0x7A then b - 0x20 else b) :: foldName t
  | [] => []

/-- A field of a struct that is decoded: its name, and what a value does to the struct. -/
structure Field (α : Type) where
  name : Text
  decode : α → Json → Option α

/-- A string field: null leaves it as it is. -/
def Field.text {α : Type} (name : Text) (set : α → Text → α) : Field α where
  name := name
  decode := fun a value =>
    match value with
    | .null => some a
    | .str s => some (set a s.bytes)
    | _ => none

/-- A map field: null makes it nil, and an object adds to what was there. -/
def Field.map {α : Type} (name : Text) (get : α → Option FactMap) (set : α → Option FactMap → α) : Field α where
  name := name
  decode := fun a value =>
    match value with
    | .null => some (set a none)
    | .obj members =>
      some (set a (some ((GoValue.ofJsonMembers members).foldl (fun facts entry => Assoc.set facts entry.1 entry.2)
        ((get a).getD []))))
    | _ => none

/-- A `json.RawMessage`, which nothing reads. -/
def Field.raw {α : Type} (name : Text) : Field α := ⟨name, fun a _ => some a⟩

/-- One JSON value into a struct, with `DisallowUnknownFields`; null leaves the struct as it is. -/
def decodeStruct {α : Type} (fields : List (Field α)) (zero : α) : Json → Option α
  | .null => some zero
  | .obj members => members.foldlM (fun a member =>
      (fields.find? fun field => foldName field.name == foldName member.1.bytes).bind fun field =>
        field.decode a member.2) zero
  | _ => none

/-- A body that holds one value. -/
def decodeBody {α : Type} (fields : List (Field α)) (zero : α) (body : Text) : Option α :=
  match Json.decodeFirst body with
  | none => none
  | some (document, rest) => if Json.skipSpace rest ≠ [] then none else decodeStruct fields zero document

/-! ### HTTP -/

structure ExecuteBody where
  ns : Text
  universe' : Text
  facts : Option FactMap

def ExecuteBody.fields : List (Field ExecuteBody) :=
  [.text "namespace" fun b t => { b with ns := t }, .text "universe" fun b t => { b with universe' := t },
    .map "facts" (·.facts) fun b facts => { b with facts := facts }]

def maxHTTPBodyBytes : Nat := 2 ^ 20

/-- `Idempotency-Key` and `If-Match` as the route reads them, and the body. -/
structure HTTPRequest where
  idempotencyKey : Text
  ifMatch : Text
  body : Text

/-- What the engine serves: `GenerationView`. -/
structure GenerationView where
  ruleset : Text
  version : Text

/-- A refused request: the status and the error of the answer. -/
structure Refusal where
  status : Nat
  error : Text
  deriving DecidableEq

/-- `strings.Trim(_, "\"")`. -/
def trimQuotes (t : Text) : Text := ((t.dropWhile (· == 0x22)).reverse.dropWhile (· == 0x22)).reverse

section

variable [Platform]

/-- The identity part that three of the transports share. -/
def keyedAdmission (ns key ruleset version : Text) (facts : FactMap) (expectedGenerationDigest : Text) : Admission where
  executionID := stableExecutionID ns key ruleset version
  admissionID := stableAdmissionID ns key ruleset version
  tenantNamespace := ns
  ruleset := ruleset
  version := version
  facts := facts
  mergePolicy := []
  expectedGenerationDigest := expectedGenerationDigest

/-- The body of `/v1/execute`, once it is decoded: the universe stands in for a namespace that is not given. -/
def bodyNamespace (body : ExecuteBody) : Except Refusal Text :=
  let ns := Text.trimSpace body.ns
  let universe' := Text.trimSpace body.universe'
  if ns ≠ [] ∧ universe' ≠ [] ∧ ns ≠ universe' then .error ⟨400, "namespace and universe disagree"⟩
  else
    let ns := if ns = [] then universe' else ns
    if ns = [] then .error ⟨400, "namespace is required"⟩ else .ok ns

/-- The route `/v1/execute`. -/
def httpAdmission (view : GenerationView) (request : HTTPRequest) : Except Refusal Admission := do
  if maxHTTPBodyBytes < request.body.length then throw ⟨413, "request body exceeds 1 MiB"⟩
  let key := Text.trimSpace request.idempotencyKey
  if key = [] then throw ⟨400, "Idempotency-Key header is required"⟩
  match decodeBody ExecuteBody.fields ⟨[], [], none⟩ request.body with
  | none => throw ⟨400, "invalid request JSON"⟩
  | some body =>
    let ns ← bodyNamespace body
    match body.facts with
    | none => throw ⟨400, "facts must be a JSON object"⟩
    | some facts =>
      return keyedAdmission ns key view.ruleset view.version facts (trimQuotes (Text.trimSpace request.ifMatch))

end

/-! ### gRPC -/

/-- `ExecutionOptions`. -/
structure ExecutionOptions where
  dryRun : Bool
  maxEffects : Int
  timeoutSeconds : Int
  enableTracing : Bool
  capabilityFilter : List Text
  minSchemaVersion : Text
  maxSchemaVersion : Text

inductive ExecutionWaitMode where
  | unspecified
  | accepted
  | terminal
  | other (n : Int)

/-- The facts of a request that predates `typed_facts`: a `Struct`, or a message of another type. -/
inductive LegacyFacts where
  | struct (facts : FactMap)
  | other

/-- `ExecutionRequest`, as far as it is read. -/
structure ExecutionRequest where
  rulesetName : Text
  version : Text
  idempotencyKey : Text
  typedFacts : Option FactMap
  facts : Option LegacyFacts
  hasSchemaValidation : Bool
  options : Option ExecutionOptions
  waitMode : ExecutionWaitMode
  generationDigest : Text
  ns : Text

inductive Code where
  | invalidArgument
  | notFound
  deriving DecidableEq

/-- A `status.Error`. -/
structure Status where
  code : Code
  message : Text
  deriving DecidableEq

def invalid (message : Text) : Status := ⟨.invalidArgument, message⟩

def validateExecutionOptions : Option ExecutionOptions → Except Status Unit
  | none => .ok ()
  | some options =>
    if options.dryRun then .error (invalid "options.dry_run is not supported")
    else if options.maxEffects ≠ 0 then .error (invalid "options.max_effects is not supported")
    else if options.enableTracing then .error (invalid "options.enable_tracing is not supported")
    else if options.capabilityFilter ≠ [] then .error (invalid "options.capability_filter is not supported")
    else if options.minSchemaVersion ≠ [] then .error (invalid "options.min_schema_version is not supported")
    else if options.maxSchemaVersion ≠ [] then .error (invalid "options.max_schema_version is not supported")
    else if options.timeoutSeconds < 0 then .error (invalid "options.timeout_seconds must not be negative")
    else .ok ()

def grpcWaitMode : ExecutionWaitMode → Except Status RequestedWait
  | .unspecified | .terminal => .ok .terminal
  | .accepted => .ok .accepted
  | .other _ => .error (invalid "invalid wait_mode")

/-- Typed facts win over those of an older client. -/
def grpcFacts (request : ExecutionRequest) : Except Status FactMap :=
  match request.typedFacts, request.facts with
  | some facts, _ => .ok facts
  | none, some (.struct facts) => .ok facts
  | none, some .other => .error (invalid "legacy facts must contain google.protobuf.Struct")
  | none, none => .error (invalid "typed_facts are required")

section

variable [Platform]

/-- `ExecuteRuleset` of a service that serves one ruleset and has an engine with a generation. -/
def grpcAdmission (view : GenerationView) (request : ExecutionRequest) : Except Status Admission := do
  if request.rulesetName ≠ view.ruleset ∨ request.version ≠ view.version then
    throw ⟨.notFound, "requested ruleset version is unavailable"⟩
  let key := Text.trimSpace request.idempotencyKey
  if key = [] then throw (invalid "idempotency_key is required")
  let facts ← grpcFacts request
  match canonicalJSONValue (.ofMap facts) with
  | .error _ => throw (invalid "facts contain invalid values")
  | .ok _ =>
    if request.hasSchemaValidation then throw (invalid "schema_validation is not supported")
    validateExecutionOptions request.options
    let _ ← grpcWaitMode request.waitMode
    let ns := Text.trimSpace request.ns
    if ns = [] then throw (invalid "namespace is required")
    return keyedAdmission ns key request.rulesetName request.version facts (Text.trimSpace request.generationDigest)

/-! ### Embedded -/

/-- `embedded.Request`, as far as the identities read it. -/
structure EmbeddedRequest where
  ns : Text
  idempotencyKey : Text
  facts : Option FactMap

/-- `Runtime.Execute`, with the digest of the generation its engine serves. -/
def embeddedAdmission (view : GenerationView) (digest : Text) (request : EmbeddedRequest) : Except Err Admission :=
  let ns := Text.trimSpace request.ns
  let key := Text.trimSpace request.idempotencyKey
  match request.facts with
  | none => .error (.new "embedded namespace, idempotency key, and facts are required")
  | some facts =>
    if ns = [] ∨ key = [] then .error (.new "embedded namespace, idempotency key, and facts are required")
    else .ok (keyedAdmission ns key view.ruleset view.version facts digest)

end

/-! ### Kafka -/

/-- Where a record is. -/
structure KafkaMessage where
  topic : Text
  partition : Int
  offset : Int
  value : Text

/-- `DeliveryID`. -/
def deliveryID (clusterNamespace : Text) (message : KafkaMessage) : Text :=
  ("kafka/" : Text) ++ clusterNamespace ++ ("/" : Text) ++ message.topic ++ ("/" : Text) ++
    (JsonNumber.ofInt message.partition).text ++ ("/" : Text) ++ (JsonNumber.ofInt message.offset).text

/-- `EngineHandlerConfig` after `NewEngineHandler` filled it in. -/
structure KafkaConfig where
  clusterNamespace : Text
  ruleset : Text
  version : Text
  defaultTenant : Text
  maxMessageBytes : Int

/-- The envelope of a record; its universe and the time it was received are not read. -/
structure Envelope where
  ns : Text
  facts : Option FactMap

def Envelope.fields : List (Field Envelope) :=
  [.text "namespace" fun e t => { e with ns := t }, .text "universe" fun e _ => e, .raw "received_at",
    .map "facts" (·.facts) fun e facts => { e with facts := facts }]

/-- Whose record it is. -/
def KafkaConfig.tenant (config : KafkaConfig) (envelope : Envelope) : Text :=
  if envelope.ns = [] then config.defaultTenant else envelope.ns

section

variable [Platform]

/-- The handler's `Handle`, up to the engine. -/
def kafkaAdmission (config : KafkaConfig) (message : KafkaMessage) : Except Err Admission := do
  if config.maxMessageBytes < message.value.length then
    throw (.new (("Kafka fact message exceeds " : Text) ++ Text.ofInt config.maxMessageBytes ++ (" bytes" : Text)))
  match decodeBody Envelope.fields ⟨[], none⟩ message.value with
  | none => throw (.new "decode Kafka facts")
  | some envelope =>
    let facts := envelope.facts.getD []
    if facts = [] then throw (.new "Kafka facts are required")
    let tenant := config.tenant envelope
    let id := deliveryID config.clusterNamespace message
    return {
      executionID := stableExecutionID tenant id config.ruleset config.version
      admissionID := id, tenantNamespace := tenant, ruleset := config.ruleset, version := config.version
      facts := facts, mergePolicy := [], expectedGenerationDigest := [] }

/-! ### A request of any transport -/

inductive Request where
  | http (view : GenerationView) (request : HTTPRequest)
  | grpc (view : GenerationView) (request : ExecutionRequest)
  | embedded (view : GenerationView) (digest : Text) (request : EmbeddedRequest)
  | kafka (config : KafkaConfig) (message : KafkaMessage)

/-- The admission of a request that passes the checks of its transport. -/
def Request.admission? : Request → Option Admission
  | .http view request => (httpAdmission view request).toOption
  | .grpc view request => (grpcAdmission view request).toOption
  | .embedded view digest request => (embeddedAdmission view digest request).toOption
  | .kafka config message => (kafkaAdmission config message).toOption

end

end Transport

end Effectus

import Effectus.Invocation.Http
import Effectus.Lib.JsonTyped
import Effectus.Runtime.Build

/-!
The other side of the HTTP boundary: a request is decoded and its arguments are compared with their digest before the
business function is called, and its outcome becomes the answer.
-/

namespace Effectus

namespace Invocation

/-! ### Fields -/

/-- `strconv.ParseUint(_, 10, 64)`. -/
def parseUint64 (t : Text) : Option Nat :=
  if t = [] ∨ t.all Text.isDigit = false then none
  else if Text.digitsValue 0 t < 2 ^ 64 then some (Text.digitsValue 0 t)
  else none

/-- `hex.DecodeString`. -/
def hexDecode : Text → Option Text
  | [] => some []
  | [_] => none
  | a :: b :: t => do
    let high ← Json.hexValue a
    let low ← Json.hexValue b
    let rest ← hexDecode t
    return UInt8.ofNat (high * 16 + low) :: rest

/-- A direction by its text. -/
def directionOf (t : Text) : Option Direction := [Direction.forward, .compensation].find? fun d => d.text == t

def grantSchema : JsonSchema.Schema := .struct [("authority", .string), ("resource", .string), ("token", .uint 64)] []

def grantOf (v : JsonSchema.Value) : FencingGrant :=
  ⟨(v.field "authority").text, (v.field "resource").text, (v.field "token").number⟩

/-- `json.Unmarshal` into a slice of grants. -/
def decodeGrants (raw : Text) : Option (List FencingGrant) :=
  (JsonSchema.unmarshal (.slice grantSchema) raw).map fun v => v.items.map grantOf

/-! ### Requests -/

/-- `invocation.Context`. -/
structure Metadata where
  requestID : Text
  executionID : Text
  sagaID : Text
  effectID : Text
  attempt : Nat
  direction : Direction
  idempotencyKey : Text
  fencingGrants : List FencingGrant
  deadline : Time

/-- A field that must be there. -/
def requiredHeader (headers : Http.Header) (name : Text) : Except Err Text :=
  if Text.trimSpace (headers.get name) = [] then .error (.new (name ++ (" header is required" : Text)))
  else .ok (Text.trimSpace (headers.get name))

/-- A field that is read if it is there. -/
def optionalHeader {α : Type} (headers : Http.Header) (name : Text) (unset : α) (read : Text → Option α) : Except Err α :=
  if Text.trimSpace (headers.get name) = [] then .ok unset
  else
    match read (Text.trimSpace (headers.get name)) with
    | none => .error (.new (name ++ (" header is invalid" : Text)))
    | some value => .ok value

def decodeMetadata (headers : Http.Header) : Except Err Metadata := do
  let executionID ← requiredHeader headers headerExecutionID
  let sagaID ← requiredHeader headers headerSagaID
  let effectID ← requiredHeader headers headerEffectID
  let idempotencyKey ← requiredHeader headers headerIdempotencyKey
  let attempt ←
    match parseUint64 (Text.trimSpace (headers.get headerAttempt)) with
    | none | some 0 => .error (.new (headerAttempt ++ (" header must be a positive integer" : Text)))
    | some attempt => .ok attempt
  let direction ←
    match directionOf (Text.trimSpace (headers.get headerDirection)) with
    | none => .error (.new (headerDirection ++ (" header must be forward or compensation" : Text)))
    | some direction => .ok direction
  let requestID ← requiredHeader headers headerRequestID
  let deadline ← optionalHeader headers headerDeadline 0 Rfc3339.parse
  let fencingGrants ← optionalHeader headers headerFencingGrants [] decodeGrants
  return ⟨requestID, executionID, sagaID, effectID, attempt, direction, idempotencyKey, fencingGrants, deadline⟩

/-- What follows the arguments, up to the end. -/
def rejectTrailingJSON (rest : Text) : Except Err Unit :=
  if Json.skipSpace rest = [] then .ok ()
  else if (Json.decodeFirst rest).isNone then .error (.new "decode executor arguments")
  else .error (.new "executor request contains more than one JSON value")

/-- The arguments of a body. -/
def decodeBody (body : Text) (maxBytes : Int) : Except Err FactMap :=
  if maxBytes < body.length then
    .error (.new (("executor request exceeds " : Text) ++ Text.ofInt maxBytes ++ (" bytes" : Text)))
  else
    match Json.decodeFirst body with
    | some (.obj members, rest) => (rejectTrailingJSON rest).map fun _ => GoValue.ofJsonMembers members
    | some (.null, rest) =>
      (rejectTrailingJSON rest).bind fun _ => .error (.new "executor arguments must be a JSON object")
    | _ => .error (.new "decode executor arguments")

def sha256Size : Nat := 32

section

variable [Platform]

/-- The digest of the arguments, if the field that says what it is agrees. -/
def checkArgumentHash (arguments : FactMap) (argumentHash : Text) : Except Err Text :=
  match (GoValue.ofMap arguments).marshal with
  | none => .error (.new "canonicalize executor arguments")
  | some canonical =>
    let digest := Platform.sha256 canonical.render
    match hexDecode argumentHash with
    | none => .error (.new (headerArgumentHash ++ (" does not match canonical arguments" : Text)))
    | some provided =>
      if provided.length ≠ sha256Size ∨ provided ≠ digest then
        .error (.new (headerArgumentHash ++ (" does not match canonical arguments" : Text)))
      else .ok (hexEncode digest)

/-- A server's request always has a body, which may be empty. -/
def decodeRequest (request : Http.Request) (maxBytes : Int) : Except Err InvocationRequest := do
  let metadata ← decodeMetadata request.header
  let arguments ← decodeBody (request.body.getD []) maxBytes
  let verb ← requiredHeader request.header headerVerb
  let argumentHash ← requiredHeader request.header headerArgumentHash
  let argumentHash ← checkArgumentHash arguments argumentHash
  let contractHash ← requiredHeader request.header headerContractHash
  return {
    requestID := metadata.requestID
    executionID := metadata.executionID
    sagaID := metadata.sagaID
    effectID := metadata.effectID
    attempt := metadata.attempt
    direction := metadata.direction
    idempotencyKey := metadata.idempotencyKey
    fencingGrants := metadata.fencingGrants
    deadline := metadata.deadline
    verb := verb
    arguments := some arguments
    argumentHash := argumentHash
    contractHash := contractHash }

/-! ### Answers -/

/-- The reason a status line gives. -/
def statusReason (statusCode : Nat) : Text :=
  if statusCode = 200 then "OK"
  else if statusCode = 400 then "Bad Request"
  else if statusCode = 405 then "Method Not Allowed"
  else if statusCode = 409 then "Conflict"
  else if statusCode = 422 then "Unprocessable Entity"
  else if statusCode = 500 then "Internal Server Error"
  else if statusCode = 503 then "Service Unavailable"
  else ""

/-- An answer that is not cut off. -/
def answer (statusCode : Nat) (header : Http.Header) (body : Text) : Http.Response :=
  ⟨statusCode, Text.ofInt statusCode ++ (" " : Text) ++ statusReason statusCode, header, body, false⟩

/-- `http.Error`. -/
def httpError (header : Http.Header) (message : Text) (statusCode : Nat) : Http.Response :=
  let header := (header.set "Content-Type" "text/plain; charset=utf-8").set "X-Content-Type-Options" "nosniff"
  answer statusCode header (message ++ [0x0A])

def failureStatus : OutcomeClass → Nat
  | .retryableKnownNotCommitted => 503
  | .permanentFailure => 422
  | .staleFence => 409
  | _ => 500

/-- The answer to a valid outcome. -/
def writeOutcome (outcome : InvocationOutcome) : Http.Response :=
  if outcome.outcomeClass = .success then
    match outcome.result.marshal with
    | none =>
      httpError (Http.Header.set .empty headerOutcome OutcomeClass.unknown.text) "encode business result" 500
    | some result =>
      answer 200 (Http.Header.set .empty "Content-Type" "application/json") (result.render ++ [0x0A])
  else
    httpError (Http.Header.set .empty headerOutcome outcome.outcomeClass.text) ((outcome.err.map (·.text)).getD [])
      (failureStatus outcome.outcomeClass)

/-- A handler: what `NewHandler` returns for a limit and a business function. -/
def handle (maxRequestBytes : Int) (business : InvocationRequest → InvocationOutcome) (request : Http.Request) :
    Http.Response :=
  if request.method ≠ Http.methodPost then
    httpError (Http.Header.set .empty "Allow" Http.methodPost) "method not allowed" 405
  else
    match decodeRequest request maxRequestBytes with
    | .error err => httpError .empty err.text 400
    | .ok decoded =>
      let outcome := business decoded
      match validateOutcome outcome with
      | .error err => writeOutcome (failedOutcome .unknown (err.under "business executor returned an invalid outcome"))
      | .ok () => writeOutcome outcome

end

end Invocation

end Effectus

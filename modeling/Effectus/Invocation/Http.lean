import Effectus.Go.Network
import Effectus.Lib.Rfc3339
import Effectus.Runtime.Dispatcher

/-!
The executor that sends an invocation over HTTP: the arguments are the body, and everything else is in header fields.
Whether the effect was committed is read off the answer, whichever request of a chain of redirects it answers.
-/

namespace Effectus

namespace Invocation

/-! ### Header fields -/

def headerVerb : Text := "X-Effectus-Verb"

def headerRequestID : Text := "X-Effectus-Request-ID"

def headerExecutionID : Text := "X-Effectus-Execution-ID"

def headerSagaID : Text := "X-Effectus-Saga-ID"

def headerEffectID : Text := "X-Effectus-Effect-ID"

def headerAttempt : Text := "X-Effectus-Attempt"

def headerDirection : Text := "X-Effectus-Direction"

def headerArgumentHash : Text := "X-Effectus-Argument-Hash"

def headerContractHash : Text := "X-Effectus-Contract-Hash"

def headerFencingGrants : Text := "X-Effectus-Fencing-Grants"

def headerDeadline : Text := "X-Effectus-Deadline"

def headerOutcome : Text := "X-Effectus-Outcome"

def headerIdempotencyKey : Text := "Idempotency-Key"

def reservedHTTPHeaders : List Text :=
  [headerVerb, headerRequestID, headerExecutionID, headerSagaID, headerEffectID, headerAttempt, headerDirection,
    headerArgumentHash, headerContractHash, headerFencingGrants, headerDeadline, headerOutcome, headerIdempotencyKey].map
    Text.toLower

def reservedStart : Text := "x-effectus-"

/-- The names that are left, given those before them by their folded names. -/
def checkStaticNames : List (Text × Text) → List Text → Except Err Unit
  | _, [] => .ok ()
  | seen, name :: rest =>
    match Assoc.get? seen (Text.toLower name) with
    | some previous =>
      .error (.new (("static headers " : Text) ++ Text.quote previous ++ (" and " : Text) ++ Text.quote name ++
        (" collide case-insensitively" : Text)))
    | none =>
      if reservedHTTPHeaders.contains (Text.toLower name) ∨ Text.hasPrefix (Text.toLower name) reservedStart then
        .error (.new (("static header " : Text) ++ Text.quote name ++
          (" is reserved for Effectus invocation metadata" : Text)))
      else checkStaticNames ((Text.toLower name, name) :: seen) rest

def validateStaticHTTPHeaders (headers : Dict Text Text) : Except Err Unit :=
  checkStaticNames [] (headers.entries.map Prod.fst)

/-- The grants as JSON; none are the nil slice. -/
def grantsJson : List FencingGrant → Json
  | [] => .null
  | grants => .arr (grants.map fun grant => .obj [jsonMember "authority" (.ofText grant.authority),
      jsonMember "resource" (.ofText grant.resource), jsonMember "token" (.num (.ofInt grant.token))])

def setInvocationHeaders (headers : Http.Header) (request : InvocationRequest) : Http.Header :=
  let headers := headers.set headerVerb request.verb
  let headers := headers.set headerRequestID request.requestID
  let headers := headers.set headerExecutionID request.executionID
  let headers := headers.set headerSagaID request.sagaID
  let headers := headers.set headerEffectID request.effectID
  let headers := headers.set headerAttempt (Text.decimal request.attempt)
  let headers := headers.set headerDirection request.direction.text
  let headers := headers.set headerIdempotencyKey request.idempotencyKey
  let headers := headers.set headerArgumentHash request.argumentHash
  let headers := headers.set headerContractHash request.contractHash
  let headers := headers.set headerFencingGrants (grantsJson request.fencingGrants).render
  if request.deadline = 0 then headers else headers.set headerDeadline (Rfc3339.format request.deadline)

/-! ### The executor -/

structure HTTPExecutor where
  url : Text
  method : Text
  headers : Dict Text Text
  client : Option (Http.Client Err)
  maxResponseBytes : Int

/-- The client there is without another: it stops after ten requests. -/
def defaultClient : Http.Client Err where
  limit := 10
  checkRedirect := fun request via =>
    if 10 ≤ via.length then .error (.new "stopped after 10 redirects") else .ok request
  bounded := fun _ _ h => ⟨_, if_pos h⟩

def maxInt64 : Int := 2 ^ 63 - 1

def newHTTPExecutor (executor : HTTPExecutor) : Except Err HTTPExecutor :=
  if Text.trimSpace executor.url = [] then .error (.new "invocation HTTP URL is required")
  else
    match validateStaticHTTPHeaders executor.headers with
    | .error err => .error err
    | .ok () =>
      if executor.maxResponseBytes < 0 ∨ executor.maxResponseBytes = maxInt64 then
        .error (.new "invocation response limit must be nonnegative and smaller than MaxInt64")
      else
        .ok { executor with
          method := if executor.method = [] then Http.methodPost else executor.method
          client := some (executor.client.getD defaultClient)
          maxResponseBytes := if executor.maxResponseBytes = 0 then 2 ^ 20 else executor.maxResponseBytes }

/-- An outcome that is not a success. -/
def failedOutcome (outcomeClass : OutcomeClass) (err : Err) : InvocationOutcome := ⟨outcomeClass, .nil, some err⟩

/-- A class by its text. -/
def outcomeClassOf (text : Text) : OutcomeClass :=
  (([.unset, .success, .retryableKnownNotCommitted, .permanentFailure, .unknown, .staleFence] : List OutcomeClass).find?
    fun c => c.text == text).getD (.other text)

/-- What a successful answer says. -/
def decodeResult (body : Text) : InvocationOutcome :=
  match Json.decodeFirst body with
  | none => failedOutcome .unknown (.new "decode successful invocation response")
  | some (result, rest) =>
    if Json.skipSpace rest = [] then ⟨.success, .ofJson result, none⟩
    else failedOutcome .unknown (.new "trailing successful invocation response")

/-- What any other answer says. -/
def decodeFailure (response : Http.Response) : InvocationOutcome :=
  let outcomeClass := outcomeClassOf (Text.trimSpace (response.header.get headerOutcome))
  let body := Text.trimSpace response.body
  let outcome := failedOutcome outcomeClass (.new (("invocation HTTP status " : Text) ++ Text.ofInt response.statusCode ++
    (": " : Text) ++ (if body = [] then response.status else body)))
  match validateOutcome outcome with
  | .error _ => { outcome with outcomeClass := .unknown }
  | .ok () => if outcomeClass = .success then { outcome with outcomeClass := .unknown } else outcome

/-- One byte past the limit is read; an error of the connection after it is never seen. -/
def readResponse (maxResponseBytes : Int) (response : Http.Response) : InvocationOutcome :=
  if response.isCut ∧ (response.body.length : Int) ≤ maxResponseBytes then
    failedOutcome .unknown (.new "read invocation response")
  else if maxResponseBytes < response.body.length then
    failedOutcome .unknown (.new (("invocation response exceeds " : Text) ++ Text.ofInt maxResponseBytes ++
      (" bytes" : Text)))
  else if 200 ≤ response.statusCode ∧ response.statusCode < 300 then decodeResult response.body
  else decodeFailure response

section

variable [Platform]

/-- The body of a request: the JSON of its arguments. -/
def payload (request : InvocationRequest) : Option Text := (mapValue request.arguments).marshal.map Json.render

section

variable [Network]

/-- The request that is sent first. -/
def HTTPExecutor.httpRequest (executor : HTTPExecutor) (request : InvocationRequest) : Except Err Http.Request :=
  match payload request with
  | none => .error (.new "encode invocation arguments")
  | some body =>
    if Http.isToken executor.method = false then
      .error (.new (("build invocation request: net/http: invalid method " : Text) ++ Text.quote executor.method))
    else
      match Network.parseURL executor.url with
      | .error err => .error (err.under "build invocation request")
      | .ok url =>
        let headers := Http.Header.set .empty "Content-Type" "application/json"
        let headers := executor.headers.entries.foldl (fun headers entry => headers.set entry.1 entry.2) headers
        .ok ⟨executor.method, url, setInvocationHeaders headers request, some body⟩

/-- The exchanges of a call, up to the answer that is read. -/
def HTTPExecutor.send (executor : HTTPExecutor)
    (server : List Http.Exchange → Http.Request → Except Err Http.Response) (httpRequest : Http.Request) :
    Except Err (List Http.Exchange × Http.Exchange) :=
  (executor.client.getD defaultClient).run Network.urls server httpRequest

def HTTPExecutor.invoke (executor : HTTPExecutor)
    (server : List Http.Exchange → Http.Request → Except Err Http.Response) (ctx : Option Err)
    (request : InvocationRequest) : InvocationOutcome :=
  match newHTTPExecutor executor with
  | .error err => failedOutcome .permanentFailure err
  | .ok executor =>
    match ctx with
    | some err => failedOutcome .retryableKnownNotCommitted err
    | none =>
      match executor.httpRequest request with
      | .error err => failedOutcome .permanentFailure err
      | .ok httpRequest =>
        match executor.send server httpRequest with
        | .error err => failedOutcome .unknown (err.under "send invocation")
        | .ok (_, final) => readResponse executor.maxResponseBytes final.response

end

end

end Invocation

end Effectus

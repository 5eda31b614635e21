import Effectus.Outbox.Types
import Mathlib.Data.List.Sort

/-!
Stable identities and canonical arguments. An identity is the digest of its components, each framed
by its length, so that two lists of components never share an input. Requests are checked here,
before the store is looked at.
-/

namespace Effectus

def hexEncode (t : Text) : Text :=
  t.flatMap fun b => [Text.hexDigit (b.toNat / 16), Text.hexDigit (b.toNat % 16)]

/-- `binary.BigEndian.PutUint64`. -/
def bigEndian64 (n : Nat) : Text :=
  [UInt8.ofNat (n / 2 ^ 56), UInt8.ofNat (n / 2 ^ 48), UInt8.ofNat (n / 2 ^ 40), UInt8.ofNat (n / 2 ^ 32),
    UInt8.ofNat (n / 2 ^ 24), UInt8.ofNat (n / 2 ^ 16), UInt8.ofNat (n / 2 ^ 8), UInt8.ofNat n]

/-- What `hashIdentity` feeds the digest. -/
def frameIdentity (components : List Text) : Text :=
  components.flatMap fun c => bigEndian64 c.length ++ c

section

variable [Platform]

def hashIdentity (components : List Text) : Text := hexEncode (Platform.sha256 (frameIdentity components))

def stableSagaID (executionID planID : Text) : Text := hashIdentity [executionID, planID]

def idempotencyKey (ns sagaID effectID : Text) (direction : Direction) : Text :=
  hashIdentity [ns, sagaID, effectID, direction.text]

def dispatchIDOf (key : Text) : Text := ("dispatch/" : Text) ++ key

/-- `CanonicalJSON`: the text and its digest. -/
def canonicalJSON (value : GoValue) : Except Err (Text × Text) :=
  match value.marshal with
  | none => .error (.new "encode canonical JSON")
  | some encoded =>
    match Json.decode encoded.render with
    | none => .error (.new "verify canonical JSON")
    | some decoded =>
      match (GoValue.ofJson decoded).marshal with
      | none => .error (.new "re-encode canonical JSON")
      | some canonical => .ok (canonical.render, hexEncode (Platform.sha256 canonical.render))

/-- A map argument as a value: the nil map marshals as null. -/
def mapValue : Option (List (Text × GoValue)) → GoValue
  | none => .nil
  | some entries => .ofMap entries

/-- A required field must be trimmed and not empty. -/
def requireTrimmed (name value : Text) : Except Err Unit :=
  if Text.trimSpace value = [] ∨ Text.trimSpace value ≠ value then
    .error (.new (name ++ (" is required and must not have surrounding whitespace" : Text)))
  else .ok ()

def validateSagaRequest (request : CreateSagaRequest) : Except Err Unit :=
  if request.serial = false then
    .error (.new "non-serial durable sagas are not supported until late-success compensation is atomic")
  else if (request.allowUnstableIdentityForTest && Platform.testBinary) = false ∧
      request.sagaID ≠ stableSagaID request.executionID request.planID then
    .error (.wrap .identityConflict "saga ID must equal StableSagaID(execution_id, plan_id)")
  else do
    requireTrimmed "namespace" request.ns
    requireTrimmed "saga_id" request.sagaID
    requireTrimmed "execution_id" request.executionID
    requireTrimmed "plan_id" request.planID
    requireTrimmed "plan_digest" request.planDigest

/-- What `normalizeEnqueue` returns. -/
structure NormalizedStep where
  request : EnqueueStepRequest
  arguments : Text
  argumentHash : Text
  compensationArguments : Text
  compensationHash : Text

def requirementLE (a b : FencingRequirement) : Bool :=
  if a.authority ≠ b.authority then Text.lt a.authority b.authority
  else !Text.lt b.resource a.resource

/-- The sorted requirements are complete and no two are equal. -/
def checkRequirements : Option FencingRequirement → List FencingRequirement → Except Err Unit
  | _, [] => .ok ()
  | previous, requirement :: rest =>
    if requirement.authority = [] ∨ requirement.resource = [] then
      .error (.new "fencing authority and resource are required")
    else if previous = some requirement then
      .error (.new (("duplicate fencing requirement " : Text) ++ requirement.authority ++ ("/" : Text) ++
        requirement.resource))
    else checkRequirements (some requirement) rest

/-- The compensation half of `normalizeEnqueue`: arguments default to the step's own. -/
def normalizeCompensation (request : EnqueueStepRequest) : Except Err (EnqueueStepRequest × Text × Text) :=
  if request.compensationVerb ≠ [] then
    if request.compensationContract = [] then
      .error (.new "compensation contract hash is required")
    else
      let request := { request with
        compensationArguments := request.compensationArguments.or request.arguments }
      match canonicalJSON (mapValue request.compensationArguments) with
      | .error err => .error (err.under "compensation arguments")
      | .ok (text, hash) => .ok (request, text, hash)
  else if request.compensationContract ≠ [] ∨ request.compensationArguments.isSome then
    .error (.new "compensation metadata requires a compensation verb")
  else .ok (request, [], [])

def normalizeEnqueue (request : EnqueueStepRequest) : Except Err NormalizedStep :=
  if Text.trimSpace request.sagaID = [] ∨ Text.trimSpace request.effectID = [] ∨
      Text.trimSpace request.verb = [] then
    .error (.new "saga_id, effect_id, and verb are required")
  else if request.sequence ≤ 0 then
    .error (.new "step sequence must be positive")
  else if Text.trimSpace request.contractHash = [] then
    .error (.new "contract hash is required")
  else do
    let (arguments, argumentHash) ← canonicalJSON (mapValue request.arguments)
    let (request, compensationArguments, compensationHash) ← normalizeCompensation request
    let request := { request with fencing := request.fencing.insertionSort fun a b => requirementLE a b }
    checkRequirements none request.fencing
    return ⟨request, arguments, argumentHash, compensationArguments, compensationHash⟩

end

end Effectus

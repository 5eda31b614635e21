import Effectus.Runtime.Artifact
import Effectus.Runtime.Workflow

/-!
Admitting an execution: what a request becomes before it is stored, and how a request for an identity that is taken is
compared with what was admitted under it.
-/

namespace Effectus

/-- `prepareAdmission`: an owned copy, its labels trimmed and its merge policy filled in. -/
def prepareAdmission (input : Admission) : Except Err Admission :=
  let policy := Text.trimSpace input.mergePolicy
  let owned := { input with
    executionID := Text.trimSpace input.executionID, admissionID := Text.trimSpace input.admissionID
    tenantNamespace := Text.trimSpace input.tenantNamespace, ruleset := Text.trimSpace input.ruleset
    version := Text.trimSpace input.version, mergePolicy := if policy = [] then "merge" else policy }
  if owned.executionID = [] ∨ owned.tenantNamespace = [] then
    .error (.wrap .invalidExecuteRequest "stable execution ID and tenant namespace are required")
  else if owned.mergePolicy ≠ ("merge" : Text) ∧ owned.mergePolicy ≠ ("replace" : Text) then
    .error (.wrap .invalidExecuteRequest (("unsupported fact merge policy " : Text) ++ Text.quote owned.mergePolicy))
  else .ok owned

def admissionIdentity (admission : Admission) : Text :=
  if admission.admissionID ≠ [] then admission.admissionID else admission.executionID

/-- The labels pinned with a generation must be those of the record. -/
def validateArtifactIdentity (record : ExecutionRecord) (artifact : ExecutionArtifact) : Except Err Unit :=
  match strictArtifactJSON identitySchema artifact.functionManifest with
  | .error err => .error (.wrap .generationMismatch (("invalid pinned identity: " : Text) ++ err.text))
  | .ok identity =>
    if artifact.generationDigest ≠ record.generationDigest ∨ (identity.field "ruleset").text ≠ record.ruleset ∨
        (identity.field "version").text ≠ record.version then
      .error (.wrap .generationMismatch "durable record labels do not match its pinned artifact")
    else .ok ()

/-- The context of a call has ended. -/
def Err.isCanceled (err : Err) : Bool := err.is .canceled || err.is .deadlineExceeded

section

variable [Platform] [FencingProvider]

/-- A result that is at hand. -/
def Try.lift {α : Type} (result : Except Err α) : Try α := ExceptT.mk (pure result)

/-! ### Building -/

/-- The plans, sagas and first steps of the plans whose predicates hold. -/
def selectPlans (g : Generation) (admission : Admission) (facts : FactMap) :
    Nat → List Plan → Try (List ExecutionPlanRecord × List CreateSagaRequest × List EnqueueStepRequest)
  | _, [] => return ([], [], [])
  | ordinal, plan :: rest => do
    Try.checkContext
    match evaluateCheckedPredicate facts plan.predicate with
    | .error err => throw (err.err.under (("evaluate plan " : Text) ++ Text.quote plan.id))
    | .ok false => selectPlans g admission facts ordinal rest
    | .ok true =>
      let sagaID := stableSagaID admission.executionID plan.id
      let first ← match plan.steps with
        | [] => pure []
        | step :: _ => (fun first => [first]) <$> Try.lift (durableInitialStep plan step facts sagaID)
      let (plans, sagas, steps) ← selectPlans g admission facts (ordinal + 1) rest
      return (⟨admission.executionID, plan.id, sagaID, ordinal, "selected"⟩ :: plans,
        ⟨admission.tenantNamespace, sagaID, admission.executionID, plan.id, g.checked.digest, true, false⟩ :: sagas,
        first ++ steps)

/-- The record an admission asks for. -/
def requestedRecord (admission : Admission) (requestHash digest factsJSON : Text) : ExecutionRecord where
  executionID := admission.executionID
  admissionIdentity := admissionIdentity admission
  requestHash := requestHash
  ruleset := admission.ruleset
  version := admission.version
  tenantNamespace := admission.tenantNamespace
  mergePolicy := admission.mergePolicy
  generationDigest := digest
  effectiveFacts := factsJSON
  state := .admitting
  revision := 0
  recoveryOwner := []
  recoveryToken := []
  recoveryDeadline := 0
  lastError := []
  updatedAt := 0
  plans := []

/-- `buildDurableAdmission`, of an admission whose merge policy is filled in. -/
def buildDurableAdmission (g : Generation) (admission : Admission) (requestHash : Text) :
    Try (DurableAdmission × FactMap) := do
  let facts ← Try.lift (normalizedWorkflowFacts g.environment admission.facts)
  let (factsJSON, _) ← Try.lift (canonicalJSON (.ofMap facts))
  let inputFactsJSON ← Try.lift (canonicalJSONValue (.ofMap admission.facts))
  let (plans, sagas, steps) ← selectPlans g admission facts 0 g.plans
  return ({
    artifact := g.executionArtifact.encode
    execution := requestedRecord admission requestHash g.digest factsJSON
    factApplication := ⟨admission.executionID, admissionIdentity admission, admission.mergePolicy, inputFactsJSON, 1⟩
    plans := plans, sagas := sagas, initialSteps := steps }, facts)

/-! ### Replays -/

/-- The frozen facts of a record, hashed as the request is. -/
def frozenHash (admission : Admission) (record : ExecutionRecord) (environment : Environment) : Except Err Text :=
  match decodeExecutionFacts record.effectiveFacts with
  | .error err => .error (.wrap .blockedDependency err.text)
  | .ok frozen =>
    match semanticAdmissionHash { admission with facts := frozen } environment with
    | .error err => .error (.wrap .blockedDependency (("invalid frozen facts: " : Text) ++ err.text))
    | .ok hash => .ok hash

/-- A request against the record of its identity, under the environment pinned with it. -/
def matchHash (admission : Admission) (record : ExecutionRecord) (environment : Environment) : Except Err Unit := do
  let hash ← semanticAdmissionHash admission environment
  if record.requestHash = hash then return ()
  let frozen ← frozenHash admission record environment
  if hash ≠ frozen then
    throw (.wrap .identityConflict (("admission identity " : Text) ++ admissionIdentity admission))

/-- What a request and a record must share before the facts are looked at. -/
def matchLabels (admission : Admission) (record : ExecutionRecord) : Except Err Unit :=
  if admission.expectedGenerationDigest ≠ [] ∧ admission.expectedGenerationDigest ≠ record.generationDigest then
    .error (.of .generationMismatch)
  else if record.executionID ≠ admission.executionID ∨ record.admissionIdentity ≠ admissionIdentity admission ∨
      record.tenantNamespace ≠ admission.tenantNamespace ∨ record.ruleset ≠ admission.ruleset ∨
      record.version ≠ admission.version then
    .error (.wrap .identityConflict (("admission identity " : Text) ++ admissionIdentity admission))
  else if (if record.mergePolicy = [] then ("merge" : Text) else record.mergePolicy) ≠ admission.mergePolicy then
    .error (.of .identityConflict)
  else .ok ()

/-- `matchReplay`. -/
def matchReplay (admission : Admission) (record : ExecutionRecord) : Try Unit := do
  Try.lift (matchLabels admission record)
  match ← Try.attempt (act (.getArtifact record.generationDigest)) with
  | .error err =>
    if err.isCanceled then throw err
    else throw (.wrap .blockedDependency (("read pinned artifact: " : Text) ++ err.text))
  | .ok artifact =>
    Try.lift (validateArtifactIdentity record artifact)
    match decodeArtifactEnvironment artifact with
    | .error err => throw (.wrap .blockedDependency err.text)
    | .ok environment => Try.lift (matchHash admission record environment)

end

end Effectus

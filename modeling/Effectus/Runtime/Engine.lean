import Effectus.Runtime.Admission

/-!
The engine's admission: a request whose identity is free becomes a new execution, one whose identity is taken is compared
with what was admitted under it, and an execution that is to go on is loaded with the generation it was pinned to.
-/

namespace Effectus

/-- An engine is atomic when its ledger and its outbox are one store that admits in one transaction. -/
structure Engine where
  generation : Generation
  atomic : Bool
  hasResolver : Bool

inductive RequestedWait where
  | unset
  | accepted
  | terminal
  | other (text : Text)
  deriving DecidableEq

/-- `engineExecution`. -/
structure EngineExecution where
  record : ExecutionRecord
  facts : FactMap
  selected : List Text
  generation : Option Generation

/-- An execution that is only looked at. -/
def EngineExecution.ofRecord (record : ExecutionRecord) : EngineExecution := ⟨record, [], [], none⟩

section

variable [Platform] [FencingProvider]

namespace Engine

/-! ### Loading -/

/-- What loading or admitting an execution comes to. -/
structure Loaded where
  execution : Option EngineExecution
  err : Option Err

/-- `blockDependency`. -/
def blockDependency (x : EngineExecution) (cause : Err) : Loaded :=
  ⟨some x, some (if cause.isCanceled then cause else .wrap .blockedDependency cause.text)⟩

/-- `acquireHistorical`: what the resolver makes of a pinned artifact, if it is what was pinned. -/
def acquireHistorical (e : Engine) (artifact : ExecutionArtifact) : Act (Except Err Generation) := do
  if e.hasResolver = false then return .error (.new "no immutable artifact resolver is configured")
  else
    match ← act (.resolveGeneration artifact) with
    | .error err => return .error err
    | .ok g =>
      if g.digest ≠ artifact.generationDigest then
        return .error (.new "resolved generation does not match the pinned executable artifact")
      else return .ok g

/-- The generation a record names: the engine's own or one pinned. -/
def generationOf (e : Engine) (record : ExecutionRecord) (x : EngineExecution) : Act (Except Loaded Generation) := do
  if e.generation.digest = record.generationDigest then return .ok e.generation
  else
    match ← act (.getArtifact record.generationDigest) with
    | .error err => return .error (blockDependency x err)
    | .ok artifact =>
      match validateArtifactIdentity record artifact with
      | .error err => return .error ⟨some (.ofRecord record), some err⟩
      | .ok () =>
        match ← e.acquireHistorical artifact with
        | .error err => return .error (blockDependency x err)
        | .ok g => return .ok g

/-- `loadExecutionRecord`. -/
def loadExecutionRecord (e : Engine) (record : ExecutionRecord) (resolve : Bool) : Act Loaded := do
  if resolve = false ∨ isTerminalExecutionState record.state then return ⟨some (.ofRecord record), none⟩
  else
    match decodeExecutionFacts record.effectiveFacts with
    | .error err => return ⟨none, some err⟩
    | .ok facts =>
      let x : EngineExecution := ⟨record, facts, record.plans.map (·.planID), none⟩
      match ← e.generationOf record x with
      | .error loaded => return loaded
      | .ok g =>
        if g.ruleset ≠ record.ruleset ∨ g.version ≠ record.version then
          return ⟨some (.ofRecord record), some (.of .generationMismatch)⟩
        else return ⟨some { x with generation := some g }, none⟩

/-! ### Admitting -/

structure Admitted where
  execution : Option EngineExecution
  created : Bool
  atomic : Bool
  err : Option Err

/-- A request for an identity that is taken. -/
def replay (e : Engine) (admission : Admission) (record : ExecutionRecord) (resolve atomic : Bool) : Act Admitted := do
  match ← (matchReplay admission record).result with
  | .error err => return ⟨some (.ofRecord record), false, atomic, some err⟩
  | .ok () =>
    let loaded ← e.loadExecutionRecord record resolve
    return ⟨loaded.execution, false, atomic, loaded.err⟩

/-- Store an admission, in one transaction or in two steps. -/
def storeAdmission (e : Engine) (durable : DurableAdmission) : Act (Except Err (ExecutionRecord × Bool)) := do
  if e.atomic then act (.admitExecutionAtomic durable)
  else
    match ← act (.putArtifact durable.artifact) with
    | .error err => return .error err
    | .ok () => act (.admitExecution durable)

/-- The admission a request becomes under the engine's own generation. -/
def prepareDurable (e : Engine) (admission : Admission) : Try (DurableAdmission × FactMap) := do
  let g := e.generation
  if admission.ruleset ≠ g.ruleset ∨ admission.version ≠ g.version ∨
      (admission.expectedGenerationDigest ≠ [] ∧ admission.expectedGenerationDigest ≠ g.digest) then
    throw (.of .generationMismatch)
  let hash ← Try.lift (semanticAdmissionHash admission g.environment)
  buildDurableAdmission g admission hash

/-- After a conflict the identity is looked up again: another call may have been faster. -/
def admitAgain (e : Engine) (admission : Admission) (durable : DurableAdmission) (resolve : Bool) (err : Err) :
    Act Admitted := do
  if err.is .identityConflict = false ∧ err.is .databaseConcurrency = false then return ⟨none, false, e.atomic, some err⟩
  else
    match ← act (.getExecutionByAdmission durable.execution.admissionIdentity) with
    | .ok existing => e.replay admission existing resolve e.atomic
    | .error _ =>
      return ⟨none, false, e.atomic, some (if err.is .identityConflict then .wrap .identityConflict err.text else err)⟩

/-- An identity no execution has. -/
def admitNew (e : Engine) (admission : Admission) (resolve : Bool) : Act Admitted := do
  match ← (e.prepareDurable admission).result with
  | .error err => return ⟨none, false, false, some err⟩
  | .ok (durable, facts) =>
    match ← e.storeAdmission durable with
    | .error err => e.admitAgain admission durable resolve err
    | .ok (record, false) => e.replay admission record resolve e.atomic
    | .ok (record, true) =>
      return ⟨some ⟨record, facts, durable.plans.map (·.planID), some e.generation⟩, true, e.atomic, none⟩

/-- `admit`. -/
def admitInput (e : Engine) (input : Admission) (resolve : Bool) : Act Admitted :=
  match prepareAdmission input with
  | .error err => return ⟨none, false, false, some err⟩
  | .ok admission => do
    match ← act (.getExecutionByAdmission (admissionIdentity admission)) with
    | .ok existing => e.replay admission existing resolve false
    | .error err =>
      if err.is .executionRecordNotFound = false then return ⟨none, false, false, some err⟩
      else e.admitNew admission resolve

end Engine

end

end Effectus

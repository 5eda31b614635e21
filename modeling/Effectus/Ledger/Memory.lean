import Effectus.Lib.Json
import Effectus.Lib.Keyed
import Effectus.Ledger.Types
import Effectus.Outbox.Run

/-!
The in-memory execution ledger: artifacts under their digest, executions under their ID, and the ID each
admission identity stands for. Every operation runs under the ledger's lock, so each is one function of the
ledger. Fact applications are checked and never read, so the ledger does not keep them.
-/

namespace Effectus

structure Ledger where
  artifacts : List ExecutionArtifact
  executions : List ExecutionRecord
  byAdmission : List (Text × Text)

namespace Ledger

/-- `NewInMemoryExecutionLedger`. -/
def empty : Ledger := ⟨[], [], []⟩

def artifact? (l : Ledger) (digest : Text) : Option ExecutionArtifact :=
  Keyed.get? (·.generationDigest) l.artifacts digest

def execution? (l : Ledger) (id : Text) : Option ExecutionRecord := Keyed.get? (·.executionID) l.executions id

/-- The record an admission identity stands for. No identity stands for an ID without a record. -/
def admitted? (l : Ledger) (identity : Text) : Option ExecutionRecord :=
  (Keyed.get? Prod.fst l.byAdmission identity).bind fun entry => l.execution? entry.2

def setExecution (l : Ledger) (record : ExecutionRecord) : Ledger :=
  { l with executions := Keyed.modify (·.executionID) l.executions record.executionID fun _ => record }

/-! ### Artifacts -/

/-- The first required field that is blank. -/
def blank? (fields : List (String × Text)) : Option Text :=
  (fields.find? fun field => decide (Text.trimSpace field.2 = [])).map fun field => Text.ofString field.1

/-- `json.Valid`: the whole text is one document. -/
def jsonValid (t : Text) : Bool := (Json.readOnly t).isSome

def validateExecutionArtifact (artifact : ExecutionArtifact) : Except Err Unit :=
  match blank? [("generation_digest", artifact.generationDigest), ("ir_digest", artifact.irDigest),
      ("source_digest", artifact.sourceDigest)] with
  | some name => .error (.new (("artifact " : Text) ++ name ++ (" is required" : Text)))
  | none =>
    if artifact.irBytes = [] ∨ jsonValid artifact.environment = false ∨ jsonValid artifact.executorManifest = false ∨
        jsonValid artifact.functionManifest = false ∨ jsonValid artifact.compilerMetadata = false then
      .error (.new "artifact bytes and canonical JSON manifests are required")
    else .ok ()

/-- Two documents are the same when what they decode to, its members in order, is written alike. -/
def jsonSemanticallyEqual (left right : Text) : Bool :=
  match Json.decode left, Json.decode right with
  | some left, some right => decide (left.render = right.render)
  | _, _ => false

def sameExecutionArtifact (left right : ExecutionArtifact) : Bool :=
  decide (left.generationDigest = right.generationDigest ∧ left.irDigest = right.irDigest ∧
    left.irBytes = right.irBytes ∧ left.sourceDigest = right.sourceDigest) &&
  jsonSemanticallyEqual left.environment right.environment &&
  jsonSemanticallyEqual left.executorManifest right.executorManifest &&
  jsonSemanticallyEqual left.functionManifest right.functionManifest &&
  jsonSemanticallyEqual left.compilerMetadata right.compilerMetadata

def artifactConflict (digest : Text) : Err := .wrap .identityConflict (("generation artifact " : Text) ++ digest)

/-- Keep an artifact under its digest unless the digest is taken. -/
def storeArtifact (l : Ledger) (artifact : ExecutionArtifact) : Except Err Unit × Ledger :=
  match l.artifact? artifact.generationDigest with
  | some existing =>
    if sameExecutionArtifact existing artifact then (.ok (), l)
    else (.error (artifactConflict artifact.generationDigest), l)
  | none => (.ok (), { l with artifacts := l.artifacts ++ [artifact] })

def putArtifact (l : Ledger) (ctx : Option Err) (artifact : ExecutionArtifact) : Except Err Unit × Ledger :=
  match ctx, validateExecutionArtifact artifact with
  | some err, _ => (.error err, l)
  | none, .error err => (.error err, l)
  | none, .ok () => l.storeArtifact artifact

def getArtifact (l : Ledger) (ctx : Option Err) (digest : Text) : Except Err ExecutionArtifact :=
  match ctx, l.artifact? digest with
  | some err, _ => .error err
  | none, none => .error (.wrap .artifactNotFound digest)
  | none, some artifact => .ok artifact

/-! ### Admission -/

section

variable [Platform]

def validatePlans (executionID : Text) (index : Nat) : List ExecutionPlanRecord → Except Err Unit
  | [] => .ok ()
  | plan :: rest =>
    if plan.executionID ≠ executionID ∨ plan.ordinal ≠ index ∨ plan.planID = [] ∨
        plan.sagaID ≠ stableSagaID executionID plan.planID then
      .error (.new (("execution plan " : Text) ++ Text.ofInt index ++ (" is invalid" : Text)))
    else validatePlans executionID (index + 1) rest

def validateDurableAdmission (admission : DurableAdmission) : Except Err Unit := do
  validateExecutionArtifact admission.artifact
  let record := admission.execution
  match blank? [("execution_id", record.executionID), ("admission_identity", record.admissionIdentity),
      ("request_hash", record.requestHash), ("generation_digest", record.generationDigest),
      ("tenant_namespace", record.tenantNamespace), ("ruleset", record.ruleset), ("version", record.version)] with
  | some name => throw (.new (("execution " : Text) ++ name ++ (" is required" : Text)))
  | none =>
    if record.generationDigest ≠ admission.artifact.generationDigest ∨ jsonValid record.effectiveFacts = false then
      throw (.new "execution artifact or effective facts are invalid")
    else if admission.factApplication.executionID ≠ record.executionID ∨
        admission.factApplication.factEventID = [] ∨ jsonValid admission.factApplication.facts = false then
      throw (.new "fact application is invalid")
    else validatePlans record.executionID 0 admission.plans

/-- The record an admission writes. -/
def admittedRecord (admission : DurableAdmission) (now : Time) : ExecutionRecord :=
  { admission.execution with
    state := .accepted, revision := 1, updatedAt := now, plans := admission.plans }

/-- `AdmitExecution`: the record, and whether this call created it. -/
def admitExecution (l : Ledger) (ctx : Option Err) (now : Time) (admission : DurableAdmission) :
    Except Err (ExecutionRecord × Bool) × Ledger :=
  let execution := admission.execution
  match ctx, validateDurableAdmission admission with
  | some err, _ => (.error err, l)
  | none, .error err => (.error err, l)
  | none, .ok () =>
    match l.admitted? execution.admissionIdentity, l.execution? execution.executionID with
    | some existing, _ =>
      if existing.requestHash ≠ execution.requestHash ∨ existing.executionID ≠ execution.executionID then
        (.error (.wrap .identityConflict (("admission identity " : Text) ++ execution.admissionIdentity)), l)
      else (.ok (existing, false), l)
    | none, some existing =>
      if existing.admissionIdentity ≠ execution.admissionIdentity ∨ existing.requestHash ≠ execution.requestHash then
        (.error (.wrap .identityConflict (("execution " : Text) ++ execution.executionID)), l)
      else (.ok (existing, false), l)
    | none, none =>
      if (l.artifact? admission.artifact.generationDigest).any (sameExecutionArtifact · admission.artifact) then
        let record := admittedRecord admission now
        (.ok (record, true), { l with
          executions := l.executions ++ [record]
          byAdmission := l.byAdmission ++ [(record.admissionIdentity, record.executionID)] })
      else (.error (artifactConflict admission.artifact.generationDigest), l)

end

/-! ### Reads -/

def getExecutionByAdmission (l : Ledger) (ctx : Option Err) (identity : Text) : Except Err ExecutionRecord :=
  match ctx, l.admitted? identity with
  | some err, _ => .error err
  | none, none => .error (.wrap .executionRecordNotFound (("admission " : Text) ++ identity))
  | none, some record => .ok record

def getExecution (l : Ledger) (ctx : Option Err) (id : Text) : Except Err ExecutionRecord :=
  match ctx, l.execution? id with
  | some err, _ => .error err
  | none, none => .error (.wrap .executionRecordNotFound id)
  | none, some record => .ok record

/-! ### State -/

def executionPlanDisposition : ExecutionState → Text
  | .completed => "completed"
  | .running => "running"
  | .failed => "failed"
  | .blockedUnknown | .blockedFence | .blockedDependency | .blockedCompensation => "blocked"
  | .admitting | .accepted | .other _ => "selected"

/-- A record in a new state, and its plans with it. -/
def disposed (record : ExecutionRecord) (state : ExecutionState) : ExecutionRecord :=
  { record with
    state := state
    plans := record.plans.map fun plan => { plan with state := executionPlanDisposition state } }

/-- The record `SetExecutionState` writes. -/
def stateSet (record : ExecutionRecord) (state : ExecutionState) (message : Text) (now : Time) : ExecutionRecord :=
  { disposed record state with lastError := message, revision := record.revision + 1, updatedAt := now }

def setExecutionState (l : Ledger) (ctx : Option Err) (now : Time) (id : Text) (revision : Nat)
    (state : ExecutionState) (message : Text) : Except Err ExecutionRecord × Ledger :=
  match ctx, l.execution? id with
  | some err, _ => (.error err, l)
  | none, none => (.error (.wrap .executionRecordNotFound id), l)
  | none, some record =>
    if record.revision ≠ revision ∨ isTerminalExecutionState record.state = true ∨ record.recoveryToken ≠ [] then
      (.error (.of .optimisticConflict), l)
    else (.ok (stateSet record state message now), l.setExecution (stateSet record state message now))

/-! ### Recovery leases -/

/-- Whether a recovery worker may take the execution at `now`. -/
def isLeasable (now : Time) (record : ExecutionRecord) : Bool :=
  !isTerminalExecutionState record.state && decide (record.recoveryToken = [] ∨ record.recoveryDeadline ≤ now)

/-- The longest untouched first. -/
def leasesBefore (a b : ExecutionRecord) : Bool :=
  if a.updatedAt ≠ b.updatedAt then decide (a.updatedAt < b.updatedAt) else Text.lt a.executionID b.executionID

/-- A record under a recovery lease. -/
def underLease (record : ExecutionRecord) (owner token : Text) (now : Time) (duration : Int) : ExecutionRecord :=
  { record with
    recoveryOwner := owner, recoveryToken := token, recoveryDeadline := now + duration
    revision := record.revision + 1, updatedAt := now }

/-- The lease a record's own fields describe. -/
def leaseOf (record : ExecutionRecord) : ExecutionLease :=
  ⟨record.executionID, record.recoveryOwner, record.recoveryToken, record.recoveryDeadline, record.revision⟩

/-- Sixteen bytes from the random source. -/
abbrev Entropy := { bytes : Text // bytes.length = 16 }

def executionLeaseToken (entropy : Except Err Entropy) : Except Err Text := entropy.map fun e => hexEncode e.1

/-- Lease one record after another; `random` is what the random source returns at each. A token that cannot
be drawn ends the call, with the records leased so far kept. -/
def leaseEach (owner : Text) (now : Time) (duration : Int) (random : Nat → Except Err Entropy) :
    Nat → List ExecutionRecord → Ledger → Except Err (List ExecutionLease) × Ledger
  | _, [], l => (.ok [], l)
  | index, record :: rest, l =>
    match executionLeaseToken (random index) with
    | .error err => (.error err, l)
    | .ok token =>
      let taken := underLease record owner token now duration
      match leaseEach owner now duration random (index + 1) rest (l.setExecution taken) with
      | (.error err, l) => (.error err, l)
      | (.ok leases, l) => (.ok (leaseOf taken :: leases), l)

def leaseExecutions (l : Ledger) (ctx : Option Err) (now : Time) (random : Nat → Except Err Entropy) (owner : Text)
    (limit duration : Int) : Except Err (List ExecutionLease) × Ledger :=
  match ctx with
  | some err => (.error err, l)
  | none =>
    if Text.trimSpace owner = [] ∨ limit ≤ 0 ∨ duration ≤ 0 then
      (.error (.new "recovery owner, positive limit, and lease duration are required"), l)
    else
      leaseEach owner now duration random 0 (((l.executions.filter (isLeasable now)).insertionSort fun a b =>
        leasesBefore b a = false).take limit.toNat) l

/-- Whether the record is still under the lease, whose deadline has not passed. -/
def holdsLease (record : ExecutionRecord) (lease : ExecutionLease) (now : Time) : Bool :=
  decide (record.recoveryOwner = lease.owner ∧ record.recoveryToken = lease.token ∧
    record.revision = lease.revision ∧ now < record.recoveryDeadline)

def renewedTo (record : ExecutionRecord) (deadline : Time) : ExecutionRecord := { record with recoveryDeadline := deadline }

def renewExecutionLease (l : Ledger) (ctx : Option Err) (now : Time) (lease : ExecutionLease) (duration : Int) :
    Except Err ExecutionLease × Ledger :=
  match ctx with
  | some err => (.error err, l)
  | none =>
    if duration ≤ 0 then (.error (.new "positive lease duration is required"), l)
    else
      match l.execution? lease.executionID with
      | none => (.error (.of .staleExecutionLease), l)
      | some record =>
        if holdsLease record lease now && !isTerminalExecutionState record.state then
          let deadline := max record.recoveryDeadline (now + duration)
          (.ok { lease with deadline := deadline }, l.setExecution (renewedTo record deadline))
        else (.error (.of .staleExecutionLease), l)

/-- The record `FinishExecutionLease` writes; the empty text leaves the execution in its own state. -/
def leaseFinished (record : ExecutionRecord) (state : ExecutionState) (message : Text) (now : Time) : ExecutionRecord :=
  { (if state = .other [] then record else disposed record state) with
    lastError := message, recoveryOwner := [], recoveryToken := [], recoveryDeadline := 0
    revision := record.revision + 1, updatedAt := now }

/-- `FinishExecutionLease`; the clock is read for the lease and again for the update. -/
def finishExecutionLease (l : Ledger) (ctx : Option Err) (checkedAt updatedAt : Time) (lease : ExecutionLease)
    (state : ExecutionState) (message : Text) : Except Err Unit × Ledger :=
  match ctx, l.execution? lease.executionID with
  | some err, _ => (.error err, l)
  | none, none => (.error (.wrap .executionRecordNotFound lease.executionID), l)
  | none, some record =>
    if holdsLease record lease checkedAt then (.ok (), l.setExecution (leaseFinished record state message updatedAt))
    else (.error (.of .staleExecutionLease), l)

end Ledger

end Effectus

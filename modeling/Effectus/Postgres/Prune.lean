import Effectus.Postgres.Transaction

/-!
Retention: one bounded transaction that picks candidates by five queries, each with its own limit, counts the
rows they stand for and deletes them in the order of the references. `before` is the cutoff as the database
compares it.
-/

namespace Effectus.Postgres

structure PruneOptions where
  before : Time
  retention : Int
  batchSize : Int
  dryRun : Bool

structure PruneReport where
  executions : Nat
  executionPlans : Nat
  factApplications : Nat
  factSnapshots : Nat
  sagaInstances : Nat
  sagaSteps : Nat
  sagaOutbox : Nat
  sagaAttempts : Nat
  ruleGenerations : Nat
  artifacts : Nat
  kafkaDeliveries : Nat
  deriving DecidableEq

section

variable (before : Timestamp)

/-! ### What is too young or still open -/

def SagaRow.unsettled (r : SagaRow) : Bool :=
  decide (r.state ≠ .completed ∧ r.state ≠ .compensated ∧ r.state ≠ .failed)

def OutboxRow.open (r : OutboxRow) : Bool :=
  decide (r.state ≠ .succeeded ∧ r.state ≠ .failedPermanent ∧ r.state ≠ .canceled) || decide (before ≤ r.updatedAt) ||
    r.leaseOwner.isSome || r.leaseToken.isSome || r.leaseDeadline.isSome

/-- A completion that is NULL is open. -/
def AttemptRow.open (r : AttemptRow) : Bool := r.completedAt.all fun t => decide (before ≤ t)

/-! ### Candidates -/

def prunableExecution (db : Database) (r : ExecutionRow) : Bool :=
  decide (r.state = .completed ∨ r.state = .failed) && decide (r.updatedAt < before) &&
    (r.recoveryOwner.isNone && r.recoveryToken.isNone && r.recoveryDeadline.isNone) &&
    !(db.plans.any fun plan => decide (plan.executionID = r.executionID) &&
      db.sagas.any fun saga => decide (saga.sagaID = plan.sagaID) && (saga.unsettled || decide (before ≤ saga.updatedAt))) &&
    !(db.plans.any fun plan => decide (plan.executionID = r.executionID) &&
      db.outbox.any fun outbox => decide (outbox.sagaID = plan.sagaID) && outbox.open before) &&
    !(db.plans.any fun plan => decide (plan.executionID = r.executionID) &&
      db.outbox.any fun outbox => decide (outbox.sagaID = plan.sagaID) &&
        db.attempts.any fun attempt => decide (attempt.dispatchID = outbox.dispatchID) && attempt.open before) &&
    !(db.applications.any fun application => decide (application.executionID = r.executionID) &&
      decide (before ≤ application.appliedAt)) &&
    !(db.snapshots.any fun snapshot => decide (snapshot.executionID = r.executionID) &&
      decide (before ≤ snapshot.createdAt))

/-- The collation of the database, which orders texts; texts it ties are equal, a deterministic one telling the rest apart
by their bytes. -/
class Collation where
  le : Text → Text → Bool
  total : ∀ a b, le a b = true ∨ le b a = true
  trans : ∀ {a b c}, le a b = true → le b c = true → le a c = true
  antisymm : ∀ {a b}, le a b = true → le b a = true → a = b

/-- `ORDER BY` a time and then an identifier: whether `a` comes after `b`. -/
def comesAfter [Collation] (a b : Timestamp × Text) : Bool :=
  if a.1 ≠ b.1 then decide (b.1 < a.1) else !Collation.le a.2 b.2

def ExecutionRow.late [Collation] (a b : ExecutionRow) : Bool :=
  comesAfter (a.updatedAt, a.executionID) (b.updatedAt, b.executionID)

def pruneExecutions [Collation] (db : Database) (limit : Nat) : List Text :=
  (Table.first ExecutionRow.late limit (db.executions.filter (prunableExecution before db))).map (·.executionID)

/-- A saga whose plan belongs to an execution that stays is not a candidate. -/
def prunableSaga (db : Database) (executions : List Text) (r : SagaRow) : Bool :=
  !r.unsettled && decide (r.updatedAt < before) &&
    !(db.outbox.any fun outbox => decide (outbox.sagaID = r.sagaID) && outbox.open before) &&
    !(db.outbox.any fun outbox => decide (outbox.sagaID = r.sagaID) &&
      db.attempts.any fun attempt => decide (attempt.dispatchID = outbox.dispatchID) && attempt.open before) &&
    !(db.plans.any fun plan => decide (plan.sagaID = r.sagaID) && !executions.contains plan.executionID)

def SagaRow.late [Collation] (a b : SagaRow) : Bool := comesAfter (a.updatedAt, a.sagaID) (b.updatedAt, b.sagaID)

def pruneSagas [Collation] (db : Database) (executions : List Text) (limit : Nat) : List Text :=
  (Table.first SagaRow.late limit (db.sagas.filter (prunableSaga before db executions))).map (·.sagaID)

def DeliveryRow.late [Collation] (a b : DeliveryRow) : Bool :=
  comesAfter (a.updatedAt, a.deliveryID) (b.updatedAt, b.deliveryID)

def pruneKafka [Collation] (db : Database) (limit : Nat) : List Text :=
  (Table.first DeliveryRow.late limit
    (db.deliveries.filter fun r => r.poisonAcknowledged && decide (r.updatedAt < before))).map (·.deliveryID)

/-- Whether some execution of a generation stays. -/
def keepsGeneration (db : Database) (executions : List Text) (digest : Text) : Bool :=
  db.executions.any fun execution => decide (execution.generationDigest = digest) &&
    !executions.contains execution.executionID

def GenerationRow.retiredBefore (r : GenerationRow) : Bool :=
  decide (r.state = .retired) && r.retiredAt.any fun t => decide (t < before)

def prunableGeneration (db : Database) (executions : List Text) (r : GenerationRow) : Bool :=
  r.retiredBefore before && !keepsGeneration db executions r.generationDigest

/-- A candidate's retirement time is not NULL. -/
def GenerationRow.late [Collation] (a b : GenerationRow) : Bool :=
  comesAfter (a.retiredAt.getD 0, a.generationDigest) (b.retiredAt.getD 0, b.generationDigest)

def pruneGenerations [Collation] (db : Database) (executions : List Text) (limit : Nat) :
    List (Text × Text × Text) :=
  (Table.first GenerationRow.late limit (db.generations.filter (prunableGeneration before db executions))).map (·.key)

def prunableArtifact (db : Database) (executions : List Text) (generations : List (Text × Text × Text))
    (r : ArtifactRow) : Bool :=
  decide (r.createdAt < before) && !keepsGeneration db executions r.digest &&
    !(db.generations.any fun generation => decide (generation.generationDigest = r.digest) &&
      !generations.contains generation.key)

def ArtifactRow.late [Collation] (a b : ArtifactRow) : Bool := comesAfter (a.createdAt, a.digest) (b.createdAt, b.digest)

def pruneArtifacts [Collation] (db : Database) (executions : List Text) (generations : List (Text × Text × Text))
    (limit : Nat) : List Text :=
  (Table.first ArtifactRow.late limit
    (db.artifacts.filter (prunableArtifact before db executions generations))).map (·.digest)

/-- The temporary tables. -/
structure Candidates where
  executions : List Text
  sagas : List Text
  kafka : List Text
  generations : List (Text × Text × Text)
  artifacts : List Text

def candidates [Collation] (db : Database) (limit : Nat) : Candidates :=
  let executions := pruneExecutions before db limit
  let generations := pruneGenerations before db executions limit
  { executions := executions
    sagas := pruneSagas before db executions limit
    kafka := pruneKafka before db limit
    generations := generations
    artifacts := pruneArtifacts before db executions generations limit }

/-! ### Rows the candidates stand for -/

section

variable (c : Candidates)

/-- `saga_id IN (SELECT saga_id FROM effectus_prune_sagas)`. -/
def Candidates.hasSaga (sagaID : Text) : Bool := c.sagas.contains sagaID

def Candidates.hasExecution (executionID : Text) : Bool := c.executions.contains executionID

def Candidates.attempt (db : Database) (r : AttemptRow) : Bool :=
  ((db.outbox.filter fun outbox => c.hasSaga outbox.sagaID).map (·.dispatchID)).contains r.dispatchID

def Candidates.plan (r : PlanRow) : Bool := c.hasExecution r.executionID || c.hasSaga r.sagaID

/-- The second look at a retired generation: nothing that is left runs it. -/
def Candidates.generation (db : Database) (r : GenerationRow) : Bool :=
  c.generations.contains r.key && r.retiredBefore before &&
    !(db.executions.any fun execution => decide (execution.generationDigest = r.generationDigest))

def Candidates.artifact (db : Database) (r : ArtifactRow) : Bool :=
  c.artifacts.contains r.digest &&
    !(db.generations.any fun generation => decide (generation.generationDigest = r.digest)) &&
    !(db.executions.any fun execution => decide (execution.generationDigest = r.digest))

/-- `inspectPruneCandidates`. -/
def inspectPruneCandidates (db : Database) : PruneReport where
  executions := c.executions.length
  executionPlans := (db.plans.filter c.plan).length
  factApplications := (db.applications.filter fun r => c.hasExecution r.executionID).length
  factSnapshots := (db.snapshots.filter fun r => c.hasExecution r.executionID).length
  sagaInstances := c.sagas.length
  sagaSteps := (db.steps.filter fun r => c.hasSaga r.sagaID).length
  sagaOutbox := (db.outbox.filter fun r => c.hasSaga r.sagaID).length
  sagaAttempts := (db.attempts.filter (c.attempt db)).length
  ruleGenerations := c.generations.length
  artifacts := c.artifacts.length
  kafkaDeliveries := c.kafka.length

/-! ### Deletions -/

def deleteAttempts (db : Database) : Database := { db with attempts := Table.delete (c.attempt db) db.attempts }

def deleteOutbox (db : Database) : Database :=
  { db with outbox := Table.delete (fun r => c.hasSaga r.sagaID) db.outbox }

def deleteSnapshots (db : Database) : Database :=
  { db with snapshots := Table.delete (fun r => c.hasExecution r.executionID) db.snapshots }

def deleteApplications (db : Database) : Database :=
  { db with applications := Table.delete (fun r => c.hasExecution r.executionID) db.applications }

def deletePlans (db : Database) : Database := { db with plans := Table.delete c.plan db.plans }

def deleteSteps (db : Database) : Database :=
  { db with steps := Table.delete (fun r => c.hasSaga r.sagaID) db.steps }

def deleteSagas (db : Database) : Database :=
  { db with sagas := Table.delete (fun r => c.hasSaga r.sagaID) db.sagas }

def deleteExecutions (db : Database) : Database :=
  { db with executions := Table.delete (fun r => c.hasExecution r.executionID) db.executions }

def deleteDeliveries (db : Database) : Database :=
  { db with deliveries := Table.delete (fun r => c.kafka.contains r.deliveryID) db.deliveries }

def deleteGenerations (db : Database) : Database :=
  { db with generations := Table.delete (c.generation before db) db.generations }

def deleteArtifacts (db : Database) : Database := { db with artifacts := Table.delete (c.artifact db) db.artifacts }

/-- The deletions in their order. -/
def deletions : Tx Unit := do
  Tx.execDelete (deleteAttempts c)
  Tx.execDelete (deleteOutbox c)
  Tx.execDelete (deleteSnapshots c)
  Tx.execDelete (deleteApplications c)
  Tx.execDelete (deletePlans c)
  Tx.execDelete (deleteSteps c)
  Tx.execDelete (deleteSagas c)
  Tx.execDelete (deleteExecutions c)
  Tx.execDelete (deleteDeliveries c)
  Tx.execDelete (deleteGenerations before c)
  Tx.execDelete (deleteArtifacts c)

end

end

/-- The cutoff: the one given, or the start of the retention time. -/
def PruneOptions.cutoff (options : PruneOptions) (now : Time) : Time :=
  if options.before = 0 ∧ 0 < options.retention then now - options.retention else options.before

def pruneTerminalRecords [Collation] (db : Database) (now : Time) (options : PruneOptions) :
    Except Failure PruneReport × Database :=
  if options.cutoff now = 0 then (.error (.err (.new "prune cutoff or positive retention is required")), db)
  else if options.batchSize < 1 ∨ 10000 < options.batchSize then
    (.error (.err (.new "prune batch size must be between 1 and 10000")), db)
  else
    let before := timestamptz (options.cutoff now)
    let c := candidates before db options.batchSize.toNat
    let report := inspectPruneCandidates c db
    if options.dryRun then (.ok report, db)
    else Tx.commit (do deletions before c; pure report) db

end Effectus.Postgres

import Effectus.Postgres.Prune

/-!
Retention. Deleting in the order of the references breaks none of them, whatever the candidates are; that the
candidates are right is what the queries decide. A row that belongs to an execution that stays is no
candidate's, and the second look at generations and artifacts finds nothing the first did not.
-/

namespace Effectus.Postgres

variable {db : Database} {before : Timestamp} {limit : Nat} {c : Candidates}

/-! ### Running the deletions -/

theorem execDelete_ok {f : Database → Database} (h : (f db).ForeignKeys) : Tx.execDelete f db = .ok ((), f db) :=
  if_pos h

/-- A deletion that keeps the references goes through, and the rest runs on what it leaves. -/
theorem execDelete_bind {α : Type} {f : Database → Database} (h : (f db).ForeignKeys) (rest : Unit → Tx α) :
    (Tx.execDelete f >>= rest) db = rest () (f db) := by
  show (Tx.execDelete f db >>= fun p => rest p.1 p.2) = _
  rw [execDelete_ok h]
  rfl

/-- The tables after every deletion. -/
def pruned (before : Timestamp) (c : Candidates) (db : Database) : Database :=
  deleteArtifacts c (deleteGenerations before c (deleteDeliveries c (deleteExecutions c (deleteSagas c (deleteSteps c
    (deletePlans c (deleteApplications c (deleteSnapshots c (deleteOutbox c (deleteAttempts c db))))))))))

theorem attempt_of_hasSaga {a : AttemptRow} {o : OutboxRow} (ho : o ∈ db.outbox) (he : o.dispatchID = a.dispatchID)
    (hs : c.hasSaga o.sagaID = true) : c.attempt db a = true := by
  rw [Candidates.attempt, List.contains_iff_mem, ← he]
  exact List.mem_map_of_mem (List.mem_filter.2 ⟨ho, hs⟩)

/-- Attempts go before the dispatches they were made at. -/
theorem foreignKeys_outbox (h : db.ForeignKeys) : (deleteOutbox c (deleteAttempts c db)).ForeignKeys where
  steps := h.steps
  outbox := h.outbox.delete
  outboxSteps := h.outboxSteps.delete
  attempts := h.attempts.delete.delete_target fun a ha o ho he => by
    cases hs : c.hasSaga o.sagaID with
    | false => rfl
    | true =>
      have := attempt_of_hasSaga ho he hs
      rw [(Table.mem_delete.1 ha).2] at this
      cases this
  generations := h.generations
  executions := h.executions
  plans := h.plans
  planSagas := h.planSagas
  applications := h.applications
  snapshots := h.snapshots

/-- Nothing is left that refers to a candidate saga's steps. -/
theorem foreignKeys_steps (h : db.ForeignKeys) (ho : ∀ o ∈ db.outbox, c.hasSaga o.sagaID = false) :
    (deleteSteps c db).ForeignKeys where
  steps := h.steps.delete
  outbox := h.outbox
  outboxSteps := h.outboxSteps.delete_target fun o hm step _ he => by
    rw [show step.sagaID = o.sagaID from congrArg Prod.fst he]
    exact ho o hm
  attempts := h.attempts
  generations := h.generations
  executions := h.executions
  plans := h.plans
  planSagas := h.planSagas
  applications := h.applications
  snapshots := h.snapshots

/-- Nothing is left that refers to a candidate saga. -/
theorem foreignKeys_sagas (h : db.ForeignKeys) (hs : ∀ r ∈ db.steps, c.hasSaga r.sagaID = false)
    (ho : ∀ r ∈ db.outbox, c.hasSaga r.sagaID = false) (hp : ∀ r ∈ db.plans, c.plan r = false) :
    (deleteSagas c db).ForeignKeys where
  steps := h.steps.delete_target fun r hr _ _ he => he ▸ hs r hr
  outbox := h.outbox.delete_target fun r hr _ _ he => he ▸ ho r hr
  outboxSteps := h.outboxSteps
  attempts := h.attempts
  generations := h.generations
  executions := h.executions
  plans := h.plans
  planSagas := h.planSagas.delete_target fun r hr _ _ he => he ▸ (Bool.or_eq_false_iff.1 (hp r hr)).2
  applications := h.applications
  snapshots := h.snapshots

/-- Nothing is left that refers to a candidate execution. -/
theorem foreignKeys_executions (h : db.ForeignKeys) (hp : ∀ r ∈ db.plans, c.plan r = false)
    (ha : ∀ r ∈ db.applications, c.hasExecution r.executionID = false)
    (hs : ∀ r ∈ db.snapshots, c.hasExecution r.executionID = false) : (deleteExecutions c db).ForeignKeys where
  steps := h.steps
  outbox := h.outbox
  outboxSteps := h.outboxSteps
  attempts := h.attempts
  generations := h.generations
  executions := h.executions.delete
  plans := h.plans.delete_target fun r hr _ _ he => he ▸ (Bool.or_eq_false_iff.1 (hp r hr)).1
  planSagas := h.planSagas
  applications := h.applications.delete_target fun r hr _ _ he => he ▸ ha r hr
  snapshots := h.snapshots.delete_target fun r hr _ _ he => he ▸ hs r hr

/-- An artifact goes only when no generation and no execution is left that refers to it. -/
theorem foreignKeys_artifacts (h : db.ForeignKeys) : (deleteArtifacts c db).ForeignKeys where
  steps := h.steps
  outbox := h.outbox
  outboxSteps := h.outboxSteps
  attempts := h.attempts
  generations := h.generations.delete_target fun r hr artifact _ he => by
    have : (db.generations.any fun g => decide (g.generationDigest = artifact.digest)) = true :=
      List.any_eq_true.2 ⟨r, hr, by simp [he]⟩
    simp [Candidates.artifact, this]
  executions := h.executions.delete_target fun r hr artifact _ he => by
    have : (db.executions.any fun e => decide (e.generationDigest = artifact.digest)) = true :=
      List.any_eq_true.2 ⟨r, hr, by simp [he]⟩
    simp [Candidates.artifact, this]
  plans := h.plans
  planSagas := h.planSagas
  applications := h.applications
  snapshots := h.snapshots

theorem foreignKeys_deliveries (h : db.ForeignKeys) : (deleteDeliveries c db).ForeignKeys := { h with }

theorem foreignKeys_generations (h : db.ForeignKeys) : (deleteGenerations before c db).ForeignKeys :=
  { h with generations := h.generations.delete }

theorem deletions_ok (h : db.ForeignKeys) :
    deletions before c db = .ok ((), pruned before c db) ∧ (pruned before c db).ForeignKeys := by
  have h₁ : (deleteAttempts c db).ForeignKeys := { h with attempts := h.attempts.delete }
  have h₂ := foreignKeys_outbox (c := c) h
  generalize hd₂ : deleteOutbox c (deleteAttempts c db) = d₂ at h₂
  have ho : ∀ r ∈ d₂.outbox, c.hasSaga r.sagaID = false := hd₂ ▸ fun r hr => (Table.mem_delete.1 hr).2
  have h₃ : (deleteSnapshots c d₂).ForeignKeys := { h₂ with snapshots := h₂.snapshots.delete }
  have h₄ : (deleteApplications c (deleteSnapshots c d₂)).ForeignKeys := { h₃ with applications := h₃.applications.delete }
  have h₅ : (deletePlans c (deleteApplications c (deleteSnapshots c d₂))).ForeignKeys :=
    { h₄ with plans := h₄.plans.delete, planSagas := h₄.planSagas.delete }
  have hp : ∀ r ∈ (deletePlans c (deleteApplications c (deleteSnapshots c d₂))).plans, c.plan r = false :=
    fun r hr => (Table.mem_delete.1 hr).2
  have h₆ := foreignKeys_steps (c := c) h₅ ho
  have h₇ := foreignKeys_sagas (c := c) h₆ (fun r hr => (Table.mem_delete.1 hr).2) ho hp
  have h₈ := foreignKeys_executions (c := c) h₇ hp (fun r hr => (Table.mem_delete.1 hr).2)
    (fun r hr => (Table.mem_delete.1 hr).2)
  have h₉ := foreignKeys_deliveries (c := c) h₈
  have h₁₀ : (deleteGenerations before c _).ForeignKeys := foreignKeys_generations h₉
  have h₁₁ := foreignKeys_artifacts (c := c) h₁₀
  subst hd₂
  refine ⟨?_, h₁₁⟩
  rw [deletions, execDelete_bind h₁, execDelete_bind h₂, execDelete_bind h₃, execDelete_bind h₄, execDelete_bind h₅,
    execDelete_bind h₆, execDelete_bind h₇, execDelete_bind h₈, execDelete_bind h₉, execDelete_bind h₁₀,
    execDelete_ok h₁₁]
  rfl

/-! ### Candidates -/

section

variable {ids : List Text} {gens : List (Text × Text × Text)}

/-- A row whose key was picked is the row that was picked. -/
theorem picked {ρ κ : Type} [BEq κ] [LawfulBEq κ] {late : ρ → ρ → Bool} {key : ρ → κ} {rows : List ρ}
    {p : ρ → Bool} (hu : Table.Unique key rows) {r : ρ} (hr : r ∈ rows)
    (h : ((Table.first late limit (rows.filter p)).map key).contains (key r) = true) : p r = true := by
  obtain ⟨x, hx, he⟩ := List.mem_map.1 (List.contains_iff_mem.1 h)
  obtain ⟨hm, hp⟩ := List.mem_filter.1 (Table.mem_of_mem_first hx)
  rwa [hu.eq_of_key hm hr he] at hp

/-- Deleting the rows with a picked key deletes as many as keys were picked. -/
theorem count_picked {ρ κ : Type} [BEq κ] [LawfulBEq κ] {late : ρ → ρ → Bool} {key : ρ → κ} {rows : List ρ}
    {p q : ρ → Bool} (hu : Table.Unique key rows)
    (hq : ∀ r ∈ rows, q r = ((Table.first late limit (rows.filter p)).map key).contains (key r)) :
    ((Table.first late limit (rows.filter p)).map key).length + (Table.delete q rows).length = rows.length := by
  have hsub : ∀ k ∈ (Table.first late limit (rows.filter p)).map key, ∃ r ∈ rows, key r = k := fun k hk => by
    obtain ⟨r, hr, rfl⟩ := List.mem_map.1 hk
    exact ⟨r, (List.mem_filter.1 (Table.mem_of_mem_first hr)).1, rfl⟩
  rw [← Table.length_filter_contains hu (Table.Unique.first (hu.filter p)) hsub, ← List.filter_congr hq]
  exact Table.length_delete

theorem prunableSaga_iff {r : SagaRow} : prunableSaga before db ids r = true ↔
    r.unsettled = false ∧ r.updatedAt < before ∧
      (∀ o ∈ db.outbox, o.sagaID = r.sagaID → o.open before = false) ∧
      (∀ o ∈ db.outbox, o.sagaID = r.sagaID → ∀ a ∈ db.attempts, a.dispatchID = o.dispatchID → a.open before = false) ∧
      ∀ plan ∈ db.plans, plan.sagaID = r.sagaID → plan.executionID ∈ ids := by
  simp [prunableSaga, and_assoc]

theorem prunableExecution_iff {r : ExecutionRow} : prunableExecution before db r = true ↔
    (r.state = .completed ∨ r.state = .failed) ∧ r.updatedAt < before ∧
      (r.recoveryOwner = none ∧ r.recoveryToken = none ∧ r.recoveryDeadline = none) ∧
      (∀ plan ∈ db.plans, plan.executionID = r.executionID → ∀ saga ∈ db.sagas, saga.sagaID = plan.sagaID →
        saga.unsettled = false ∧ saga.updatedAt < before) ∧
      (∀ plan ∈ db.plans, plan.executionID = r.executionID → ∀ o ∈ db.outbox, o.sagaID = plan.sagaID →
        o.open before = false) ∧
      (∀ plan ∈ db.plans, plan.executionID = r.executionID → ∀ o ∈ db.outbox, o.sagaID = plan.sagaID →
        ∀ a ∈ db.attempts, a.dispatchID = o.dispatchID → a.open before = false) ∧
      (∀ a ∈ db.applications, a.executionID = r.executionID → a.appliedAt < before) ∧
      ∀ x ∈ db.snapshots, x.executionID = r.executionID → x.createdAt < before := by
  simp [prunableExecution, and_assoc]

theorem keepsGeneration_iff {digest : Text} : keepsGeneration db ids digest = false ↔
    ∀ e ∈ db.executions, e.generationDigest = digest → e.executionID ∈ ids := by
  simp [keepsGeneration]

theorem prunableArtifact_iff {r : ArtifactRow} : prunableArtifact before db ids gens r = true ↔
    r.createdAt < before ∧ (∀ e ∈ db.executions, e.generationDigest = r.digest → e.executionID ∈ ids) ∧
      ∀ g ∈ db.generations, g.generationDigest = r.digest → g.key ∈ gens := by
  simp [prunableArtifact, keepsGeneration_iff, and_assoc]

end

/-! ### What stays -/

/-- The rows of a saga are kept. -/
structure SagaKept (db after : Database) (sagaID : Text) : Prop where
  sagas : ∀ r ∈ db.sagas, r.sagaID = sagaID → r ∈ after.sagas
  steps : ∀ r ∈ db.steps, r.sagaID = sagaID → r ∈ after.steps
  outbox : ∀ r ∈ db.outbox, r.sagaID = sagaID → r ∈ after.outbox
  attempts : ∀ o ∈ db.outbox, o.sagaID = sagaID → ∀ r ∈ db.attempts, r.dispatchID = o.dispatchID → r ∈ after.attempts

/-- The saga of one of an execution's plans. -/
def Database.Planned (db : Database) (executionID sagaID : Text) : Prop :=
  ∃ plan ∈ db.plans, plan.executionID = executionID ∧ plan.sagaID = sagaID

/-- The rows of an execution are kept, its sagas being those its plans name. -/
structure ExecutionKept (db after : Database) (e : ExecutionRow) : Prop where
  plans : ∀ r ∈ db.plans, r.executionID = e.executionID → r ∈ after.plans
  applications : ∀ r ∈ db.applications, r.executionID = e.executionID → r ∈ after.applications
  snapshots : ∀ r ∈ db.snapshots, r.executionID = e.executionID → r ∈ after.snapshots
  sagas : ∀ sagaID, db.Planned e.executionID sagaID → SagaKept db after sagaID
  artifact : ∀ r ∈ db.artifacts, r.digest = e.generationDigest → r ∈ after.artifacts

/-- The report counts the rows that are gone, table by table. -/
structure Counted (report : PruneReport) (db after : Database) : Prop where
  executions : report.executions + after.executions.length = db.executions.length
  plans : report.executionPlans + after.plans.length = db.plans.length
  applications : report.factApplications + after.applications.length = db.applications.length
  snapshots : report.factSnapshots + after.snapshots.length = db.snapshots.length
  sagas : report.sagaInstances + after.sagas.length = db.sagas.length
  steps : report.sagaSteps + after.steps.length = db.steps.length
  outbox : report.sagaOutbox + after.outbox.length = db.outbox.length
  attempts : report.sagaAttempts + after.attempts.length = db.attempts.length
  generations : report.ruleGenerations + after.generations.length = db.generations.length
  artifacts : report.artifacts + after.artifacts.length = db.artifacts.length
  deliveries : report.kafkaDeliveries + after.deliveries.length = db.deliveries.length

section

variable (before limit) (hu : db.Uniques)

include hu

/-- A saga none of whose rows is a candidate's keeps them all. -/
theorem sagaKept_of_not_hasSaga {sagaID : Text} (h : c.hasSaga sagaID = false) :
    SagaKept db (pruned before c db) sagaID where
  sagas _ hr he := Table.mem_delete.2 ⟨hr, he ▸ h⟩
  steps _ hr he := Table.mem_delete.2 ⟨hr, he ▸ h⟩
  outbox _ hr he := Table.mem_delete.2 ⟨hr, he ▸ h⟩
  attempts o ho he r hr hid := by
    refine Table.mem_delete.2 ⟨hr, ?_⟩
    rw [Candidates.attempt, ← Bool.not_eq_true, List.contains_iff_mem, List.mem_map]
    rintro ⟨x, hx, hxid⟩
    obtain ⟨hx, hsaga⟩ := List.mem_filter.1 hx
    rw [hu.saga.outbox.eq_of_key hx ho (hxid.trans hid), he, h] at hsaga
    cases hsaga

theorem hasSaga_planned [Collation] (hfk : db.ForeignKeys) {e : Text} {sagaID : Text} (hp : db.Planned e sagaID)
    (h : (candidates before db limit).hasSaga sagaID = true) : e ∈ pruneExecutions before db limit := by
  obtain ⟨plan, hplan, rfl, rfl⟩ := hp
  obtain ⟨saga, hsaga, he⟩ := hfk.planSagas plan hplan
  have hprune := prunableSaga_iff.1 (picked hu.saga.sagas hsaga (he ▸ h))
  exact hprune.2.2.2.2 plan hplan he.symm

theorem executionKept [Collation] (hfk : db.ForeignKeys) {e : ExecutionRow} (he : e ∈ db.executions)
    (hid : e.executionID ∉ pruneExecutions before db limit) :
    ExecutionKept db (pruned before (candidates before db limit) db) e := by
  have hno : (candidates before db limit).hasExecution e.executionID = false := by
    rw [Candidates.hasExecution, ← Bool.not_eq_true, List.contains_iff_mem]
    exact hid
  have hsaga : ∀ sagaID, db.Planned e.executionID sagaID → (candidates before db limit).hasSaga sagaID = false := by
    intro sagaID hp
    rw [← Bool.not_eq_true]
    exact fun h => hid (hasSaga_planned before limit hu hfk hp h)
  refine ⟨fun r hr hre => ?_, fun r hr hre => ?_, fun r hr hre => ?_, fun sagaID hp => ?_, fun r hr hre => ?_⟩
  · refine Table.mem_delete.2 ⟨hr, ?_⟩
    rw [Candidates.plan, hre, hno, hsaga r.sagaID ⟨r, hr, hre, rfl⟩]
    rfl
  · exact Table.mem_delete.2 ⟨hr, hre ▸ hno⟩
  · exact Table.mem_delete.2 ⟨hr, hre ▸ hno⟩
  · exact sagaKept_of_not_hasSaga before hu (hsaga sagaID hp)
  · have hstays : (db.executions.filter fun x => !(candidates before db limit).hasExecution x.executionID).any
        (fun x => decide (x.generationDigest = r.digest)) = true :=
      List.any_eq_true.2 ⟨e, List.mem_filter.2 ⟨he, by rw [hno]; rfl⟩, by simp [hre]⟩
    refine Table.mem_delete.2 ⟨hr, ?_⟩
    rw [Candidates.artifact, Bool.and_eq_false_iff]
    exact .inr (by rw [Bool.not_eq_false']; exact hstays)

/-- The second look at the generations finds every candidate: no execution is left that runs one. -/
theorem generation_picked [Collation] {r : GenerationRow} (hr : r ∈ db.generations) :
    (candidates before db limit).generation before (deleteExecutions (candidates before db limit) db) r =
      (candidates before db limit).generations.contains r.key := by
  cases hc : (candidates before db limit).generations.contains r.key with
  | false => rw [Candidates.generation, hc, Bool.false_and, Bool.false_and]
  | true =>
    have hprune := picked hu.ledger.generations hr hc
    rw [prunableGeneration, Bool.and_eq_true, Bool.not_eq_true', keepsGeneration_iff] at hprune
    rw [Candidates.generation, hc, hprune.1, Bool.and_self, Bool.true_and, Bool.not_eq_true', List.any_eq_false]
    intro e he
    obtain ⟨hm, hstays⟩ := Table.mem_delete.1 he
    rw [decide_eq_true_eq]
    exact fun hd => by simp [Candidates.hasExecution, candidates, hprune.2 e hm hd] at hstays

/-- And so does the second look at the artifacts: their generations are gone too. -/
theorem artifact_picked [Collation] {r : ArtifactRow} (hr : r ∈ db.artifacts) :
    (candidates before db limit).artifact (deleteGenerations before (candidates before db limit)
        (deleteExecutions (candidates before db limit) db)) r =
      (candidates before db limit).artifacts.contains r.digest := by
  cases hc : (candidates before db limit).artifacts.contains r.digest with
  | false => rw [Candidates.artifact, hc, Bool.false_and, Bool.false_and]
  | true =>
    obtain ⟨-, hexecutions, hgenerations⟩ := prunableArtifact_iff.1 (picked hu.ledger.artifacts hr hc)
    rw [Candidates.artifact, hc, Bool.true_and, Bool.and_eq_true, Bool.not_eq_true', Bool.not_eq_true',
      List.any_eq_false, List.any_eq_false]
    refine ⟨fun g hg => ?_, fun e he => ?_⟩
    · obtain ⟨hm, hstays⟩ := Table.mem_delete.1 hg
      rw [decide_eq_true_eq]
      intro hd
      have hpicked := generation_picked before limit hu hm
      rw [hstays, eq_comm, ← Bool.not_eq_true, List.contains_iff_mem] at hpicked
      exact hpicked (hgenerations g hm hd)
    · obtain ⟨hm, hstays⟩ := Table.mem_delete.1 he
      rw [decide_eq_true_eq]
      exact fun hd => by simp [Candidates.hasExecution, candidates, hexecutions e hm hd] at hstays

theorem counted [Collation] : Counted (inspectPruneCandidates (candidates before db limit) db) db
    (pruned before (candidates before db limit) db) where
  executions := count_picked hu.ledger.executions fun _ _ => rfl
  plans := Table.length_delete
  applications := Table.length_delete
  snapshots := Table.length_delete
  sagas := count_picked hu.saga.sagas fun _ _ => rfl
  steps := Table.length_delete
  outbox := Table.length_delete
  attempts := Table.length_delete
  generations := count_picked hu.ledger.generations fun _ hr => generation_picked before limit hu hr
  artifacts := count_picked hu.ledger.artifacts fun _ hr => artifact_picked before limit hu hr
  deliveries := count_picked hu.ledger.deliveries fun _ _ => rfl

end

/-! ### Retention -/

section

variable {now : Time} {options : PruneOptions}

/-- A pass within its bounds goes through. -/
theorem pruneTerminalRecords_ok [Collation] (hfk : db.ForeignKeys) (hcutoff : options.cutoff now ≠ 0)
    (hsize : 1 ≤ options.batchSize ∧ options.batchSize ≤ 10000) (hrun : options.dryRun = false) :
    pruneTerminalRecords db now options =
      (let before := timestamptz (options.cutoff now)
       let c := candidates before db options.batchSize.toNat
       (.ok (inspectPruneCandidates c db), pruned before c db)) := by
  have hbatch : ¬(options.batchSize < 1 ∨ 10000 < options.batchSize) := by omega
  rw [pruneTerminalRecords, if_neg hcutoff, if_neg hbatch, hrun]
  dsimp only
  generalize candidates (timestamptz (options.cutoff now)) db options.batchSize.toNat = c
  have hrun : (do deletions (timestamptz (options.cutoff now)) c; pure (inspectPruneCandidates c db) : Tx PruneReport) db =
      (deletions (timestamptz (options.cutoff now)) c db).bind fun p => .ok (inspectPruneCandidates c db, p.2) := rfl
  rw [if_neg Bool.false_ne_true, Tx.commit, hrun, (deletions_ok hfk).1]
  rfl

/-- What is before the cutoff for the database is before it. -/
theorem time_lt_of_lt_timestamptz {ts : Timestamp} {t : Time} (h : ts < timestamptz t) : ts.time < t := by
  have hround : ∀ a b : Int, a < (b + 500) / 1000 → 1000 * a < b := by
    intro a b hab
    omega
  exact hround ts t h

/-- A pass of retention deletes only executions that ended before the cutoff and are not leased, keeps every
    row of the others, breaks no reference, and reports what it deleted. -/
theorem prune_keeps_survivors [Collation] (db : Database) (now : Time) (options : PruneOptions) (hu : db.Uniques)
    (hfk : db.ForeignKeys) (hcutoff : options.cutoff now ≠ 0)
    (hsize : 1 ≤ options.batchSize ∧ options.batchSize ≤ 10000) (hrun : options.dryRun = false) :
    ∃ report after, pruneTerminalRecords db now options = (.ok report, after) ∧ after.ForeignKeys ∧
      (∀ e ∈ db.executions, e ∉ after.executions → (e.state = .completed ∨ e.state = .failed) ∧
        (e.recoveryOwner = none ∧ e.recoveryToken = none ∧ e.recoveryDeadline = none) ∧
        e.updatedAt.time < options.cutoff now) ∧
      (∀ e ∈ after.executions, e ∈ db.executions ∧ ExecutionKept db after e) ∧
      Counted report db after := by
  refine ⟨_, _, pruneTerminalRecords_ok hfk hcutoff hsize hrun, (deletions_ok hfk).2, fun e he hgone => ?_,
    fun e he => ?_, counted _ _ hu⟩
  · have hpicked : (candidates (timestamptz (options.cutoff now)) db options.batchSize.toNat).hasExecution
        e.executionID = true := by
      rw [← Bool.not_eq_false]
      exact fun h => hgone (Table.mem_delete.2 ⟨he, h⟩)
    obtain ⟨hstate, htime, hlease, -⟩ := prunableExecution_iff.1 (picked hu.ledger.executions he hpicked)
    exact ⟨hstate, hlease, time_lt_of_lt_timestamptz htime⟩
  · obtain ⟨hm, hno⟩ := Table.mem_delete.1 he
    refine ⟨hm, executionKept _ _ hu hfk hm fun hid => ?_⟩
    rw [Candidates.hasExecution, ← Bool.not_eq_true, List.contains_iff_mem] at hno
    exact hno hid

end

section

/-- An execution that runs one artifact. -/
def sampleExecution (executionID : Text) (state : ExecutionState) : ExecutionRow where
  executionID := executionID
  admissionIdentity := executionID
  requestHash := "payload"
  ruleset := "orders"
  version := "1"
  tenantNamespace := "tenant"
  mergePolicy := "merge"
  generationDigest := "generation"
  effectiveFacts := "null"
  state := state
  revision := 1
  recoveryOwner := none
  recoveryToken := none
  recoveryDeadline := none
  lastError := none
  updatedAt := 1

def sampleSaga (sagaID executionID : Text) : SagaRow where
  sagaID := sagaID
  ns := "tenant"
  executionID := executionID
  planID := sagaID
  planDigest := "digest"
  state := .completed
  serial := true
  revision := 2
  createdAt := 1
  updatedAt := 1

def samplePlan (executionID sagaID : Text) (ordinal : Nat) : PlanRow := ⟨executionID, sagaID, sagaID, ordinal, "completed"⟩

def sampleArtifact : ArtifactRow where
  artifact := {
    generationDigest := "generation", irDigest := "ir", irBytes := "bytes"
    environment := "\x7b\x7d", executorManifest := "[]", functionManifest := "\x7b\x7d", sourceDigest := "source"
    compilerMetadata := "null" }
  createdAt := 1

/-- A completed execution and a running one, each with the saga of its plan. -/
def sampleDatabase : Database :=
  { Database.empty with
    artifacts := [sampleArtifact]
    executions := [sampleExecution "done" .completed, sampleExecution "open" .running]
    sagas := [sampleSaga "first" "done", sampleSaga "second" "open"]
    plans := [samplePlan "done" "first" 0, samplePlan "open" "second" 0] }

def sampleOptions (batchSize : Int) : PruneOptions := ⟨10000, 0, batchSize, false⟩

/-- The `C` collation, by bytes. -/
@[reducible] def byteOrder : Collation where
  le a b := decide (a ≤ b)
  total a b := by simpa using List.le_total a b
  trans hab hbc := by simpa using List.le_trans (of_decide_eq_true hab) (of_decide_eq_true hbc)
  antisymm hab hba := List.le_antisymm (of_decide_eq_true hab) (of_decide_eq_true hba)

attribute [local instance] byteOrder

theorem prune_keeps_survivors_sample : (sampleDatabase.Uniques ∧ sampleDatabase.ForeignKeys) ∧
    ∃ report after, pruneTerminalRecords sampleDatabase 0 (sampleOptions 5) = (.ok report, after) ∧
      (∀ e ∈ after.executions, ExecutionKept sampleDatabase after e) ∧ Counted report sampleDatabase after := by
  have hu : sampleDatabase.Uniques := by decide
  have hfk : sampleDatabase.ForeignKeys := by decide
  obtain ⟨report, after, hrun, -, -, hkept, hcount⟩ := prune_keeps_survivors sampleDatabase 0 (sampleOptions 5) hu
    hfk (by decide) (by decide) rfl
  exact ⟨⟨hu, hfk⟩, report, after, hrun, fun e he => (hkept e he).2, hcount⟩

/-- The plan of the running execution's saga is missing. -/
def unplannedDatabase : Database := { sampleDatabase with plans := [samplePlan "done" "first" 0] }

/-- A saga that names a running execution, but that no plan names, goes with the rest. -/
theorem unplanned_saga_deleted :
    (unplannedDatabase.Checks ∧ unplannedDatabase.Uniques ∧ unplannedDatabase.ForeignKeys) ∧
      (unplannedDatabase.sagas.filter fun r => decide (r.executionID = ("open" : Text))).length = 1 ∧
      (let after := (pruneTerminalRecords unplannedDatabase 0 (sampleOptions 5)).2
       after.executions.map (·.executionID) = [("open" : Text)] ∧
        (after.sagas.filter fun r => decide (r.executionID = ("open" : Text))).length = 0) := by
  decide

end

end Effectus.Postgres

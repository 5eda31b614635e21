import Effectus.Go.Reference
import Effectus.Lib.Fallible
import Effectus.Postgres.Admission
import Effectus.Runtime.Alone
import Effectus.Theorems.Ledger.Writes

/-!
An execution ID that is taken under another admission identity. In memory the second admission is an identity
conflict. In PostgreSQL it runs into the primary key, the violation is taken for a race and tried again, and what is
returned in the end is the violation; only an artifact that clashes with a stored one is a conflict there.
-/

namespace Effectus.Postgres

open Fallible Tx

variable {db : Database}

/-! ### The tables and their constraints -/

structure Database.Valid (db : Database) : Prop where
  checks : db.Checks
  uniques : db.Uniques
  foreignKeys : db.ForeignKeys

theorem exec_runs {statement : Database → Database} (h : (statement db).Valid) :
    Runs (exec statement) db () (statement db) := by
  show exec statement db = _
  simp [exec, h.checks, h.uniques, h.foreignKeys]

theorem require_runs {p : Prop} [Decidable p] {err : Err} (h : p) : Runs (require p err) db () db := by
  rw [require, if_pos h]
  rfl

theorem Database.Valid.insertArtifact {r : ArtifactRow} (h : db.Valid) (hnew : ∀ x ∈ db.artifacts, x.digest ≠ r.digest)
    (hbytes : r.artifact.irBytes ≠ []) : { db with artifacts := db.artifacts ++ [r] }.Valid where
  checks := { h.checks with
    artifacts := by
      intro x hx
      rcases List.mem_append.1 hx with hx | hx
      · exact h.checks.artifacts x hx
      · rw [List.mem_singleton.1 hx]
        exact hbytes }
  uniques := ⟨{ h.uniques.saga with }, { h.uniques.ledger with artifacts := h.uniques.ledger.artifacts.concat hnew }⟩
  foreignKeys := { h.foreignKeys with
    generations := h.foreignKeys.generations.concat_target
    executions := h.foreignKeys.executions.concat_target }

theorem Database.Valid.retireGenerations (h : db.Valid) (p : GenerationRow → Bool) (now : Timestamp) :
    { db with
      generations := Table.update p (fun r => { r with state := .retired, retiredAt := some now })
        db.generations }.Valid where
  checks := { h.checks with }
  uniques := ⟨{ h.uniques.saga with }, { h.uniques.ledger with
    generations := h.uniques.ledger.generations.update fun _ _ _ => rfl
    oneActive := h.uniques.ledger.oneActive.update (fun _ _ _ => rfl) fun _ _ _ hactive => by
      simp [GenerationRow.active] at hactive }⟩
  foreignKeys := { h.foreignKeys with generations := h.foreignKeys.generations.update fun _ _ _ => rfl }

/-- A statement that keeps checks and references goes through or violates a unique constraint. -/
theorem exec_cases {statement : Database → Database} (hc : (statement db).Checks) (hf : (statement db).ForeignKeys) :
    exec statement db = .ok ((), statement db) ∧ (statement db).Valid ∨
      exec statement db = .error (.sql .uniqueViolation) := by
  by_cases hu : (statement db).Uniques
  · exact .inl ⟨exec_runs ⟨hc, hu, hf⟩, hc, hu, hf⟩
  · refine .inr ?_
    simp [exec, hc, hu]

theorem exec_uniqueViolation {statement : Database → Database} (hc : (statement db).Checks)
    (hu : ¬(statement db).Uniques) : exec statement db = .error (.sql .uniqueViolation) := by
  simp [exec, hc, hu]

/-! ### Failures of the database -/

/-- The statements end in an error of the database. -/
def FailsSql {α : Type} (tx : Tx α) (db : Database) : Prop := ∃ state, tx db = .error (.sql state)

theorem sql_noConflict (state : SqlState) : (Failure.sql state).toErr.is .identityConflict = false := by
  cases state <;> rfl

theorem failsSql_bind {α β : Type} {tx : Tx α} {f : α → Tx β} (h : FailsSql tx db) : FailsSql (tx >>= f) db := by
  obtain ⟨state, h⟩ := h
  exact ⟨state, run_bind_of_error h⟩

section

variable [ColumnTypes]

theorem texts_cases (db : Database) : ∀ ts : List Text,
    (∀ t ∈ ts, ColumnTypes.text t = .ok ()) ∧ texts ts db = .ok ((), db) ∨
      (¬∀ t ∈ ts, ColumnTypes.text t = .ok ()) ∧ FailsSql (texts ts) db := by
  intro ts
  induction ts with
  | nil => exact .inl ⟨List.forall_mem_nil _, rfl⟩
  | cons t rest ih =>
    cases ht : ColumnTypes.text t with
    | error code =>
      refine .inr ⟨fun hall => ?_, .dataException code, ?_⟩
      · rw [hall t (List.mem_cons_self ..)] at ht
        cases ht
      · rw [texts, ht]
        rfl
    | ok u =>
      have hrest : texts (t :: rest) db = texts rest db := by
        rw [texts, ht]
        rfl
      rw [FailsSql, hrest, List.forall_mem_cons, and_iff_right ht]
      exact ih

theorem failsSql_texts {α : Type} {ts : List Text} {f : Unit → Tx α} (h : FailsSql (f ()) db) :
    FailsSql (texts ts >>= f) db := by
  rcases texts_cases db ts with ⟨-, hrun⟩ | ⟨-, hfail⟩
  · rw [FailsSql, run_bind_of_ok hrun]
    exact h
  · exact failsSql_bind hfail

theorem failsSql_jsonb {α : Type} {t : Text} {f : Text → Tx α}
    (h : ∀ cast, ColumnTypes.jsonb t = .ok cast → FailsSql (f cast) db) : FailsSql (jsonb t >>= f) db := by
  cases hcast : ColumnTypes.jsonb t with
  | error code =>
    refine failsSql_bind ⟨.dataException code, ?_⟩
    rw [jsonb, hcast]
    rfl
  | ok cast =>
    have hrun : jsonb t db = .ok (cast, db) := by
      rw [jsonb, hcast]
      rfl
    rw [FailsSql, run_bind_of_ok hrun]
    exact h cast hcast

end

section

variable [ColumnTypes] {now : Timestamp} {artifact : ExecutionArtifact} {admission : DurableAdmission}

/-! ### Artifacts -/

/-- The digest is stored with another artifact. -/
def Database.Clashes (db : Database) (artifact : ExecutionArtifact) : Prop :=
  ∃ r, db.artifact? artifact.generationDigest = some r ∧ Ledger.sameExecutionArtifact r.artifact artifact = false

/-- The columns take the artifact. -/
structure Storable (artifact : ExecutionArtifact) : Prop where
  texts : ∀ t ∈ [artifact.generationDigest, artifact.irDigest, artifact.sourceDigest], ColumnTypes.text t = .ok ()
  documents : ∀ t ∈ [artifact.environment, artifact.executorManifest, artifact.functionManifest,
    artifact.compilerMetadata], ∃ cast, ColumnTypes.jsonb t = .ok cast

theorem castArtifact_runs (db : Database) (h : Storable artifact) : ∃ cast, castArtifact artifact db = .ok (cast, db) ∧
    cast.generationDigest = artifact.generationDigest ∧ cast.irBytes = artifact.irBytes := by
  obtain ⟨environment, henvironment⟩ := h.documents _ (List.mem_cons_self ..)
  obtain ⟨executors, hexecutors⟩ := h.documents artifact.executorManifest (by simp)
  obtain ⟨functions, hfunctions⟩ := h.documents artifact.functionManifest (by simp)
  obtain ⟨metadata, hmetadata⟩ := h.documents artifact.compilerMetadata (by simp)
  refine ⟨{ artifact with
    environment := environment, executorManifest := executors, functionManifest := functions
    compilerMetadata := metadata }, ?_, rfl, rfl⟩
  simp only [castArtifact, jsonb, henvironment, hexecutors, hfunctions, hmetadata]
  rfl

theorem castArtifact_fails (db : Database)
    (h : ¬∀ t ∈ [artifact.environment, artifact.executorManifest, artifact.functionManifest, artifact.compilerMetadata],
      ∃ cast, ColumnTypes.jsonb t = .ok cast) : FailsSql (castArtifact artifact) db := by
  simp only [List.forall_mem_cons, List.not_mem_nil, IsEmpty.forall_iff, implies_true, and_true, not_and_or, not_exists] at h
  rcases h with h | h | h | h
  · exact failsSql_jsonb fun _ hcast => absurd hcast (h _)
  · exact failsSql_jsonb fun _ _ => failsSql_jsonb fun _ hcast => absurd hcast (h _)
  · exact failsSql_jsonb fun _ _ => failsSql_jsonb fun _ _ => failsSql_jsonb fun _ hcast => absurd hcast (h _)
  · exact failsSql_jsonb fun _ _ => failsSql_jsonb fun _ _ => failsSql_jsonb fun _ _ =>
      failsSql_jsonb fun _ hcast => absurd hcast (h _)

theorem putArtifactTx_unstorable (db : Database) (h : ¬Storable artifact) : FailsSql (putArtifactTx now artifact) db := by
  rcases texts_cases db [artifact.generationDigest, artifact.irDigest, artifact.sourceDigest] with
    ⟨htexts, hrun⟩ | ⟨-, hfail⟩
  · rw [FailsSql, putArtifactTx, run_bind_of_ok hrun]
    exact failsSql_bind (castArtifact_fails db fun hdocuments => h ⟨htexts, hdocuments⟩)
  · exact failsSql_bind hfail

/-- An artifact the columns take is inserted or compared. -/
theorem putArtifactTx_storable (now : Timestamp) (db : Database) (h : Storable artifact) :
    ∃ cast, cast.generationDigest = artifact.generationDigest ∧ cast.irBytes = artifact.irBytes ∧
      putArtifactTx now artifact db = (match db.artifact? artifact.generationDigest with
        | none => exec (fun db => { db with artifacts := db.artifacts ++ [(⟨cast, now⟩ : ArtifactRow)] }) db
        | some existing => require (Ledger.sameExecutionArtifact existing.artifact artifact = true)
            (Ledger.artifactConflict artifact.generationDigest) db) := by
  obtain ⟨cast, hcast, hdigest, hbytes⟩ := castArtifact_runs db h
  have hrun : texts [artifact.generationDigest, artifact.irDigest, artifact.sourceDigest] db = .ok ((), db) := by
    rcases texts_cases db _ with ⟨-, hrun⟩ | ⟨hno, -⟩
    · exact hrun
    · exact absurd h.texts hno
  refine ⟨cast, hdigest, hbytes, ?_⟩
  unfold putArtifactTx
  rw [run_bind_of_ok hrun, run_bind_of_ok hcast, run_get_bind]
  cases db.artifact? artifact.generationDigest <;> rfl

theorem putArtifactTx_clash (h : Storable artifact) (hclash : db.Clashes artifact) :
    putArtifactTx now artifact db = .error (.err (Ledger.artifactConflict artifact.generationDigest)) := by
  obtain ⟨cast, -, -, hput⟩ := putArtifactTx_storable now db h
  obtain ⟨r, hr, hne⟩ := hclash
  rw [hput, hr]
  simp only [require, hne]
  rfl

/-- What the statement leaves when the digest is free or stored with this artifact. -/
structure Stored (db db' : Database) (artifact : ExecutionArtifact) : Prop where
  valid : db'.Valid
  executions : db'.executions = db.executions
  mem : ∃ r ∈ db'.artifacts, r.digest = artifact.generationDigest

theorem putArtifactTx_runs (now : Timestamp) (hv : db.Valid) (hbytes : artifact.irBytes ≠ []) (hs : Storable artifact)
    (h : ¬db.Clashes artifact) : ∃ db', putArtifactTx now artifact db = .ok ((), db') ∧ Stored db db' artifact := by
  obtain ⟨cast, hdigest, hcast, hput⟩ := putArtifactTx_storable now db hs
  rw [hput]
  cases hr : db.artifact? artifact.generationDigest with
  | none =>
    have hnew : ∀ x ∈ db.artifacts, x.digest ≠ cast.generationDigest := hdigest ▸ Keyed.get?_eq_none.1 hr
    have hvalid : { db with artifacts := db.artifacts ++ [(⟨cast, now⟩ : ArtifactRow)] }.Valid :=
      hv.insertArtifact hnew (hcast ▸ hbytes)
    exact ⟨_, exec_runs hvalid, hvalid, rfl, ⟨cast, now⟩, List.mem_append_right _ (List.mem_singleton_self _), hdigest⟩
  | some r =>
    have hsame : Ledger.sameExecutionArtifact r.artifact artifact = true := by
      by_contra hne
      exact h ⟨r, hr, by simpa using hne⟩
    exact ⟨db, require_runs hsame, hv, rfl, r, Keyed.mem_of_get? hr, Keyed.key_of_get? hr⟩

/-! ### The transaction -/

/-- The execution's ID is taken and its admission identity is not. -/
structure Database.Reuses (db : Database) (admission : DurableAdmission) : Prop where
  taken : ∃ r ∈ db.executions, r.executionID = admission.execution.executionID
  fresh : ∀ r ∈ db.executions, r.admissionIdentity ≠ admission.execution.admissionIdentity

omit [ColumnTypes] in
theorem Database.Reuses.of_executions {db' : Database} (h : db.Reuses admission) (he : db'.executions = db.executions) :
    db'.Reuses admission := ⟨he ▸ h.taken, he ▸ h.fresh⟩

omit [ColumnTypes] in
theorem Database.Reuses.admitted? (h : db.Reuses admission) :
    db.admitted? admission.execution.admissionIdentity = none := Keyed.get?_eq_none.2 h.fresh

/-- The lookup of the identity finds nothing, or is refused. -/
theorem getExecutionByAdmission_reuse (h : db.Reuses admission) :
    ∃ err, db.getExecutionByAdmission none admission.execution.admissionIdentity = .error err ∧
      err.is .identityConflict = false ∧
      (err.is .executionRecordNotFound = true ↔ ColumnTypes.text admission.execution.admissionIdentity = .ok ()) := by
  unfold Database.getExecutionByAdmission refusal
  rw [h.admitted?]
  cases htext : ColumnTypes.text admission.execution.admissionIdentity with
  | error code => exact ⟨_, rfl, rfl, by simp [Failure.toErr, Err.is, Err.new]⟩
  | ok u => exact ⟨_, rfl, rfl, iff_of_true rfl rfl⟩

theorem insertExecution_taken (hv : db.Valid) (h : db.Reuses admission) :
    FailsSql (insertExecution now admission.execution) db := by
  refine failsSql_texts (failsSql_jsonb fun cast _ => ⟨.uniqueViolation, ?_⟩)
  refine exec_uniqueViolation { hv.checks with executions := ?_ } fun hu => ?_
  · intro x hx
    rcases List.mem_append.1 hx with hx | hx
    · exact hv.checks.executions x hx
    · rw [List.mem_singleton.1 hx]
      exact ⟨Nat.one_pos, .inl ⟨rfl, rfl, rfl⟩, by simp [ExecutionRow.stateCheck, newExecutionRow]⟩
  · obtain ⟨r, hr, he⟩ := h.taken
    have hnodup := hu.ledger.executions
    rw [Table.Unique, List.map_append, List.nodup_append] at hnodup
    exact hnodup.2.2 r.executionID (List.mem_map_of_mem hr) admission.execution.executionID (by simp [newExecutionRow]) he

omit [ColumnTypes] in
theorem activateGeneration_cases (hv : db.Valid) (execution : ExecutionRecord)
    (hmem : ∃ r ∈ db.artifacts, r.digest = execution.generationDigest) :
    (∃ db', activateGeneration execution db = .ok ((), db') ∧ db'.Valid ∧ db'.executions = db.executions) ∨
      FailsSql (activateGeneration execution) db := by
  have hchecks : (activated execution db).Checks := { hv.checks with }
  have hreferences : (activated execution db).ForeignKeys := { hv.foreignKeys with
    generations := by
      unfold activated
      dsimp only
      split
      · exact hv.foreignKeys.generations.update fun _ _ _ => rfl
      · exact hv.foreignKeys.generations.concat hmem }
  rcases exec_cases hchecks hreferences with ⟨hrun, hvalid⟩ | hfail
  · exact .inl ⟨_, hrun, hvalid, rfl⟩
  · exact .inr ⟨_, hfail⟩

/-- Every way but the clash of artifacts ends in an error of the database. -/
theorem admitExecutionLedgerTx_reuse [Platform] (now : Timestamp) (hv : db.Valid) (h : db.Reuses admission)
    (hbytes : admission.artifact.irBytes ≠ [])
    (hdigest : admission.execution.generationDigest = admission.artifact.generationDigest)
    (hclash : ¬(Storable admission.artifact ∧ db.Clashes admission.artifact)) :
    FailsSql (admitExecutionLedgerTx now admission) db := by
  by_cases hs : Storable admission.artifact
  · obtain ⟨db₁, hput, hstored⟩ := putArtifactTx_runs now hv hbytes hs fun hc => hclash ⟨hs, hc⟩
    have h₁ := h.of_executions hstored.executions
    rw [FailsSql, admitExecutionLedgerTx, run_bind_of_ok hput]
    refine failsSql_texts ?_
    rw [FailsSql, run_get_bind, h₁.admitted?]
    dsimp only [retireGenerations]
    have hretired := hstored.valid.retireGenerations (GenerationRow.superseded admission.execution) now
    rw [bind_assoc]
    refine failsSql_texts ?_
    rw [FailsSql, run_bind_of_ok (exec_runs hretired)]
    rcases activateGeneration_cases hretired admission.execution (hdigest ▸ hstored.mem) with
      ⟨db₂, hactive, hv₂, he₂⟩ | hfail
    · rw [run_bind_of_ok hactive]
      exact failsSql_bind (insertExecution_taken hv₂ (h₁.of_executions he₂))
    · exact failsSql_bind hfail
  · exact failsSql_bind (putArtifactTx_unstorable db hs)

end

/-! ### Validation -/

theorem validateExecutionArtifact_error {artifact : ExecutionArtifact} {err : Err}
    (h : Ledger.validateExecutionArtifact artifact = .error err) : err.is .identityConflict = false := by
  unfold Ledger.validateExecutionArtifact at h
  split at h
  · cases h
    rfl
  · split at h
    · cases h
      rfl
    · cases h

section

variable [Platform] {artifact : ExecutionArtifact} {admission : DurableAdmission}

theorem validatePlans_error {executionID : Text} {err : Err} : ∀ {plans : List ExecutionPlanRecord} {index : Nat},
    Ledger.validatePlans executionID index plans = .error err → err.is .identityConflict = false
  | [], _, h => nomatch h
  | plan :: rest, index, h => by
    unfold Ledger.validatePlans at h
    split at h
    · cases h
      rfl
    · exact validatePlans_error h

/-- No check of an admission is an identity conflict. -/
theorem validateDurableAdmission_error {err : Err} (h : Ledger.validateDurableAdmission admission = .error err) :
    err.is .identityConflict = false := by
  unfold Ledger.validateDurableAdmission at h
  cases hartifact : Ledger.validateExecutionArtifact admission.artifact with
  | error cause =>
    rw [hartifact] at h
    cases h
    exact validateExecutionArtifact_error hartifact
  | ok u =>
    rw [hartifact] at h
    dsimp only [bind, Except.bind] at h
    split at h
    · cases h
      rfl
    split at h
    · cases h
      rfl
    split at h
    · cases h
      rfl
    · exact validatePlans_error h

theorem validateDurableAdmission_ok (h : Ledger.validateDurableAdmission admission = .ok ()) :
    Ledger.validateExecutionArtifact admission.artifact = .ok () ∧ admission.artifact.irBytes ≠ [] ∧
      admission.execution.generationDigest = admission.artifact.generationDigest := by
  unfold Ledger.validateDurableAdmission at h
  obtain ⟨u, hartifact, h⟩ := bind_ok.1 h
  have hbytes : admission.artifact.irBytes ≠ [] := by
    unfold Ledger.validateExecutionArtifact at hartifact
    split at hartifact
    · cases hartifact
    · exact fun hnil => (ite_error_ok.1 hartifact).1 (.inl hnil)
  dsimp only at h
  split at h
  · cases h
  split at h
  · cases h
  · rename_i hvalid
    exact ⟨hartifact, hbytes, not_not.1 (not_or.1 hvalid).1⟩

/-! ### The loop -/

/-- What the transaction checks of an admission before it begins. -/
structure Admissible (admission : DurableAdmission) : Prop where
  valid : Ledger.validateDurableAdmission admission = .ok ()
  sagas : admission.sagas.length = admission.plans.length
  steps : admission.initialSteps.length ≤ admission.plans.length

variable [ColumnTypes]

theorem admitExecutionTx_admissible (now : Timestamp) (ha : Admissible admission) (db : Database) :
    admitExecutionTx now none admission db =
      (admitExecutionLedgerTx now admission >>= fun result =>
        if result.2 then (admitPlansTx now admission result.1 >>= fun record => pure (record, true))
        else pure (result.1, false)) db := by
  have hvalid : lift (Ledger.validateDurableAdmission admission) db = .ok ((), db) := by
    rw [ha.valid]
    rfl
  unfold admitExecutionTx
  rw [run_bind_of_ok hvalid, run_bind_of_ok (require_runs ha.sagas), run_bind_of_ok (require_runs ha.steps),
    run_bind_of_ok (show start none db = .ok ((), db) from rfl)]

/-- The first of the checks that does not hold. -/
theorem admitExecutionTx_inadmissible (now : Timestamp) (ha : ¬Admissible admission) (db : Database) :
    ∃ err, admitExecutionTx now none admission db = .error (.err err) ∧ err.is .identityConflict = false := by
  unfold admitExecutionTx
  cases hvalid : Ledger.validateDurableAdmission admission with
  | error err => exact ⟨err, rfl, validateDurableAdmission_error hvalid⟩
  | ok u =>
    rw [run_bind_of_ok (show lift (.ok u) db = .ok ((), db) from rfl)]
    by_cases hsagas : admission.sagas.length = admission.plans.length
    · have hsteps : ¬admission.initialSteps.length ≤ admission.plans.length := fun hsteps => ha ⟨hvalid, hsagas, hsteps⟩
      rw [run_bind_of_ok (require_runs hsagas)]
      refine ⟨.new "too many initial steps", run_bind_of_error ?_, rfl⟩
      rw [require, if_neg hsteps]
      rfl
    · refine ⟨.new "selected plan and saga counts differ", run_bind_of_error ?_, rfl⟩
      rw [require, if_neg hsagas]
      rfl

/-- One try: what the checks refuse, a clash of artifacts, or an error of the database. -/
theorem admitExecutionAtomicOnce_reuse (now : Timestamp) (hv : db.Valid) (h : db.Reuses admission) :
    ∃ failure, db.admitExecutionAtomicOnce none now admission = (.error failure, db) ∧
      ((∃ state, failure = .sql state) ∧
          ¬(Admissible admission ∧ Storable admission.artifact ∧ db.Clashes admission.artifact) ∨
        ∃ err, failure = .err err ∧ (err.is .identityConflict = true ↔
          Admissible admission ∧ Storable admission.artifact ∧ db.Clashes admission.artifact)) := by
  unfold Database.admitExecutionAtomicOnce
  by_cases ha : Admissible admission
  · obtain ⟨-, hbytes, hdigest⟩ := validateDurableAdmission_ok ha.valid
    rw [admitExecutionTx_admissible now ha]
    by_cases hclash : Storable admission.artifact ∧ db.Clashes admission.artifact
    · have hfail : admitExecutionLedgerTx now admission db =
          .error (.err (Ledger.artifactConflict admission.artifact.generationDigest)) :=
        run_bind_of_error (putArtifactTx_clash hclash.1 hclash.2)
      rw [run_bind_of_error hfail]
      exact ⟨_, rfl, .inr ⟨_, rfl, iff_of_true rfl ⟨ha, hclash⟩⟩⟩
    · obtain ⟨state, hfail⟩ := admitExecutionLedgerTx_reuse now hv h hbytes hdigest hclash
      rw [run_bind_of_error hfail]
      exact ⟨_, rfl, .inl ⟨⟨state, rfl⟩, fun hc => hclash hc.2⟩⟩
  · obtain ⟨err, herr, hne⟩ := admitExecutionTx_inadmissible now ha db
    rw [herr]
    exact ⟨_, rfl, .inr ⟨err, rfl, iff_of_false (by simp [hne]) fun hc => ha hc.1⟩⟩

/-- A round of the loop ends with an error of its try, of the lookup after it, or of the rounds that are left. -/
theorem retryAdmission_round (now : Nat → Timestamp) (hv : db.Valid) (h : db.Reuses admission) {left : Nat}
    (hnext : left ≠ 0 → ∃ err, Database.retryAdmission none now admission left db = (.error err, db) ∧
      (err.is .identityConflict = true ↔
        Admissible admission ∧ Storable admission.artifact ∧ db.Clashes admission.artifact)) :
    ∃ err, Database.retryAdmission none now admission (left + 1) db = (.error err, db) ∧
      (err.is .identityConflict = true ↔
        Admissible admission ∧ Storable admission.artifact ∧ db.Clashes admission.artifact) := by
  obtain ⟨missing, hmissing, hnoConflict, -⟩ := getExecutionByAdmission_reuse h
  obtain ⟨failure, honce, hwhy⟩ := admitExecutionAtomicOnce_reuse (now left) hv h
  rw [Database.retryAdmission, honce]
  rcases hwhy with ⟨⟨state, rfl⟩, hclash⟩ | ⟨err, rfl, hiff⟩
  · have hsql := sql_noConflict state
    dsimp only
    rw [hmissing]
    split
    · exact ⟨_, rfl, iff_of_false (by simp [hsql]) hclash⟩
    dsimp only
    split
    · exact ⟨_, rfl, iff_of_false (by simp [hnoConflict]) hclash⟩
    split
    · exact ⟨_, rfl, iff_of_false (by simp [Err.under, Err.is] at hsql ⊢; exact hsql) hclash⟩
    · exact hnext ‹_›
  · exact ⟨err, rfl, hiff⟩

theorem retryAdmission_reuse (now : Nat → Timestamp) (hv : db.Valid) (h : db.Reuses admission) (left : Nat) :
    ∃ err, Database.retryAdmission none now admission (left + 1) db = (.error err, db) ∧
      (err.is .identityConflict = true ↔
        Admissible admission ∧ Storable admission.artifact ∧ db.Clashes admission.artifact) := by
  induction left with
  | zero => exact retryAdmission_round now hv h (absurd rfl ·)
  | succ left ih => exact retryAdmission_round now hv h fun _ => ih

theorem admitExecutionAtomic_reuse (now : Nat → Timestamp) (hv : db.Valid) (h : db.Reuses admission) :
    ∃ err, db.admitExecutionAtomic none now admission = (.error err, db) ∧
      (err.is .identityConflict = true ↔
        Admissible admission ∧ Storable admission.artifact ∧ db.Clashes admission.artifact) :=
  retryAdmission_reuse now hv h 5

end

end Effectus.Postgres

namespace Effectus

open Postgres

/-! ### In memory -/

/-- The execution's ID is taken under another identity, and its admission identity is not taken. -/
structure Ledger.Reuses (l : Ledger) (admission : DurableAdmission) : Prop where
  taken : ∃ record, l.execution? admission.execution.executionID = some record ∧
    record.admissionIdentity ≠ admission.execution.admissionIdentity
  fresh : l.admitted? admission.execution.admissionIdentity = none

/-- Storing the artifact first leaves what was admitted as it is. -/
theorem Ledger.storeArtifact_cases (l : Ledger) (artifact : ExecutionArtifact) :
    (l.artifact? artifact.generationDigest ≠ none ∧
        (l.storeArtifact artifact = (.ok (), l) ∨
          l.storeArtifact artifact = (.error (Ledger.artifactConflict artifact.generationDigest), l))) ∨
      l.artifact? artifact.generationDigest = none ∧
        l.storeArtifact artifact = (.ok (), { l with artifacts := l.artifacts ++ [artifact] }) := by
  unfold Ledger.storeArtifact
  cases hr : l.artifact? artifact.generationDigest with
  | none => exact .inr ⟨rfl, rfl⟩
  | some existing =>
    refine .inl ⟨Option.some_ne_none _, ?_⟩
    by_cases hsame : Ledger.sameExecutionArtifact existing artifact = true
    · exact .inl (if_pos hsame)
    · exact .inr (if_neg hsame)

section

variable [Platform] {l : Ledger} {admission : DurableAdmission}

theorem Ledger.admitExecution_reuse (now : Time) (h : l.Reuses admission) :
    ∃ err, l.admitExecution none now admission = (.error err, l) ∧
      (err.is .identityConflict = true ↔ Ledger.validateDurableAdmission admission = .ok ()) := by
  unfold Ledger.admitExecution
  dsimp only
  cases hvalid : Ledger.validateDurableAdmission admission with
  | error err =>
    have hne := validateDurableAdmission_error hvalid
    exact ⟨err, rfl, iff_of_false (by simp [hne]) (nomatch ·)⟩
  | ok u =>
    obtain ⟨record, hrecord, hne⟩ := h.taken
    simp only [h.fresh, hrecord]
    rw [if_pos (.inl hne)]
    exact ⟨_, rfl, iff_of_true rfl trivial⟩

end

/-! ### The engine -/

section

variable [Platform] [FencingProvider] {σ : Type} {serve : Prog.Server world σ} {s : σ}

theorem eval_try {α β : Type} (x : Try α) (f : α → Try β) :
    Prog.eval serve (x >>= f).result s = (Prog.eval serve x.result s).bind fun r =>
      match r.1 with
      | .ok a => Prog.eval serve (f a).result r.2
      | .error err => some (.error err, r.2) := by
  show Prog.eval serve (Prog.bind x.result _) s = _
  rw [Prog.eval_bind]
  congr 1
  funext ⟨r, s'⟩
  cases r <;> rfl

theorem try_ok {α β : Type} {x : Try α} {f : α → Try β} {b : β} {s' : σ}
    (h : Prog.eval serve (x >>= f).result s = some (.ok b, s')) :
    ∃ a s₁, Prog.eval serve x.result s = some (.ok a, s₁) ∧ Prog.eval serve (f a).result s₁ = some (.ok b, s') := by
  rw [eval_try] at h
  obtain ⟨⟨r, s₁⟩, hx, hf⟩ := Option.bind_eq_some_iff.1 h
  cases r with
  | error err => cases hf
  | ok a => exact ⟨a, s₁, hx, hf⟩

/-- What an engine builds of a request is under the request's admission identity. -/
theorem prepareDurable_identity {e : Engine} {input : Admission} {durable : DurableAdmission} {facts : FactMap}
    {s' : σ} (h : Prog.eval serve (e.prepareDurable input).result s = some (.ok (durable, facts), s')) :
    durable.execution.admissionIdentity = admissionIdentity input := by
  unfold Engine.prepareDurable at h
  dsimp only at h
  split at h
  · obtain ⟨_, _, h, -⟩ := try_ok h
    cases h
  obtain ⟨hash, s₁, -, h⟩ := try_ok h
  unfold buildDurableAdmission at h
  obtain ⟨facts', s₂, -, h⟩ := try_ok h
  obtain ⟨canonical, s₃, -, h⟩ := try_ok h
  obtain ⟨inputJSON, s₄, -, h⟩ := try_ok h
  obtain ⟨selected, s₅, -, h⟩ := try_ok h
  cases h
  rfl

/-- After a refused admission the engine looks the identity up once more and finds nothing. -/
theorem admitAgain_refused (e : Engine) (input : Admission) {durable : DurableAdmission} (resolve : Bool) {err missing : Err}
    (hfresh : serve (.getExecutionByAdmission durable.execution.admissionIdentity) s = some (.error missing, s)) :
    ∃ admitted err', Prog.eval serve (e.admitAgain input durable resolve err) s = some (admitted, s) ∧
      admitted.err = some err' ∧ err'.is .identityConflict = err.is .identityConflict := by
  unfold Engine.admitAgain
  split
  · exact ⟨_, err, rfl, rfl, rfl⟩
  · rw [act, Prog.bind_eq, Prog.eval_perform_bind hfresh]
    refine ⟨_, _, rfl, rfl, ?_⟩
    split
    · rename_i hconflict
      rw [hconflict]
      rfl
    · rfl

/-- An admission that the ledger refuses is refused by the engine, with an error of the same class. -/
theorem admit_refused {e : Engine} {input : Admission} {durable : DurableAdmission} (resolve : Bool) {err : Err} {s' : σ}
    (hb : e.Builds input durable) (hlive : ∀ s, serve .ctxErr s = some (none, s))
    (hfresh : ∀ t, t = s ∨ t = s' → ∃ missing : Err, missing.is .executionRecordNotFound = true ∧
      serve (.getExecutionByAdmission durable.execution.admissionIdentity) t = some (.error missing, t))
    (hstore : Prog.eval serve (e.storeAdmission durable) s = some (.error err, s')) :
    ∃ admitted err', Prog.eval serve (e.admitInput input resolve) s = some (admitted, s') ∧ admitted.err = some err' ∧
      err'.is .identityConflict = err.is .identityConflict := by
  obtain ⟨admission, facts, hprepare, hbuild⟩ := hb
  have hidentity := prepareDurable_identity hbuild
  have hquiet : Prog.eval serve (e.prepareDurable admission).result s = some (.ok (durable, facts), s) := by
    refine Prog.eval_of_quiet (fun c r hr => ?_) hbuild
    cases c <;> cases hr
    exact hlive s
  obtain ⟨missing, hmissing, hlookup⟩ := hfresh s (.inl rfl)
  obtain ⟨missing', -, hagain⟩ := hfresh s' (.inr rfl)
  have hnew : Prog.eval serve (e.admitInput input resolve) s = Prog.eval serve (e.admitAgain admission durable resolve err) s' := by
    unfold Engine.admitInput
    rw [hprepare]
    dsimp only
    rw [act, Prog.bind_eq, Prog.eval_perform_bind (hidentity ▸ hlookup)]
    dsimp only
    rw [if_neg (by simp [hmissing])]
    unfold Engine.admitNew
    rw [Prog.bind_eq, Prog.eval_bind, hquiet]
    show Prog.eval serve (Prog.bind (e.storeAdmission durable) _) s = _
    rw [Prog.eval_bind, hstore]
    rfl
  rw [hnew]
  exact admitAgain_refused e admission resolve hagain

/-- A lookup that fails is what the engine returns. -/
theorem admit_unreadable {e : Engine} {input : Admission} {durable : DurableAdmission} (resolve : Bool) {err : Err}
    (hb : e.Builds input durable) (hknown : err.is .executionRecordNotFound = false)
    (hlookup : serve (.getExecutionByAdmission durable.execution.admissionIdentity) s = some (.error err, s)) :
    ∃ admitted, Prog.eval serve (e.admitInput input resolve) s = some (admitted, s) ∧ admitted.err = some err := by
  obtain ⟨admission, facts, hprepare, hbuild⟩ := hb
  have hidentity := prepareDurable_identity hbuild
  unfold Engine.admitInput
  rw [hprepare]
  dsimp only
  rw [act, Prog.bind_eq, Prog.eval_perform_bind (hidentity ▸ hlookup)]
  dsimp only
  rw [if_pos hknown]
  exact ⟨_, rfl, rfl⟩

/-- An error that matches `ErrIdentityConflict`, and the state as it was. -/
def Conflicted {α σ : Type} (result : Except Err α × σ) (s : σ) : Prop :=
  (∃ err, result.1 = .error err ∧ err.is .identityConflict = true) ∧ result.2 = s

/-- The engine returns such an error, and leaves the state as it was. -/
def Engine.Refuses {σ : Type} (e : Engine) (serve : Prog.Server world σ) (input : Admission) (resolve : Bool) (s : σ) :
    Prop :=
  ∃ admitted err, Prog.eval serve (e.admitInput input resolve) s = some (admitted, s) ∧ admitted.err = some err ∧
    err.is .identityConflict = true

end

theorem refused_iff {α σ : Type} {result : Except Err α × σ} {s : σ} {err : Err} {p : Prop}
    (h : result = (.error err, s)) (hp : err.is .identityConflict = true ↔ p) : Conflicted result s ↔ p := by
  subst h
  constructor
  · rintro ⟨⟨err', he, hc⟩, -⟩
    obtain rfl := Except.error.inj he
    exact hp.1 hc
  · intro h
    exact ⟨⟨err, rfl, hp.2 h⟩, rfl⟩

section

variable [Platform] [FencingProvider] {e : Engine} {input : Admission} {durable : DurableAdmission} {a : Ambient}

theorem refuses_iff {σ : Type} {serve : Prog.Server world σ} {resolve : Bool} {s s' : σ}
    {admitted : Engine.Admitted} {err : Err}
    (h : Prog.eval serve (e.admitInput input resolve) s = some (admitted, s')) (he : admitted.err = some err) :
    e.Refuses serve input resolve s ↔ s' = s ∧ err.is .identityConflict = true := by
  constructor
  · rintro ⟨admitted', err', h', he', hc⟩
    obtain ⟨rfl, rfl⟩ := Prod.mk.inj (Option.some.inj (h.symm.trans h'))
    obtain rfl := Option.some.inj (he.symm.trans he')
    exact ⟨rfl, hc⟩
  · rintro ⟨rfl, hc⟩
    exact ⟨admitted, err, h, he, hc⟩

/-- No execution has the identity, to the engine. -/
def unknownIdentity (durable : DurableAdmission) : Err :=
  .wrap .executionRecordNotFound (("admission " : Text) ++ durable.execution.admissionIdentity)

/-- An engine whose ledger and outbox are the PostgreSQL store. -/
theorem refuses_inPostgres [ColumnTypes] {db : Database} (now : Nat → Timestamp) (resolve : Bool) (hatomic : e.atomic = true)
    (hb : e.Builds input durable) (hlive : a.fault = none) (hv : db.Valid) (hr : db.Reuses durable) :
    e.Refuses (inPostgres a now) input resolve db ↔
      (Admissible durable ∧ Storable durable.artifact ∧ db.Clashes durable.artifact) ∧
        ColumnTypes.text durable.execution.admissionIdentity = .ok () := by
  obtain ⟨missing, hmissing, hnoConflict, hfound⟩ := getExecutionByAdmission_reuse hr
  have hlookup : inPostgres a now (.getExecutionByAdmission durable.execution.admissionIdentity) db =
      some (.error missing, db) := by
    simp only [inPostgres, hlive, hmissing]
  by_cases hknown : missing.is .executionRecordNotFound = true
  · obtain ⟨err, hadmits, hiff⟩ := admitExecutionAtomic_reuse now hv hr
    have hcall : inPostgres a now (.admitExecutionAtomic durable) db = some (.error err, db) := by
      simp only [inPostgres, hlive, hadmits]
    have hstore : Prog.eval (S := world) (inPostgres a now) (e.storeAdmission durable) db = some (.error err, db) := by
      unfold Engine.storeAdmission
      rw [if_pos hatomic, act, Prog.perform, Prog.eval_call, hcall]
      rfl
    obtain ⟨admitted, err', heval, herr, hclass⟩ := admit_refused resolve hb
      (fun db => by simp only [inPostgres, hlive])
      (fun t ht => ⟨missing, hknown, by
        obtain rfl : t = db := ht.elim id id
        exact hlookup⟩) hstore
    rw [refuses_iff heval herr, hclass, hiff, and_iff_right rfl, and_iff_left (hfound.1 hknown)]
  · obtain ⟨admitted, heval, herr⟩ := admit_unreadable resolve hb (Bool.eq_false_iff.2 hknown) hlookup
    rw [refuses_iff heval herr, hnoConflict]
    exact iff_of_false (by simp) fun h => hknown (hfound.2 h.2)

theorem inMemory_fresh {w : World} (hlive : a.fault = none) (h : w.ledger.Reuses durable) :
    inMemory a (.getExecutionByAdmission durable.execution.admissionIdentity) w =
      some (.error (unknownIdentity durable), w) := by
  simp only [inMemory, World.step, Ledger.getExecutionByAdmission, hlive, h.fresh, unknownIdentity]

/-- What storing an admission in memory comes to: an error, and at most the artifact as a new row. -/
theorem storeAdmission_inMemory {w : World} (hatomic : e.atomic = false) (hlive : a.fault = none)
    (h : w.ledger.Reuses durable) (hvalid : Ledger.validateDurableAdmission durable = .ok ()) :
    ∃ err w', Prog.eval (S := world) (inMemory a) (e.storeAdmission durable) w = some (.error err, w') ∧
      err.is .identityConflict = true ∧ w'.ledger.Reuses durable ∧
      (w' = w ↔ w.ledger.artifact? durable.artifact.generationDigest ≠ none) := by
  have hartifact := (validateDurableAdmission_ok hvalid).1
  have hput : ∀ reply l', w.ledger.storeArtifact durable.artifact = (reply, l') →
      inMemory a (.putArtifact durable.artifact) w = some (reply, { w with ledger := l' }) := by
    intro reply l' hl
    simp only [inMemory, World.step, World.onLedger, Ledger.putArtifact, hlive, hartifact, hl]
  have hadmits : ∀ w' : World, w'.ledger.Reuses durable → ∃ err, err.is .identityConflict = true ∧
      inMemory a (.admitExecution durable) w' = some (.error err, w') := by
    intro w' h'
    obtain ⟨err, hl, hiff⟩ := Ledger.admitExecution_reuse a.now h'
    refine ⟨err, hiff.2 hvalid, ?_⟩
    simp only [inMemory, World.step, World.onLedger, hlive, hl]
  unfold Engine.storeAdmission
  rw [if_neg (by simp [hatomic]), act, Prog.bind_eq]
  rcases w.ledger.storeArtifact_cases durable.artifact with ⟨hstored, hok | hconflict⟩ | ⟨hnone, hok⟩
  · obtain ⟨err, hclass, hcall⟩ := hadmits w h
    rw [Prog.eval_perform_bind (hput _ _ hok)]
    refine ⟨err, w, ?_, hclass, h, iff_of_true rfl hstored⟩
    dsimp only
    rw [act, Prog.perform, Prog.eval_call, hcall]
    rfl
  · rw [Prog.eval_perform_bind (hput _ _ hconflict)]
    exact ⟨_, w, rfl, rfl, h, iff_of_true rfl hstored⟩
  · set stored : Ledger := { w.ledger with artifacts := w.ledger.artifacts ++ [durable.artifact] } with hs
    have h' : stored.Reuses durable := ⟨h.taken, h.fresh⟩
    obtain ⟨err, hclass, hcall⟩ := hadmits { w with ledger := stored } h'
    rw [Prog.eval_perform_bind (hput _ _ hok)]
    refine ⟨err, { w with ledger := stored }, ?_, hclass, h', iff_of_false (fun he => ?_) (not_not.2 hnone)⟩
    · dsimp only
      rw [act, Prog.perform, Prog.eval_call, hcall]
      rfl
    · have hlen := congrArg (fun w : World => w.ledger.artifacts.length) he
      simp [hs] at hlen

theorem refuses_inMemory {w : World} (resolve : Bool) (hatomic : e.atomic = false) (hb : e.Builds input durable)
    (hlive : a.fault = none) (h : w.ledger.Reuses durable) (hvalid : Ledger.validateDurableAdmission durable = .ok ()) :
    e.Refuses (inMemory a) input resolve w ↔ w.ledger.artifact? durable.artifact.generationDigest ≠ none := by
  obtain ⟨err, w', hstore, hclass, h', hsame⟩ := storeAdmission_inMemory hatomic hlive h hvalid
  obtain ⟨admitted, err', heval, herr, hclass'⟩ := admit_refused resolve hb
    (fun w => by simp only [inMemory, World.step, hlive])
    (fun t ht => ⟨unknownIdentity durable, rfl, by
      obtain rfl | rfl := ht
      · exact inMemory_fresh hlive h
      · exact inMemory_fresh hlive h'⟩) hstore
  rw [refuses_iff heval herr, hclass', hclass, hsame]
  exact and_iff_left rfl

/-- An admission for an execution ID that is taken under another identity is refused as an identity conflict by both
ledgers exactly if it passes the checks, the columns of PostgreSQL take its artifact, and the artifact clashes with what is
stored there under the digest. Both engines refuse it without a change exactly if, besides, the columns take its identity
and the ledger in memory has the digest. -/
theorem reused_id_refused [ColumnTypes] (l : Ledger) (db : Database) (durable : DurableAdmission) (now : Time)
    (tries : Nat → Timestamp) (hv : db.Valid) (hl : l.Reuses durable) (hdb : db.Reuses durable) :
    ((Conflicted (l.admitExecution none now durable) l ∧ Conflicted (db.admitExecutionAtomic none tries durable) db) ↔
      Admissible durable ∧ Storable durable.artifact ∧ db.Clashes durable.artifact) ∧
    ∀ (e : Engine) (input : Admission) (resolve : Bool) (a : Ambient) (w : World), e.Builds input durable →
      a.fault = none → w.ledger = l →
      (({ e with atomic := false }.Refuses (inMemory a) input resolve w ∧
        { e with atomic := true }.Refuses (inPostgres a tries) input resolve db) ↔
        ((Admissible durable ∧ Storable durable.artifact ∧ db.Clashes durable.artifact) ∧
          ColumnTypes.text durable.execution.admissionIdentity = .ok ()) ∧
          l.artifact? durable.artifact.generationDigest ≠ none) := by
  constructor
  · obtain ⟨err, hmemory, hiff⟩ := Ledger.admitExecution_reuse now hl
    obtain ⟨err', hpostgres, hiff'⟩ := admitExecutionAtomic_reuse tries hv hdb
    rw [refused_iff hmemory hiff, refused_iff hpostgres hiff']
    exact and_iff_right_of_imp fun h => h.1.valid
  · rintro e input resolve a w hb hlive rfl
    have hpostgres := refuses_inPostgres (e := { e with atomic := true }) tries resolve rfl hb hlive hv hdb
    rw [hpostgres]
    constructor
    · rintro ⟨hmemory, hcond⟩
      exact ⟨hcond, (refuses_inMemory (e := { e with atomic := false }) resolve rfl hb hlive hl hcond.1.1.valid).1 hmemory⟩
    · rintro ⟨hcond, hstored⟩
      exact ⟨(refuses_inMemory (e := { e with atomic := false }) resolve rfl hb hlive hl hcond.1.1.valid).2 hstored, hcond⟩

end

section

/-- Columns that take every text but one with a zero byte, and keep documents as they are written. -/
@[reducible] def plainColumns : ColumnTypes where
  text t := if 0 ∈ t then .error "22021" else .ok ()
  jsonb := .ok

attribute [local instance] reference memoryFencing plainColumns

open Ledger

/-! ### A taken ID -/

/-- An admission without plans, under another identity and with other IR. -/
def sameIDAdmission (identity irDigest : Text) : DurableAdmission :=
  let admission := sampleAdmission 0
  { admission with
    artifact := { admission.artifact with irDigest := irDigest }
    execution := { admission.execution with admissionIdentity := identity } }

/-- The ledgers after the first admission. -/
def takenLedger : Ledger where
  artifacts := [sampleArtifact]
  executions := [admittedRecord (sampleAdmission 0) 1]
  byAdmission := [("delivery", "execution")]

def takenTables : Database :=
  { Database.empty with
    artifacts := [⟨sampleArtifact, 1⟩]
    generations := [generationRow (sampleAdmission 0).execution]
    executions := [newExecutionRow 1 (sampleAdmission 0).execution] }

theorem takenTables_valid : takenTables.Valid := ⟨by decide, by decide, by decide⟩

theorem takenLedger_reuses (irDigest : Text) : takenLedger.Reuses (sameIDAdmission "other" irDigest) where
  taken := ⟨admittedRecord (sampleAdmission 0) 1, rfl, (by decide : ("delivery" : Text) ≠ ("other" : Text))⟩
  fresh := rfl

theorem takenTables_reuses (irDigest : Text) : takenTables.Reuses (sameIDAdmission "other" irDigest) where
  taken := (by decide : ∃ r ∈ takenTables.executions, r.executionID = ("execution" : Text))
  fresh := (by decide : ∀ r ∈ takenTables.executions, r.admissionIdentity ≠ ("other" : Text))

theorem sameIDAdmission_admissible : Admissible (sameIDAdmission "other" "ir") ∧ Admissible (sameIDAdmission "other" "ir2") := by
  have hvalid : validateDurableAdmission (sameIDAdmission "other" "ir") = .ok () ∧
      validateDurableAdmission (sameIDAdmission "other" "ir2") = .ok () := by decide +kernel
  exact ⟨⟨hvalid.1, rfl, le_rfl⟩, hvalid.2, rfl, le_rfl⟩

/-- The same generation, a free identity and a taken ID: in memory this is a conflict, in PostgreSQL it is not. -/
theorem reused_id_retried :
    takenTables.Valid ∧ takenLedger.Reuses (sameIDAdmission "other" "ir") ∧
      takenTables.Reuses (sameIDAdmission "other" "ir") ∧ Admissible (sameIDAdmission "other" "ir") ∧
      Conflicted (takenLedger.admitExecution none 2 (sameIDAdmission "other" "ir")) takenLedger ∧
      ((takenTables.admitExecutionAtomic none (fun _ => 2) (sameIDAdmission "other" "ir")).1.toOption.isNone = true ∧
        ¬Conflicted (takenTables.admitExecutionAtomic none (fun _ => 2) (sameIDAdmission "other" "ir")) takenTables) := by
  have hl := takenLedger_reuses "ir"
  have hdb := takenTables_reuses "ir"
  have ha := sameIDAdmission_admissible.1
  obtain ⟨err, hmemory, hiff⟩ := admitExecution_reuse 2 hl
  obtain ⟨err', hpostgres, hiff'⟩ := admitExecutionAtomic_reuse (fun _ => 2) takenTables_valid hdb
  refine ⟨takenTables_valid, hl, hdb, ha, (refused_iff hmemory hiff).2 ha.valid, by rw [hpostgres]; rfl, fun h => ?_⟩
  obtain ⟨-, -, r, hr, hne⟩ := (refused_iff hpostgres hiff').1 h
  have hsame : sameExecutionArtifact sampleArtifact (sameIDAdmission "other" "ir").artifact = true := by decide +kernel
  obtain rfl : (⟨sampleArtifact, 1⟩ : ArtifactRow) = r := Option.some.inj hr
  rw [hsame] at hne
  cases hne

theorem reused_id_refused_clash :
    Conflicted (takenLedger.admitExecution none 2 (sameIDAdmission "other" "ir2")) takenLedger ∧
      Conflicted (takenTables.admitExecutionAtomic none (fun _ => 2) (sameIDAdmission "other" "ir2")) takenTables := by
  have hstorable : Storable (sameIDAdmission "other" "ir2").artifact := ⟨by decide, fun t _ => ⟨t, rfl⟩⟩
  have hclash : takenTables.Clashes (sameIDAdmission "other" "ir2").artifact := ⟨⟨sampleArtifact, 1⟩, rfl, by
    rw [sameExecutionArtifact, decide_eq_false (by decide)]
    rfl⟩
  exact (reused_id_refused takenLedger takenTables (sameIDAdmission "other" "ir2") 2 (fun _ => 2) takenTables_valid
    (takenLedger_reuses "ir2") (takenTables_reuses "ir2")).1.2 ⟨sameIDAdmission_admissible.2, hstorable, hclash⟩

end

end Effectus

import Effectus.Theorems.Postgres.Prune

/-!
Whole graphs. Executions and sagas are limited apart, so an execution can go while one of its sagas stays
behind. Every saga of an execution that goes is a candidate; what decides is its rank among the candidates.
-/

namespace Effectus.Postgres

section

variable [Collation] {db : Database} {before : Timestamp} {limit : Nat}

/-! ### The order of the candidates -/

theorem comesAfter_eq_false {a b : Timestamp × Text} :
    comesAfter a b = false ↔ a.1 < b.1 ∨ a.1 = b.1 ∧ Collation.le a.2 b.2 = true := by
  unfold comesAfter
  by_cases h : a.1 = b.1
  · simp [h]
  · simp only [ne_eq, h, not_false_eq_true, if_true, decide_eq_false_iff_not, not_lt, false_and, or_false]
    exact ⟨fun hle => lt_of_le_of_ne hle h, le_of_lt⟩

theorem comesAfter_eq_true {a b : Timestamp × Text} :
    comesAfter a b = true ↔ b.1 < a.1 ∨ b.1 = a.1 ∧ ¬Collation.le a.2 b.2 = true := by
  rw [← Bool.not_eq_false, comesAfter_eq_false, not_or, not_lt, not_and]
  constructor
  · rintro ⟨hle, hne⟩
    rcases lt_or_eq_of_le hle with hlt | heq
    · exact .inl hlt
    · exact .inr ⟨heq, hne heq.symm⟩
  · rintro (hlt | ⟨heq, hne⟩)
    · exact ⟨le_of_lt hlt, fun he => absurd he (ne_of_gt hlt)⟩
    · exact ⟨le_of_eq heq, fun _ => hne⟩

theorem orders_comesAfter {ρ : Type} (key : ρ → Timestamp × Text) : Table.Orders fun a b => comesAfter (key a) (key b) where
  asymm {a b} h := by
    rw [comesAfter_eq_true] at h
    rw [comesAfter_eq_false]
    exact h.imp id (And.imp_right (Collation.total _ _).resolve_left)
  trans {a b c} hab hbc := by
    rw [comesAfter_eq_false] at *
    rcases hab with hab | ⟨hab, hab'⟩
    · exact .inl (hbc.elim (lt_trans hab) fun h => h.1 ▸ hab)
    · exact hbc.imp (fun h => hab ▸ h) (And.imp hab.trans (Collation.trans hab'))

theorem comesAfter_total {a b : Timestamp × Text} (h : a.2 ≠ b.2) : comesAfter a b = true ∨ comesAfter b a = true := by
  by_contra hn
  rw [not_or, Bool.not_eq_true, Bool.not_eq_true, comesAfter_eq_false, comesAfter_eq_false] at hn
  obtain ⟨hab, hba⟩ := hn
  rcases hab with hlt | ⟨he, hle⟩
  · rcases hba with hlt' | ⟨he', -⟩
    · exact absurd hlt (not_lt.2 (le_of_lt hlt'))
    · exact absurd he' (ne_of_gt hlt)
  · rcases hba with hlt' | ⟨-, hle'⟩
    · exact absurd he (ne_of_gt hlt')
    · exact h (Collation.antisymm hle hle')

/-! ### Ranks -/

/-- The executions a pass may select, before the limit. -/
def staleExecutions (before : Timestamp) (db : Database) : List ExecutionRow :=
  db.executions.filter (prunableExecution before db)

/-- The sagas a pass may select, before the limit. -/
def staleSagas (before : Timestamp) (db : Database) (limit : Nat) : List SagaRow :=
  db.sagas.filter (prunableSaga before db (pruneExecutions before db limit))

theorem mem_pruneExecutions (hu : db.Uniques) {e : ExecutionRow} (he : e ∈ db.executions) :
    e.executionID ∈ pruneExecutions before db limit ↔
      e ∈ staleExecutions before db ∧ Table.rank ExecutionRow.late (staleExecutions before db) e < limit := by
  have hstale := hu.ledger.executions.filter (prunableExecution before db)
  have hfirst : ∀ x ∈ staleExecutions before db, (x ∈ Table.first ExecutionRow.late limit (staleExecutions before db) ↔
      Table.rank ExecutionRow.late (staleExecutions before db) x < limit) := fun x hx =>
    Table.mem_first (orders_comesAfter _) hstale (fun _ _ _ _ h => comesAfter_total h) hx
  constructor
  · intro h
    obtain ⟨x, hx, hid⟩ := List.mem_map.1 h
    have hm := Table.mem_of_mem_first hx
    obtain rfl := hu.ledger.executions.eq_of_key (List.mem_filter.1 hm).1 he hid
    exact ⟨hm, (hfirst x hm).1 hx⟩
  · rintro ⟨hm, hrank⟩
    exact List.mem_map_of_mem ((hfirst e hm).2 hrank)

theorem mem_pruneSagas (hu : db.Uniques) {r : SagaRow} (hr : r ∈ staleSagas before db limit) :
    r.sagaID ∈ pruneSagas before db (pruneExecutions before db limit) limit ↔
      Table.rank SagaRow.late (staleSagas before db limit) r < limit := by
  have hstale := hu.saga.sagas.filter (prunableSaga before db (pruneExecutions before db limit))
  have hfirst : r ∈ Table.first SagaRow.late limit (staleSagas before db limit) ↔
      Table.rank SagaRow.late (staleSagas before db limit) r < limit :=
    Table.mem_first (orders_comesAfter _) hstale (fun _ _ _ _ h => comesAfter_total h) hr
  rw [← hfirst]
  constructor
  · intro h
    obtain ⟨x, hx, hid⟩ := List.mem_map.1 h
    rwa [← hstale.eq_of_key (Table.mem_of_mem_first hx) hr hid]
  · exact fun h => List.mem_map_of_mem h

/-- The saga of a selected execution's plan is a candidate: what holds an execution back holds its sagas
    back, and no other plan names the saga. -/
theorem mem_staleSagas (hu : db.Uniques) {e : ExecutionRow} (he : e ∈ db.executions)
    (hid : e.executionID ∈ pruneExecutions before db limit) {plan : PlanRow} (hp : plan ∈ db.plans)
    (hpe : plan.executionID = e.executionID) {g : SagaRow} (hg : g ∈ db.sagas) (hgp : g.sagaID = plan.sagaID) :
    g ∈ staleSagas before db limit := by
  have hstale := (List.mem_filter.1 ((mem_pruneExecutions hu he).1 hid).1).2
  obtain ⟨-, -, -, hsagas, houtbox, hattempts, -⟩ := prunableExecution_iff.1 hstale
  obtain ⟨hsettled, hold⟩ := hsagas plan hp hpe g hg hgp
  refine List.mem_filter.2 ⟨hg, prunableSaga_iff.2 ⟨hsettled, hold, fun o ho he => ?_, fun o ho he => ?_, ?_⟩⟩
  · exact houtbox plan hp hpe o ho (he.trans hgp)
  · exact hattempts plan hp hpe o ho (he.trans hgp)
  · intro other hm hsaga
    rw [hu.ledger.planSagas.eq_of_key hm hp (hsaga.trans hgp), hpe]
    exact hid

/-! ### Whole graphs -/

/-- No row of a saga is left. -/
structure SagaGone (db after : Database) (sagaID : Text) : Prop where
  sagas : ∀ r ∈ after.sagas, r.sagaID ≠ sagaID
  steps : ∀ r ∈ after.steps, r.sagaID ≠ sagaID
  outbox : ∀ r ∈ after.outbox, r.sagaID ≠ sagaID
  attempts : ∀ o ∈ db.outbox, o.sagaID = sagaID → ∀ r ∈ after.attempts, r.dispatchID ≠ o.dispatchID

omit [Collation] in
theorem sagaGone {c : Candidates} {sagaID : Text} (h : c.hasSaga sagaID = true) :
    SagaGone db (pruned before c db) sagaID := by
  have hgone : ∀ {ρ : Type} {id : ρ → Text} {rows : List ρ} {r : ρ}, r ∈ Table.delete (fun r => c.hasSaga (id r)) rows →
      id r ≠ sagaID := by
    rintro ρ id rows r hr rfl
    rw [(Table.mem_delete.1 hr).2] at h
    cases h
  refine ⟨fun _ => hgone, fun _ => hgone, fun _ => hgone, fun o ho he r hr hid => ?_⟩
  have hattempt := attempt_of_hasSaga ho hid.symm (he.symm ▸ h)
  rw [(Table.mem_delete.1 hr).2] at hattempt
  cases hattempt

/-- Each saga of an execution among the first `limit` candidates is among the first `limit` of its own. -/
def WithinBatch (before : Timestamp) (limit : Nat) (db : Database) : Prop :=
  ∀ e ∈ staleExecutions before db, Table.rank ExecutionRow.late (staleExecutions before db) e < limit →
    ∀ plan ∈ db.plans, plan.executionID = e.executionID → ∀ g ∈ db.sagas, g.sagaID = plan.sagaID →
      Table.rank SagaRow.late (staleSagas before db limit) g < limit

/-- A pass leaves nothing of the executions it deletes exactly when the limit on sagas cuts none of theirs
    off. -/
theorem prune_whole_graphs (db : Database) (now : Time) (options : PruneOptions) (hu : db.Uniques)
    (hfk : db.ForeignKeys) (hcutoff : options.cutoff now ≠ 0)
    (hsize : 1 ≤ options.batchSize ∧ options.batchSize ≤ 10000) (hrun : options.dryRun = false) :
    (∀ e ∈ db.executions, e ∉ (pruneTerminalRecords db now options).2.executions → ∀ sagaID,
        db.Planned e.executionID sagaID → SagaGone db (pruneTerminalRecords db now options).2 sagaID) ↔
      WithinBatch (timestamptz (options.cutoff now)) options.batchSize.toNat db := by
  rw [pruneTerminalRecords_ok hfk hcutoff hsize hrun]
  dsimp only
  generalize timestamptz (options.cutoff now) = before, options.batchSize.toNat = limit
  have hdeleted : ∀ e ∈ db.executions, (e ∉ (pruned before (candidates before db limit) db).executions ↔
      e.executionID ∈ pruneExecutions before db limit) := by
    intro e he
    rw [show e.executionID ∈ pruneExecutions before db limit ↔
      (candidates before db limit).hasExecution e.executionID = true from List.contains_iff_mem.symm,
      ← Bool.not_eq_false, not_iff_not]
    exact ⟨fun hm => (Table.mem_delete.1 hm).2, fun hno => Table.mem_delete.2 ⟨he, hno⟩⟩
  constructor
  · intro hwhole e he hrank plan hp hpe g hg hgp
    have hm := (List.mem_filter.1 he).1
    have hid := (mem_pruneExecutions hu hm).2 ⟨he, hrank⟩
    have hgone := hwhole e hm ((hdeleted e hm).2 hid) plan.sagaID ⟨plan, hp, hpe, rfl⟩
    rw [← mem_pruneSagas hu (mem_staleSagas hu hm hid hp hpe hg hgp)]
    by_contra hno
    refine hgone.sagas g (Table.mem_delete.2 ⟨hg, ?_⟩) hgp
    rw [Candidates.hasSaga, ← Bool.not_eq_true, List.contains_iff_mem]
    exact hno
  · rintro hbatch e he hgone sagaID ⟨plan, hp, hpe, rfl⟩
    have hid := (hdeleted e he).1 hgone
    obtain ⟨hstale, hrank⟩ := (mem_pruneExecutions hu he).1 hid
    obtain ⟨g, hg, hgp⟩ := hfk.planSagas plan hp
    have hpicked := (mem_pruneSagas hu (mem_staleSagas hu he hid hp hpe hg hgp)).2 (hbatch e hstale hrank plan hp hpe g hg hgp)
    rw [hgp] at hpicked
    exact sagaGone (List.contains_iff_mem.2 hpicked)

end

section

attribute [local instance] byteOrder

theorem prune_whole_graphs_sample : (sampleDatabase.Uniques ∧ sampleDatabase.ForeignKeys) ∧
    WithinBatch (timestamptz ((sampleOptions 1).cutoff 0)) 1 sampleDatabase ∧
    ∀ e ∈ sampleDatabase.executions, e ∉ (pruneTerminalRecords sampleDatabase 0 (sampleOptions 1)).2.executions →
      ∀ sagaID, sampleDatabase.Planned e.executionID sagaID →
        SagaGone sampleDatabase (pruneTerminalRecords sampleDatabase 0 (sampleOptions 1)).2 sagaID := by
  have hu : sampleDatabase.Uniques := by decide
  have hfk : sampleDatabase.ForeignKeys := by decide
  have hbatch : WithinBatch (timestamptz ((sampleOptions 1).cutoff 0)) 1 sampleDatabase := by
    unfold WithinBatch
    decide
  exact ⟨⟨hu, hfk⟩, hbatch,
    (prune_whole_graphs sampleDatabase 0 (sampleOptions 1) hu hfk (by decide) (by decide) rfl).2 hbatch⟩

/-- One completed execution with two plans. -/
def twoPlansDatabase : Database :=
  { Database.empty with
    artifacts := [sampleArtifact]
    executions := [sampleExecution "done" .completed]
    sagas := [sampleSaga "first" "done", sampleSaga "second" "done"]
    plans := [samplePlan "done" "first" 0, samplePlan "done" "second" 1] }

/-- With a batch of one the execution goes with both its plans, and only one of its sagas. -/
theorem saga_left_behind :
    (twoPlansDatabase.Checks ∧ twoPlansDatabase.Uniques ∧ twoPlansDatabase.ForeignKeys) ∧
      (∀ g ∈ twoPlansDatabase.sagas, ∃ plan ∈ twoPlansDatabase.plans,
        plan.executionID = g.executionID ∧ plan.sagaID = g.sagaID) ∧
      (let after := (pruneTerminalRecords twoPlansDatabase 0 (sampleOptions 1)).2
       after.executions.length = 0 ∧ after.plans.length = 0 ∧ after.sagas.map (·.sagaID) = [("second" : Text)]) := by
  decide

end

end Effectus.Postgres

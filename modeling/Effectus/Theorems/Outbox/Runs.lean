import Effectus.Theorems.Outbox.Settle

/-! From calls to transitions and from transitions to runs: what every transition keeps, every run
    keeps. -/

namespace Effectus
namespace Store

variable {s t : Store}

/-! ### Stopping one saga after another -/

/-- Both passes over a saga's dispatches as one. -/
def closed (s : Store) (now : Time) (d : Dispatch) : Dispatch := cancelWaiting now (s.blockUncertain now d)

theorem blockUncertain_sagaID (now : Time) (d : Dispatch) : (s.blockUncertain now d).sagaID = d.sagaID :=
  (Dispatch.core_eq.1 (blockUncertain_core now d)).2.1

theorem closeDispatches_eq (sagaID : Text) (now : Time) :
    s.closeDispatches sagaID now = s.dispatches.map fun d => if d.sagaID = sagaID then s.closed now d else d := by
  rw [closeDispatches, List.map_map]
  refine List.map_congr_left fun d _ => ?_
  by_cases h : d.sagaID = sagaID
  · simp [h, blockUncertain_sagaID, closed]
  · simp [h]

theorem stopSaga_dispatches (now : Time) (saga : SagaInstance) :
    (stopSaga now s saga).dispatches = s.closeDispatches saga.sagaID now := by
  unfold stopSaga
  dsimp only
  split
  · split <;> rfl
  · rfl

theorem stopSaga_steps (now : Time) (saga : SagaInstance) : (stopSaga now s saga).steps = s.steps := by
  unfold stopSaga
  dsimp only
  split
  · split <;> rfl
  · rfl

theorem stopSaga_attempts (now : Time) (saga : SagaInstance) : (stopSaga now s saga).attempts = s.attempts := by
  unfold stopSaga
  dsimp only
  split
  · split <;> rfl
  · rfl

theorem saga?_setSaga_of_ne {saga : SagaInstance} {id : Text} (h : id ≠ saga.sagaID) :
    (s.setSaga saga).saga? id = s.saga? id :=
  Keyed.get?_modify_of_ne (fun _ _ _ => rfl) h

theorem stopSaga_saga?_of_ne {now : Time} {saga : SagaInstance} {id : Text} (h : id ≠ saga.sagaID) :
    (stopSaga now s saga).saga? id = s.saga? id := by
  unfold stopSaga
  dsimp only
  split
  · split
    · exact saga?_setSaga_of_ne h
    · rfl
  · exact saga?_setSaga_of_ne h

/-- Stopping a saga leaves the leases of the others alone. -/
theorem stopSaga_hasActiveLease_of_ne {now : Time} {saga : SagaInstance} {id : Text} (h : id ≠ saga.sagaID) :
    (stopSaga now s saga).hasActiveLease id now = s.hasActiveLease id now := by
  have hcore : ∀ d : Dispatch, (s.closed now d).sagaID = d.sagaID := fun d =>
    (Dispatch.core_eq.1 ((cancelWaiting_core now _).trans (blockUncertain_core now d))).2.1
  rw [hasActiveLease, hasActiveLease, stopSaga_dispatches, closeDispatches_eq, List.any_map]
  congr 1
  funext d
  by_cases hd : d.sagaID = saga.sagaID
  · have hne : ¬saga.sagaID = id := fun he => h he.symm
    simp [hd, hcore, hne]
  · simp [hd]

section

variable [Platform]

abbrev Steps : Store → Store → Prop := Relation.ReflTransGen Trans

theorem steps_stop {now : Time} : ∀ (xs : List SagaInstance) (s : Store), (xs.map (·.sagaID)).Nodup →
    (∀ saga ∈ xs, s.saga? saga.sagaID = some saga ∧ s.hasActiveLease saga.sagaID now = false) →
    Steps s (xs.foldl (stopSaga now) s)
  | [], _, _, _ => .refl
  | x :: xs, s, hn, hf => by
    obtain ⟨hx, hn⟩ := List.nodup_cons.1 hn
    obtain ⟨hfound, hidle⟩ := hf x (List.mem_cons_self ..)
    have hstop : Trans s (stopSaga now s x) := .stopped hfound hidle
    refine .head hstop (steps_stop xs _ hn fun saga hm => ?_)
    have hne : saga.sagaID ≠ x.sagaID := fun he => hx (List.mem_map.2 ⟨saga, hm, he⟩)
    rw [stopSaga_saga?_of_ne hne, stopSaga_hasActiveLease_of_ne hne]
    exact hf saga (List.mem_cons_of_mem _ hm)

/-! ### Calls are transitions -/

theorem after_steps (hk : Keys s) (op : Op) : Steps s (s.after op) := by
  have one : ∀ {t : Store}, Trans s t → Steps s t := Relation.ReflTransGen.single
  have same : ∀ {t : Store}, t = s → Steps s t := fun h => h ▸ .refl
  cases op with
  | createSaga ctx now request =>
    rcases createSaga_inv (Prod.mk.eta (p := s.createSaga ctx now request)).symm with h | ⟨saga, -, hf, hr, hse, h⟩
    · exact same h
    · rw [after, apply]
      exact h ▸ one (.created hf hr hse)
  | enqueueStep ctx now request =>
    rcases enqueueStep_inv (Prod.mk.eta (p := s.enqueueStep ctx now request)).symm with
      h | ⟨saga, n, hn, hsaga, hf, hr, hd, -, h⟩
    · exact same h
    · rw [after, apply]
      exact h ▸ one (.enqueued hn hsaga hf hr hd)
  | claimDispatch ctx clock token options =>
    rcases claimDispatch_inv (Prod.mk.eta (p := s.claimDispatch ctx clock token options)).symm with
      ⟨h, -⟩ | ⟨d, tok, -, hd, -, h⟩
    · exact same h
    · rw [after, apply]
      exact h ▸ one (.claimed hd)
  | saveFencingGrants ctx checkedAt updatedAt dispatchID attempt leaseToken grants =>
    rcases saveFencingGrants_inv (Prod.mk.eta
      (p := s.saveFencingGrants ctx checkedAt updatedAt dispatchID attempt leaseToken grants)).symm with
      ⟨h, -⟩ | ⟨d, hd, hl, -, h⟩
    · exact same h
    · rw [after, apply]
      exact h ▸ one (.granted (id_of_dispatch? hd ▸ hd) (currentLeaseAt_iff.1 hl).1)
  | completeDispatch ctx readAt checkedAt completion =>
    rcases completeDispatch_inv (Prod.mk.eta (p := s.completeDispatch ctx readAt checkedAt completion)).symm with
      ⟨h, -⟩ | ⟨d, step, saga, hd, hl, hsaga, hstep, hv, -, h⟩
    · exact same h
    · rw [after, apply]
      exact h ▸ one (.settled (id_of_dispatch? hd ▸ hd) (currentLeaseAt_iff.1 hl).1 hsaga hstep hv)
  | completeSaga ctx now sagaID =>
    rcases completeSaga_inv (Prod.mk.eta (p := s.completeSaga ctx now sagaID)).symm with
      h | ⟨saga, hsaga, hr, hall, h⟩
    · exact same h
    · rw [after, apply]
      obtain rfl := id_of_saga? hsaga
      exact h ▸ one (.closed hsaga hr hall)
  | finalizeStoppedExecution ctx now executionID =>
    rcases finalizeStoppedExecution_inv
      (Prod.mk.eta (p := s.finalizeStoppedExecution ctx now executionID)).symm with ⟨h, -⟩ | ⟨hidle, -, h⟩
    · exact same h
    · rw [after, apply]
      refine h ▸ steps_stop _ s (hk.sagas.sublist (List.filter_sublist.map _)) fun saga hm => ?_
      exact ⟨hk.sagas.get?_of_mem (List.mem_filter.1 hm).1, hidle saga hm⟩
  | blockSagaCompensation ctx now sagaID =>
    rcases blockSagaCompensation_inv (Prod.mk.eta (p := s.blockSagaCompensation ctx now sagaID)).symm with
      h | ⟨saga, hsaga, hc, h⟩
    · exact same h
    · rw [after, apply]
      obtain rfl := id_of_saga? hsaga
      exact h ▸ one (.blocked hsaga hc rfl)
  | finalizeFailFastSaga ctx now sagaID =>
    rcases finalizeFailFastSaga_inv (Prod.mk.eta (p := s.finalizeFailFastSaga ctx now sagaID)).symm with
      h | ⟨saga, hsaga, hb, hn, h⟩
    · exact same h
    · rw [after, apply]
      obtain rfl := id_of_saga? hsaga
      exact h ▸ one (.failedFast hsaga hb hn)

/-- A call keeps what every transition keeps. -/
theorem after_keeps {P : Store → Prop} (step : ∀ {s t}, Shape s → P s → Trans s t → P t) (hs : Shape s) (hp : P s)
    (op : Op) : Shape (s.after op) ∧ P (s.after op) := by
  have h := after_steps hs.toKeys op
  generalize s.after op = t at h ⊢
  induction h with
  | refl => exact ⟨hs, hp⟩
  | tail _ hst ih => exact ⟨hst.shape ih.1, step ih.1 ih.2 hst⟩

/-- A run keeps what every transition keeps. -/
theorem run_keeps {P : Store → Prop} (step : ∀ {s t}, Shape s → P s → Trans s t → P t) (hs : Shape s) (hp : P s)
    (ops : List Op) : Shape (s.run ops) ∧ P (s.run ops) := by
  induction ops generalizing s with
  | nil => exact ⟨hs, hp⟩
  | cons op ops ih =>
    obtain ⟨hs', hp'⟩ := after_keeps step hs hp op
    exact ih hs' hp'

theorem run_shape (ops : List Op) : Shape (empty.run ops) :=
  (run_keeps (P := fun _ => True) (fun _ _ _ => trivial) shape_empty trivial ops).1

end

end Store
end Effectus

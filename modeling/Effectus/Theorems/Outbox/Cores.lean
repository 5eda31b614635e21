import Effectus.Theorems.Outbox.Transitions

/-! The part of a record no call changes once it is stored: its core. Most transitions keep the cores of
    every list; three add a record. -/

namespace Effectus

/-- A saga without its state. -/
def SagaInstance.core (x : SagaInstance) : SagaInstance := { x with state := .running, revision := 0, updatedAt := 0 }

/-- A step without its state and result. -/
def SagaStep.core (x : SagaStep) : SagaStep := { x with state := .pending, result := [] }

/-- A dispatch without its state, its lease and what its attempts left on it. -/
def Dispatch.core (d : Dispatch) : Dispatch :=
  { d with
    state := .queued, attempt := 0, leaseOwner := [], leaseToken := [], leaseDeadline := 0, nextAttemptAt := 0
    fencingGrants := [], lastOutcome := .unset, lastError := [], result := [], revision := 0, updatedAt := 0 }

theorem SagaInstance.core_eq {x y : SagaInstance} : x.core = y.core ↔
    x.ns = y.ns ∧ x.sagaID = y.sagaID ∧ x.executionID = y.executionID ∧ x.planID = y.planID ∧
      x.planDigest = y.planDigest ∧ x.serial = y.serial ∧ x.createdAt = y.createdAt := by
  simp only [SagaInstance.core, SagaInstance.mk.injEq]
  tauto

theorem SagaStep.core_eq {x y : SagaStep} : x.core = y.core ↔
    x.sagaID = y.sagaID ∧ x.effectID = y.effectID ∧ x.sequence = y.sequence ∧ x.verb = y.verb ∧
      x.contractHash = y.contractHash ∧ x.arguments = y.arguments ∧ x.argumentHash = y.argumentHash ∧
      x.compensationVerb = y.compensationVerb ∧ x.compensationContract = y.compensationContract ∧
      x.compensationArguments = y.compensationArguments ∧
      x.compensationArgumentHash = y.compensationArgumentHash ∧ x.fencing = y.fencing := by
  simp only [SagaStep.core, SagaStep.mk.injEq]
  tauto

theorem Dispatch.core_eq {x y : Dispatch} : x.core = y.core ↔
    x.id = y.id ∧ x.sagaID = y.sagaID ∧ x.effectID = y.effectID ∧ x.sequence = y.sequence ∧
      x.direction = y.direction ∧ x.verb = y.verb ∧ x.contractHash = y.contractHash ∧
      x.arguments = y.arguments ∧ x.argumentHash = y.argumentHash ∧ x.idempotencyKey = y.idempotencyKey ∧
      x.fencing = y.fencing ∧ x.createdAt = y.createdAt := by
  simp only [Dispatch.core, Dispatch.mk.injEq]
  tauto

namespace Store

variable {s t u : Store}

/-- No record was added and none changed its core. -/
structure SameCores (s t : Store) : Prop where
  sagas : t.sagas.map (·.core) = s.sagas.map (·.core)
  steps : t.steps.map (·.core) = s.steps.map (·.core)
  dispatches : t.dispatches.map (·.core) = s.dispatches.map (·.core)

namespace SameCores

theorem refl (s : Store) : SameCores s s := ⟨rfl, rfl, rfl⟩

theorem trans (h₁ : SameCores s t) (h₂ : SameCores t u) : SameCores s u :=
  ⟨h₂.sagas.trans h₁.sagas, h₂.steps.trans h₁.steps, h₂.dispatches.trans h₁.dispatches⟩

theorem symm (h : SameCores s t) : SameCores t s := ⟨h.sagas.symm, h.steps.symm, h.dispatches.symm⟩

theorem saga_mem (h : SameCores s t) {x : SagaInstance} (hx : x ∈ t.sagas) : ∃ y ∈ s.sagas, y.core = x.core := by
  have hm : x.core ∈ s.sagas.map (·.core) := h.sagas ▸ List.mem_map.2 ⟨x, hx, rfl⟩
  obtain ⟨y, hy, he⟩ := List.mem_map.1 hm
  exact ⟨y, hy, he⟩

theorem step_mem (h : SameCores s t) {x : SagaStep} (hx : x ∈ t.steps) : ∃ y ∈ s.steps, y.core = x.core := by
  have hm : x.core ∈ s.steps.map (·.core) := h.steps ▸ List.mem_map.2 ⟨x, hx, rfl⟩
  obtain ⟨y, hy, he⟩ := List.mem_map.1 hm
  exact ⟨y, hy, he⟩

theorem dispatch_mem (h : SameCores s t) {x : Dispatch} (hx : x ∈ t.dispatches) :
    ∃ y ∈ s.dispatches, y.core = x.core := by
  have hm : x.core ∈ s.dispatches.map (·.core) := h.dispatches ▸ List.mem_map.2 ⟨x, hx, rfl⟩
  obtain ⟨y, hy, he⟩ := List.mem_map.1 hm
  exact ⟨y, hy, he⟩

/-- Records are never removed. -/
theorem dispatch?_none (h : SameCores s t) {id : Text} (hn : t.dispatch? id = none) :
    s.dispatch? id = none := by
  refine Keyed.get?_eq_none.2 fun d hd he => ?_
  obtain ⟨d', hd', hc⟩ := h.symm.dispatch_mem hd
  exact Keyed.get?_eq_none.1 hn d' hd' ((Dispatch.core_eq.1 hc).1.trans he)

end SameCores

/-- Records are only added, after those there are, and none changes its core. -/
structure Grows (s t : Store) : Prop where
  sagas : s.sagas.map (·.core) <+: t.sagas.map (·.core)
  steps : s.steps.map (·.core) <+: t.steps.map (·.core)
  dispatches : s.dispatches.map (·.core) <+: t.dispatches.map (·.core)

theorem SameCores.grows (h : SameCores s t) : Grows s t :=
  ⟨h.sagas ▸ List.prefix_rfl, h.steps ▸ List.prefix_rfl, h.dispatches ▸ List.prefix_rfl⟩

namespace Grows

theorem refl (s : Store) : Grows s s := (SameCores.refl s).grows

theorem trans (h₁ : Grows s t) (h₂ : Grows t u) : Grows s u :=
  ⟨h₁.sagas.trans h₂.sagas, h₁.steps.trans h₂.steps, h₁.dispatches.trans h₂.dispatches⟩

theorem saga_mem (h : Grows s t) {x : SagaInstance} (hx : x ∈ s.sagas) : ∃ y ∈ t.sagas, y.core = x.core := by
  obtain ⟨y, hy, he⟩ := List.mem_map.1 (h.sagas.subset (List.mem_map.2 ⟨x, hx, rfl⟩))
  exact ⟨y, hy, he⟩

theorem step_mem (h : Grows s t) {x : SagaStep} (hx : x ∈ s.steps) : ∃ y ∈ t.steps, y.core = x.core := by
  obtain ⟨y, hy, he⟩ := List.mem_map.1 (h.steps.subset (List.mem_map.2 ⟨x, hx, rfl⟩))
  exact ⟨y, hy, he⟩

theorem dispatch_mem (h : Grows s t) {x : Dispatch} (hx : x ∈ s.dispatches) :
    ∃ y ∈ t.dispatches, y.core = x.core := by
  obtain ⟨y, hy, he⟩ := List.mem_map.1 (h.dispatches.subset (List.mem_map.2 ⟨x, hx, rfl⟩))
  exact ⟨y, hy, he⟩

/-- The same lists with a saga rewritten, and records after them. -/
theorem of_append {steps : List SagaStep} {dispatches : List Dispatch} (hsagas : t.sagas.map (·.core) = s.sagas.map (·.core))
    (hsteps : t.steps = s.steps ++ steps) (hdispatches : t.dispatches = s.dispatches ++ dispatches) : Grows s t :=
  ⟨hsagas ▸ List.prefix_rfl, by simp [hsteps], by simp [hdispatches]⟩

end Grows

end Store
end Effectus

import Effectus.Outbox.Run
import Effectus.Runtime.World

/-!
Which part of the world a call changes: each store keeps what only calls on the others do.
-/

namespace Effectus

namespace World

variable [Platform] [FencingProvider]

namespace Call

/-- A call on the fencing provider. -/
def isFencing : Call → Bool
  | .acquireFence _ | .renewFence .. | .releaseFence .. => true
  | _ => false

/-- A call that may change the outbox. -/
def isOutbox : Call → Bool
  | .createSaga _ | .enqueueStep _ | .claimDispatch _ | .saveFencingGrants .. | .completeDispatch _ | .completeSaga _
  | .finalizeStoppedExecution _ | .blockSagaCompensation _ | .finalizeFailFastSaga _ | .admitExecutionAtomic _ => true
  | _ => false

end Call

variable {c : Call} {a : Ambient} {w w' : World} {r : c.Reply}

/-- Only calls on the provider change it. -/
theorem step_fences (hc : c.isFencing = false) (h : World.step c a w = some (r, w')) : w'.fences = w.fences := by
  cases c
  case acquireFence | renewFence | releaseFence => cases hc
  case resolveGeneration artifact =>
    unfold World.step at h
    dsimp only at h
    split at h
    · cases h
      rfl
    · cases h
      rfl
  all_goals
    cases h
    rfl

/-- Only calls on the outbox change it. -/
theorem step_outbox (hc : c.isOutbox = false) (h : World.step c a w = some (r, w')) : w'.outbox = w.outbox := by
  cases c
  case createSaga | enqueueStep | claimDispatch | saveFencingGrants | completeDispatch | completeSaga |
    finalizeStoppedExecution | blockSagaCompensation | finalizeFailFastSaga | admitExecutionAtomic => cases hc
  case resolveGeneration artifact =>
    unfold World.step at h
    dsimp only at h
    split at h
    · cases h
      rfl
    · cases h
      rfl
  all_goals
    cases h
    rfl

/-- A call but the admission that writes both stores is one of the outbox's own, or leaves it alone. -/
theorem step_after (hc : ∀ admission, c ≠ .admitExecutionAtomic admission) (h : World.step c a w = some (r, w')) :
    w'.outbox = w.outbox ∨ ∃ op, w'.outbox = w.outbox.after op := by
  by_cases hout : c.isOutbox = false
  · exact .inl (step_outbox hout h)
  · cases c
    case admitExecutionAtomic admission => exact absurd rfl (hc admission)
    case createSaga request => exact .inr ⟨.createSaga a.fault a.now request, by cases h; rfl⟩
    case enqueueStep request => exact .inr ⟨.enqueueStep a.fault a.now request, by cases h; rfl⟩
    case claimDispatch options => exact .inr ⟨.claimDispatch a.fault a.now a.token options, by cases h; rfl⟩
    case saveFencingGrants id attempt token grants =>
      exact .inr ⟨.saveFencingGrants a.fault a.now a.later id attempt token grants, by cases h; rfl⟩
    case completeDispatch completion => exact .inr ⟨.completeDispatch a.fault a.now a.later completion, by cases h; rfl⟩
    case completeSaga id => exact .inr ⟨.completeSaga a.fault a.now id, by cases h; rfl⟩
    case finalizeStoppedExecution id => exact .inr ⟨.finalizeStoppedExecution a.fault a.now id, by cases h; rfl⟩
    case blockSagaCompensation id => exact .inr ⟨.blockSagaCompensation a.fault a.now id, by cases h; rfl⟩
    case finalizeFailFastSaga id => exact .inr ⟨.finalizeFailFastSaga a.fault a.now id, by cases h; rfl⟩
    all_goals exact absurd rfl hout

end World

end Effectus

import Effectus.Outbox.Run
import Mathlib.Logic.Relation

/-! What the calls of the store can do to it. A call that returns an error leaves the store as it was;
    the others make the changes listed by `Trans`, each with the guards the source checked. -/

namespace Effectus
namespace Store

variable {s t : Store}

section

variable [Platform]

/-- One change of the store. -/
inductive Trans (s : Store) : Store → Prop
  | created {saga : SagaInstance} (fresh : s.saga? saga.sagaID = none) (running : saga.state = .running)
      (serial : saga.serial = true) : Trans s { s with sagas := s.sagas ++ [saga] }
  | enqueued {saga : SagaInstance} {request : EnqueueStepRequest} {n : NormalizedStep} {now : Time}
      (normalized : normalizeEnqueue request = .ok n) (found : s.saga? n.request.sagaID = some saga)
      (fresh : s.dispatch? (forwardDispatch saga (newStep n) now).id = none) (running : saga.state = .running)
      (dense : n.request.sequence = (s.stepsOf n.request.sagaID).length + 1) : Trans s (s.addStep saga n now)
  | claimed {d : Dispatch} {options : ClaimOptions} {now : Time} {token : Text}
      (found : s.candidate? options now = some d) : Trans s (s.claim d options now token)
  | granted {d : Dispatch} {grants : List FencingGrant} {now : Time} (found : s.dispatch? d.id = some d)
      (inFlight : d.state = .inFlight) : Trans s (s.grant d grants now)
  | settled {d : Dispatch} {step : SagaStep} {saga : SagaInstance} {c : Completion}
      (found : s.dispatch? d.id = some d) (inFlight : d.state = .inFlight)
      (hsaga : s.saga? d.sagaID = some saga) (hstep : s.step? d.sagaID d.effectID = some step)
      (valid : validateCompletion c = .ok ()) : Trans s (s.settle d step saga c)
  | closed {saga : SagaInstance} {now : Time} (found : s.saga? saga.sagaID = some saga)
      (running : saga.state = .running)
      (all : ∀ d ∈ s.dispatches, d.sagaID = saga.sagaID → d.state = .succeeded) :
      Trans s (s.setSaga (moved saga .completed now))
  | stopped {saga : SagaInstance} {now : Time} (found : s.saga? saga.sagaID = some saga)
      (idle : s.hasActiveLease saga.sagaID now = false) : Trans s (stopSaga now s saga)
  | blocked {saga : SagaInstance} {now : Time} {state : SagaState} (found : s.saga? saga.sagaID = some saga)
      (compensating : saga.state = .compensating)
      (hstate : state = if s.hasUncertainInverse saga.sagaID then .blockedUnknown else .blockedCompensation) :
      Trans s ({ s with dispatches := s.blockInverses saga.sagaID now }.setSaga (moved saga state now))
  | failedFast {saga : SagaInstance} {now : Time} (found : s.saga? saga.sagaID = some saga)
      (blocked : saga.state = .blockedCompensation) (none : s.hasInverseOrInFlight saga.sagaID = false) :
      Trans s (s.setSaga (moved saga .failed now))

end

/-! ### One inversion lemma per call -/

section

variable [Platform]

theorem createSaga_inv {ctx : Option Err} {now : Time} {request : CreateSagaRequest}
    {r : Except Err SagaInstance} (h : s.createSaga ctx now request = (r, t)) :
    t = s ∨ ∃ saga, r = .ok saga ∧ s.saga? saga.sagaID = none ∧ saga.state = .running ∧ saga.serial = true ∧
      t = { s with sagas := s.sagas ++ [saga] } := by
  unfold createSaga at h
  split at h
  · exact .inl (Prod.mk.inj h).2.symm
  · exact .inl (Prod.mk.inj h).2.symm
  · split at h <;> exact .inl (Prod.mk.inj h).2.symm
  · rename_i hv hf
    have hserial : request.serial = true := by
      by_contra hns
      rw [validateSagaRequest, if_pos (by simpa using hns)] at hv
      cases hv
    obtain ⟨rfl, rfl⟩ := Prod.mk.inj h
    exact .inr ⟨_, rfl, hf, rfl, hserial, rfl⟩

theorem enqueueStep_inv {ctx : Option Err} {now : Time} {request : EnqueueStepRequest}
    {r : Except Err Dispatch} (h : s.enqueueStep ctx now request = (r, t)) :
    t = s ∨ ∃ saga n, normalizeEnqueue request = .ok n ∧ s.saga? n.request.sagaID = some saga ∧
      s.dispatch? (forwardDispatch saga (newStep n) now).id = none ∧ saga.state = .running ∧
      n.request.sequence = (s.stepsOf n.request.sagaID).length + 1 ∧
      r = .ok (forwardDispatch saga (newStep n) now) ∧ t = s.addStep saga n now := by
  unfold enqueueStep at h
  split at h
  · exact .inl (Prod.mk.inj h).2.symm
  · exact .inl (Prod.mk.inj h).2.symm
  · rename_i n hn
    unfold enqueueNormalized at h
    split at h
    · exact .inl (Prod.mk.inj h).2.symm
    rename_i saga hsaga
    split at h
    · split at h
      · split at h <;> exact .inl (Prod.mk.inj h).2.symm
      · exact .inl (Prod.mk.inj h).2.symm
    rename_i hfresh
    split at h
    · exact .inl (Prod.mk.inj h).2.symm
    split at h
    · exact .inl (Prod.mk.inj h).2.symm
    split at h
    · exact .inl (Prod.mk.inj h).2.symm
    rename_i hrun hdense
    obtain ⟨rfl, rfl⟩ := Prod.mk.inj h
    exact .inr ⟨saga, n, hn, hsaga, hfresh, by simpa using hrun, by simpa using hdense, rfl, rfl⟩

/-- The completion a call settles with: its time is the clock's when the caller gives none. -/
def stamped (completion : Completion) (readAt : Time) : Completion :=
  { completion with now := if completion.now = 0 then readAt else completion.now }

theorem completeDispatch_inv {ctx : Option Err} {readAt checkedAt : Time} {completion : Completion}
    {r : Except Err Unit} (h : s.completeDispatch ctx readAt checkedAt completion = (r, t)) :
    (t = s ∧ ∃ err, r = .error err) ∨ ∃ d step saga, s.dispatch? completion.dispatchID = some d ∧
      currentLeaseAt d completion.attempt completion.leaseToken checkedAt = true ∧
      s.saga? d.sagaID = some saga ∧ s.step? d.sagaID d.effectID = some step ∧
      validateCompletion (stamped completion readAt) = .ok () ∧ r = .ok () ∧
      t = s.settle d step saga (stamped completion readAt) := by
  unfold completeDispatch at h
  split at h
  · obtain ⟨rfl, rfl⟩ := Prod.mk.inj h
    exact .inl ⟨rfl, _, rfl⟩
  dsimp only at h
  split at h
  · obtain ⟨rfl, rfl⟩ := Prod.mk.inj h
    exact .inl ⟨rfl, _, rfl⟩
  · obtain ⟨rfl, rfl⟩ := Prod.mk.inj h
    exact .inl ⟨rfl, _, rfl⟩
  rename_i d hvalid hd
  split at h
  · obtain ⟨rfl, rfl⟩ := Prod.mk.inj h
    exact .inl ⟨rfl, _, rfl⟩
  rename_i hlease
  split at h
  · rename_i saga step hsaga hstep
    obtain ⟨rfl, rfl⟩ := Prod.mk.inj h
    exact .inr ⟨d, step, saga, hd, by simpa using hlease, hsaga, hstep, hvalid, rfl, rfl⟩
  · obtain ⟨rfl, rfl⟩ := Prod.mk.inj h
    exact .inl ⟨rfl, _, rfl⟩

end

/-- The time a claim uses: the caller's, or the clock's when the caller gives none. -/
def claimTime (options : ClaimOptions) (clock : Time) : Time := if options.now = 0 then clock else options.now

theorem claimDispatch_inv {ctx : Option Err} {clock : Time} {token : Except Err Text} {options : ClaimOptions}
    {r : Except Err Dispatch} (h : s.claimDispatch ctx clock token options = (r, t)) :
    (t = s ∧ ∃ err, r = .error err) ∨ ∃ d tok, token = .ok tok ∧
      s.candidate? options (claimTime options clock) = some d ∧
      r = .ok (leased d options (claimTime options clock) tok) ∧
      t = s.claim d options (claimTime options clock) tok := by
  unfold claimDispatch at h
  split at h
  · obtain ⟨rfl, rfl⟩ := Prod.mk.inj h
    exact .inl ⟨rfl, _, rfl⟩
  split at h
  · obtain ⟨rfl, rfl⟩ := Prod.mk.inj h
    exact .inl ⟨rfl, _, rfl⟩
  dsimp only at h
  split at h
  · obtain ⟨rfl, rfl⟩ := Prod.mk.inj h
    exact .inl ⟨rfl, _, rfl⟩
  · obtain ⟨rfl, rfl⟩ := Prod.mk.inj h
    exact .inl ⟨rfl, _, rfl⟩
  · rename_i d tok hd
    obtain ⟨rfl, rfl⟩ := Prod.mk.inj h
    exact .inr ⟨d, tok, rfl, hd, rfl, rfl⟩

theorem currentLeaseAt_iff {d : Dispatch} {attempt : Nat} {token : Text} {now : Time} :
    currentLeaseAt d attempt token now = true ↔
      d.state = .inFlight ∧ d.attempt = attempt ∧ token ≠ [] ∧ d.leaseToken = token ∧ now < d.leaseDeadline := by
  simp [currentLeaseAt, currentLease, and_assoc]

theorem saveFencingGrants_inv {ctx : Option Err} {checkedAt updatedAt : Time} {dispatchID : Text} {attempt : Nat}
    {leaseToken : Text} {grants : List FencingGrant} {r : Except Err Unit}
    (h : s.saveFencingGrants ctx checkedAt updatedAt dispatchID attempt leaseToken grants = (r, t)) :
    (t = s ∧ ∃ err, r = .error err) ∨ ∃ d, s.dispatch? dispatchID = some d ∧
      currentLeaseAt d attempt leaseToken checkedAt = true ∧ r = .ok () ∧ t = s.grant d grants updatedAt := by
  unfold saveFencingGrants at h
  split at h
  · obtain ⟨rfl, rfl⟩ := Prod.mk.inj h
    exact .inl ⟨rfl, _, rfl⟩
  · obtain ⟨rfl, rfl⟩ := Prod.mk.inj h
    exact .inl ⟨rfl, _, rfl⟩
  · obtain ⟨rfl, rfl⟩ := Prod.mk.inj h
    exact .inl ⟨rfl, _, rfl⟩
  rename_i d _ hd
  split at h
  · obtain ⟨rfl, rfl⟩ := Prod.mk.inj h
    exact .inl ⟨rfl, _, rfl⟩
  rename_i hlease
  split at h
  · obtain ⟨rfl, rfl⟩ := Prod.mk.inj h
    exact .inl ⟨rfl, _, rfl⟩
  split at h
  · obtain ⟨rfl, rfl⟩ := Prod.mk.inj h
    exact .inl ⟨rfl, _, rfl⟩
  split at h
  · obtain ⟨rfl, rfl⟩ := Prod.mk.inj h
    exact .inl ⟨rfl, _, rfl⟩
  · obtain ⟨rfl, rfl⟩ := Prod.mk.inj h
    exact .inr ⟨d, hd, by simpa using hlease, rfl, rfl⟩

theorem completeSaga_inv {ctx : Option Err} {now : Time} {sagaID : Text} {r : Except Err Unit}
    (h : s.completeSaga ctx now sagaID = (r, t)) :
    t = s ∨ ∃ saga, s.saga? sagaID = some saga ∧ saga.state = .running ∧
      (∀ d ∈ s.dispatches, d.sagaID = sagaID → d.state = .succeeded) ∧
      t = s.setSaga (moved saga .completed now) := by
  unfold completeSaga at h
  split at h
  · exact .inl (Prod.mk.inj h).2.symm
  · exact .inl (Prod.mk.inj h).2.symm
  rename_i saga hsaga
  split at h
  · exact .inl (Prod.mk.inj h).2.symm
  split at h
  · exact .inl (Prod.mk.inj h).2.symm
  rename_i hrun
  split at h
  · exact .inl (Prod.mk.inj h).2.symm
  · rename_i hall
    refine .inr ⟨saga, hsaga, by simpa using hrun, fun d hd hid => ?_, (Prod.mk.inj h).2.symm⟩
    have := List.find?_eq_none.1 hall d hd
    simpa [hid] using this

theorem finalizeStoppedExecution_inv {ctx : Option Err} {now : Time} {executionID : Text} {r : Except Err Unit}
    (h : s.finalizeStoppedExecution ctx now executionID = (r, t)) :
    (t = s ∧ ∃ err, r = .error err) ∨
      (∀ saga ∈ s.sagasOf executionID, s.hasActiveLease saga.sagaID now = false) ∧ r = .ok () ∧
      t = (s.sagasOf executionID).foldl (stopSaga now) s := by
  unfold finalizeStoppedExecution at h
  split at h
  · obtain ⟨rfl, rfl⟩ := Prod.mk.inj h
    exact .inl ⟨rfl, _, rfl⟩
  split at h
  · obtain ⟨rfl, rfl⟩ := Prod.mk.inj h
    exact .inl ⟨rfl, _, rfl⟩
  split at h
  · obtain ⟨rfl, rfl⟩ := Prod.mk.inj h
    exact .inl ⟨rfl, _, rfl⟩
  · rename_i hidle
    obtain ⟨rfl, rfl⟩ := Prod.mk.inj h
    exact .inr ⟨fun saga hm => by simpa using List.find?_eq_none.1 hidle saga hm, rfl, rfl⟩

theorem blockSagaCompensation_inv {ctx : Option Err} {now : Time} {sagaID : Text} {r : Except Err Unit}
    (h : s.blockSagaCompensation ctx now sagaID = (r, t)) :
    t = s ∨ ∃ saga, s.saga? sagaID = some saga ∧ saga.state = .compensating ∧
      t = { s with dispatches := s.blockInverses sagaID now }.setSaga
        (moved saga (if s.hasUncertainInverse sagaID then .blockedUnknown else .blockedCompensation) now) := by
  unfold blockSagaCompensation at h
  split at h
  · exact .inl (Prod.mk.inj h).2.symm
  · exact .inl (Prod.mk.inj h).2.symm
  rename_i saga hsaga
  split at h
  · exact .inl (Prod.mk.inj h).2.symm
  split at h
  · exact .inl (Prod.mk.inj h).2.symm
  rename_i hcomp
  split at h
  · exact .inl (Prod.mk.inj h).2.symm
  · exact .inr ⟨saga, hsaga, by simpa using hcomp, (Prod.mk.inj h).2.symm⟩

theorem finalizeFailFastSaga_inv {ctx : Option Err} {now : Time} {sagaID : Text} {r : Except Err Unit}
    (h : s.finalizeFailFastSaga ctx now sagaID = (r, t)) :
    t = s ∨ ∃ saga, s.saga? sagaID = some saga ∧ saga.state = .blockedCompensation ∧
      s.hasInverseOrInFlight sagaID = false ∧ t = s.setSaga (moved saga .failed now) := by
  unfold finalizeFailFastSaga at h
  split at h
  · exact .inl (Prod.mk.inj h).2.symm
  · exact .inl (Prod.mk.inj h).2.symm
  rename_i saga hsaga
  split at h
  · exact .inl (Prod.mk.inj h).2.symm
  split at h
  · exact .inl (Prod.mk.inj h).2.symm
  rename_i hblocked
  split at h
  · exact .inl (Prod.mk.inj h).2.symm
  · rename_i hnone
    exact .inr ⟨saga, hsaga, by simpa using hblocked, by simpa using hnone, (Prod.mk.inj h).2.symm⟩

end Store
end Effectus

import Effectus.Theorems.Outbox.Outcomes
import Effectus.Theorems.Outbox.History

/-! The records of attempts, call by call: a claim adds one, a grant or a completion rewrites the last, and
    nothing else touches them. -/

namespace Effectus
namespace Store

variable {s t : Store}

/-! ### Claims -/

section

variable [Platform]

/-- The lease a call gave out. -/
def claimed? (s : Store) (op : Op) : Option Dispatch :=
  match op, (s.apply op).1 with
  | .claimDispatch .., .dispatch (.ok d) => some d
  | _, _ => none

/-- The leases given out by a list of calls, in order. -/
def claims (s : Store) : List Op → List Dispatch
  | [] => []
  | op :: ops => (s.claimed? op).toList ++ (s.after op).claims ops

theorem claims_append (s : Store) : ∀ ops more : List Op,
    s.claims (ops ++ more) = s.claims ops ++ (s.run ops).claims more
  | [], _ => rfl
  | op :: ops, more => by
    rw [List.cons_append, claims, claims, claims_append, run_cons, List.append_assoc]

/-- What a call can do to the records of one dispatch. -/
inductive Records (s : Store) (op : Op) (id : Text) (as : List DispatchAttempt) : List DispatchAttempt → Prop
  | same (hclaim : ∀ d, s.claimed? op = some d → d.id ≠ id) : Records s op id as as
  | started {d : Dispatch} {now : Time} (hclaim : s.claimed? op = some d) (hid : d.id = id) :
      Records s op id as (as ++ [newAttempt d now])
  | granted {grants : List FencingGrant} (hclaim : s.claimed? op = none) :
      Records s op id as (modifyLast (fun a => { a with fencingGrants := grants }) as)
  | completed {ctx : Option Err} {readAt checkedAt : Time} {completion : Completion}
      (hop : op = .completeDispatch ctx readAt checkedAt completion) :
      Records s op id as (modifyLast (completedAttempt (stamped completion readAt)) as)

end

/-! ### Call by call -/

theorem mem_modifyLast {α : Type} {f : α → α} {xs : List α} {x : α} (h : x ∈ modifyLast f xs) :
    x ∈ xs ∨ ∃ y ∈ xs, x = f y := by
  rcases List.mem_append.1 h with h | h
  · exact .inl (List.dropLast_subset _ h)
  · obtain ⟨y, hy, rfl⟩ := Option.map_eq_some_iff.1 (Option.mem_toList.1 h)
    exact .inr ⟨y, List.mem_of_getLast? hy, rfl⟩

theorem stop_attempts {now : Time} : ∀ (xs : List SagaInstance) (s : Store),
    (xs.foldl (stopSaga now) s).attempts = s.attempts
  | [], _ => rfl
  | x :: xs, _ => (stop_attempts xs _).trans (stopSaga_attempts now x)

section

variable [Platform]

theorem enqueueCompensation_attempts (s : Store) (saga : SagaInstance) (step : SagaStep) (now : Time) :
    (s.enqueueCompensation saga step now).attempts = s.attempts := by
  rcases enqueueCompensation_cases s saga step now with ⟨-, h⟩ | ⟨-, h⟩ <;> rw [h]

theorem settle_attempts (s : Store) (d : Dispatch) (step : SagaStep) (saga : SagaInstance) (c : Completion) :
    (s.settle d step saga c).attempts =
      Function.update s.attempts d.id (modifyLast (completedAttempt c) (s.attempts d.id)) := by
  rw [settle_eq]
  split
  · unfold startCompensation
    split
    · rfl
    · exact enqueueCompensation_attempts ..
  split
  · unfold enqueueNextCompensation
    split
    · rfl
    · exact enqueueCompensation_attempts ..
  · rfl

/-- A change of one dispatch's records leaves the others' alone. -/
theorem records_update {op : Op} {as : List DispatchAttempt} {i : Text} (h : Records s op i (s.attempts i) as)
    (hother : ∀ d, s.claimed? op = some d → d.id = i) (id : Text) :
    Records s op id (s.attempts id) (Function.update s.attempts i as id) := by
  by_cases hid : id = i
  · rw [hid, Function.update_self]
    exact h
  · rw [Function.update_of_ne hid]
    exact .same fun d hd he => hid (he.symm.trans (hother d hd))

theorem after_records (s : Store) (op : Op) (id : Text) :
    Records s op id (s.attempts id) ((s.after op).attempts id) := by
  have same : ∀ {t u : Store}, t = u → u.attempts = s.attempts → s.claimed? op = none →
      Records s op id (s.attempts id) (t.attempts id) := fun h hu hno => by
    rw [h, hu]
    exact .same fun d hd => by simp [hno] at hd
  cases op with
  | createSaga ctx now request =>
    rcases createSaga_inv (Prod.mk.eta (p := s.createSaga ctx now request)).symm with h | ⟨saga, -, -, -, -, h⟩
    · exact same h rfl rfl
    · exact same h rfl rfl
  | enqueueStep ctx now request =>
    rcases enqueueStep_inv (Prod.mk.eta (p := s.enqueueStep ctx now request)).symm with
      h | ⟨saga, n, -, -, -, -, -, -, h⟩
    · exact same h rfl rfl
    · exact same h rfl rfl
  | claimDispatch ctx clock token options =>
    rcases claimDispatch_inv (Prod.mk.eta (p := s.claimDispatch ctx clock token options)).symm with
      ⟨h, err, herr⟩ | ⟨d, tok, -, -, hd, h⟩
    · exact same h rfl (by simp [claimed?, apply, herr])
    · have hclaim : s.claimed? (.claimDispatch ctx clock token options) =
          some (leased d options (claimTime options clock) tok) := by simp [claimed?, apply, hd]
      rw [after, apply, Prod.map_snd, id_eq, h]
      refine records_update (.started hclaim rfl) (fun x hx => ?_) id
      rw [hclaim] at hx
      cases hx
      rfl
  | saveFencingGrants ctx checkedAt updatedAt dispatchID attempt leaseToken grants =>
    rcases saveFencingGrants_inv (Prod.mk.eta
      (p := s.saveFencingGrants ctx checkedAt updatedAt dispatchID attempt leaseToken grants)).symm with
      ⟨h, -⟩ | ⟨d, -, -, -, h⟩
    · exact same h rfl rfl
    · rw [after, apply, Prod.map_snd, id_eq, h]
      exact records_update (.granted rfl) (fun x hx => by cases hx) id
  | completeDispatch ctx readAt checkedAt completion =>
    rcases completeDispatch_inv (Prod.mk.eta (p := s.completeDispatch ctx readAt checkedAt completion)).symm with
      ⟨h, -⟩ | ⟨d, step, saga, -, -, -, -, -, -, h⟩
    · exact same h rfl rfl
    · rw [after, apply, Prod.map_snd, id_eq, h, settle_attempts]
      exact records_update (.completed rfl) (fun x hx => by cases hx) id
  | completeSaga ctx now sagaID =>
    rcases completeSaga_inv (Prod.mk.eta (p := s.completeSaga ctx now sagaID)).symm with h | ⟨saga, -, -, -, h⟩
    · exact same h rfl rfl
    · exact same h rfl rfl
  | finalizeStoppedExecution ctx now executionID =>
    rcases finalizeStoppedExecution_inv
      (Prod.mk.eta (p := s.finalizeStoppedExecution ctx now executionID)).symm with ⟨h, -⟩ | ⟨-, -, h⟩
    · exact same h rfl rfl
    · exact same h (stop_attempts _ s) rfl
  | blockSagaCompensation ctx now sagaID =>
    rcases blockSagaCompensation_inv (Prod.mk.eta (p := s.blockSagaCompensation ctx now sagaID)).symm with
      h | ⟨saga, -, -, h⟩
    · exact same h rfl rfl
    · exact same h rfl rfl
  | finalizeFailFastSaga ctx now sagaID =>
    rcases finalizeFailFastSaga_inv (Prod.mk.eta (p := s.finalizeFailFastSaga ctx now sagaID)).symm with
      h | ⟨saga, -, -, -, h⟩
    · exact same h rfl rfl
    · exact same h rfl rfl

end

end Store
end Effectus

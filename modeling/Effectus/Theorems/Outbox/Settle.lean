import Effectus.Theorems.Outbox.Shape
import Mathlib.Data.List.Induction

/-! Completion in two parts: the outcome is recorded on the dispatch, its step, its saga and its last
    attempt, and then the saga may move on to its next inverse. -/

namespace Effectus
namespace Store

variable {s t : Store}

/-! ### The compensation candidate -/

/-- A step that succeeded, was not undone and can be. -/
def Owed (step : SagaStep) : Prop := step.state = .succeeded ∧ step.compensationVerb ≠ []

instance : DecidablePred Owed := fun _ => inferInstanceAs (Decidable (_ ∧ _))

/-- What the loop has found after the steps `xs`. -/
def Candidate (xs : List SagaStep) : Option SagaStep → Prop
  | none => ∀ x ∈ xs, ¬Owed x
  | some c => c ∈ xs ∧ Owed c ∧ ∀ x ∈ xs, Owed x → x.sequence ≤ c.sequence

theorem compensationCandidate?_spec (sagaID : Text) :
    Candidate (s.stepsOf sagaID) (s.compensationCandidate? sagaID) := by
  unfold compensationCandidate?
  -- Induction on the steps seen so far: the last one either replaces the candidate or is not better.
  induction s.stepsOf sagaID using List.reverseRecOn with
  | nil => simp [Candidate]
  | append_singleton xs x ih =>
    rw [List.foldl_append, List.foldl_cons, List.foldl_nil]
    generalize xs.foldl _ none = found at ih ⊢
    split
    · rename_i hx
      have hno : ¬Owed x := fun ho => hx.elim (fun h => h ho.1) ho.2
      cases found with
      | none => simpa [Candidate, or_imp, forall_and, hno] using ih
      | some c =>
        obtain ⟨hm, ho, hle⟩ := ih
        refine ⟨List.mem_append_left _ hm, ho, fun y hy hy' => ?_⟩
        rcases List.mem_append.1 hy with hy | hy
        · exact hle y hy hy'
        · exact absurd (List.mem_singleton.1 hy ▸ hy') hno
    · rename_i hx
      have hox : Owed x := by simpa [Owed, not_or] using hx
      have hmx : x ∈ xs ++ [x] := List.mem_append_right _ (List.mem_singleton.2 rfl)
      cases found with
      | none =>
        refine ⟨hmx, hox, fun y hy hy' => ?_⟩
        rcases List.mem_append.1 hy with hy | hy
        · exact absurd hy' (ih y hy)
        · rw [List.mem_singleton.1 hy]
      | some c =>
        obtain ⟨hm, ho, hle⟩ := ih
        dsimp only
        split
        · refine ⟨hmx, hox, fun y hy hy' => ?_⟩
          rcases List.mem_append.1 hy with hy | hy
          · have := hle y hy hy'
            omega
          · rw [List.mem_singleton.1 hy]
        · refine ⟨List.mem_append_left _ hm, ho, fun y hy hy' => ?_⟩
          rcases List.mem_append.1 hy with hy | hy
          · exact hle y hy hy'
          · rw [List.mem_singleton.1 hy]
            omega

theorem not_owed_of_candidate_none {sagaID : Text} (h : s.compensationCandidate? sagaID = none) :
    ∀ x ∈ s.stepsOf sagaID, ¬Owed x := by
  have := s.compensationCandidate?_spec sagaID
  rwa [h] at this

theorem candidate_spec {sagaID : Text} {c : SagaStep} (h : s.compensationCandidate? sagaID = some c) :
    c ∈ s.stepsOf sagaID ∧ Owed c ∧ ∀ x ∈ s.stepsOf sagaID, Owed x → x.sequence ≤ c.sequence := by
  have := s.compensationCandidate?_spec sagaID
  rwa [h] at this

theorem mem_stepsOf {sagaID : Text} {x : SagaStep} : x ∈ s.stepsOf sagaID ↔ x ∈ s.steps ∧ x.sagaID = sagaID := by
  simp [stepsOf]

theorem hasSucceededStep_iff {sagaID : Text} :
    s.hasSucceededStep sagaID = true ↔ ∃ x ∈ s.stepsOf sagaID, x.state = .succeeded := by
  simp [hasSucceededStep]

/-! ### Recording the outcome -/

section

variable {d : Dispatch} {step : SagaStep} {saga : SagaInstance} {c : Completion}

/-- The states a completion gives the dispatch, its step and its saga. -/
def outcomeStates (s : Store) (d : Dispatch) (step : SagaStep) (saga : SagaInstance) (c : Completion) :
    DispatchState × StepState × SagaState :=
  completionStates d step saga c (s.isPriorUnresolved d c)

/-- The saga as the outcome leaves it. -/
def recordedSaga (s : Store) (d : Dispatch) (step : SagaStep) (saga : SagaInstance) (c : Completion) : SagaInstance :=
  moved saga (s.outcomeStates d step saga c).2.2 c.now

theorem sameCores_record (hk : Keys s) (hd : d ∈ s.dispatches) (hstep : step ∈ s.steps) (hsaga : saga ∈ s.sagas) :
    SameCores s (s.recordCompletion d step saga c) := by
  have h₁ := sameCores_setDispatch hk hd (y := completedDispatch d c (s.outcomeStates d step saga c).1) rfl
  have h₂ := h₁.trans (sameCores_setStep (hk.of_sameCores h₁) hstep
    (y := completedStep step d c (s.outcomeStates d step saga c).2.1 (s.outcomeStates d step saga c).1) rfl)
  have h₃ := h₂.trans (sameCores_setSaga (hk.of_sameCores h₂) hsaga
    (y := s.recordedSaga d step saga c) rfl)
  exact h₃.trans (sameCores_setAttempts _ _)

theorem recordedSaga_mem (hsaga : saga ∈ s.sagas) (d : Dispatch) (step : SagaStep) (c : Completion) :
    s.recordedSaga d step saga c ∈ (s.recordCompletion d step saga c).sagas :=
  Keyed.mem_modify.2 (.inl ⟨saga, hsaga, rfl, rfl⟩)

end

/-! ### Claims and grants -/

section

variable {d : Dispatch} {now : Time} {options : ClaimOptions}

theorem mem_of_candidate? (h : s.candidate? options now = some d) :
    d ∈ s.dispatches ∧ s.isEligible options now d = true ∧ s.mustWait now d = false := by
  have hm := List.mem_of_find?_eq_some h
  have hw := List.find?_some h
  rw [List.mem_insertionSort, List.mem_filter] at hm
  exact ⟨hm.1, hm.2, by simpa using hw⟩

theorem sameCores_claim (hk : Keys s) (hd : d ∈ s.dispatches) {token : Text} :
    SameCores s (s.claim d options now token) :=
  (sameCores_setDispatch hk hd (y := leased d options now token) rfl).trans (sameCores_setAttempts _ _)

theorem sameCores_grant (hk : Keys s) (hd : d ∈ s.dispatches) {grants : List FencingGrant} :
    SameCores s (s.grant d grants now) :=
  (sameCores_setDispatch hk hd
    (y := { d with fencingGrants := grants, revision := d.revision + 1, updatedAt := now }) rfl).trans
    (sameCores_setAttempts _ _)

end

/-! ### Moving on -/

section

variable [Platform] {d : Dispatch} {step : SagaStep} {saga : SagaInstance} {c : Completion} {now : Time}

theorem enqueueCompensation_cases (s : Store) (saga : SagaInstance) (step : SagaStep) (now : Time) :
    ((s.dispatch? (compensationDispatch saga step now).id).isSome ∧ s.enqueueCompensation saga step now = s) ∨
      s.dispatch? (compensationDispatch saga step now).id = none ∧
        s.enqueueCompensation saga step now =
          { s with dispatches := s.dispatches ++ [compensationDispatch saga step now] } := by
  unfold enqueueCompensation
  dsimp only
  cases h : s.dispatch? (compensationDispatch saga step now).id with
  | some _ => exact .inl ⟨rfl, rfl⟩
  | none => exact .inr ⟨rfl, rfl⟩

theorem Shape.enqueueCompensation (hs : Shape s) (now : Time) {x : SagaInstance} (hx : x ∈ s.sagas) (he : saga.core = x.core)
    (hc : s.compensationCandidate? saga.sagaID = some step) : Shape (s.enqueueCompensation saga step now) := by
  rcases enqueueCompensation_cases s saga step now with ⟨-, h⟩ | ⟨hfresh, h⟩
  · rw [h]
    exact hs
  · rw [h]
    have hm := mem_stepsOf.1 (candidate_spec hc).1
    have hfor : compensationDispatch saga step now = compensationDispatch x step now :=
      dispatchFor_congr (x := saga) (y := x) he rfl .compensation now
    rw [hfor] at hfresh ⊢
    exact hs.addInverse hx hm.1 (hm.2.trans (SagaInstance.core_eq.1 he).2.1) hfresh

theorem Shape.startCompensation (hs : Shape s) (hsaga : saga ∈ s.sagas) : Shape (s.startCompensation saga now) := by
  unfold Store.startCompensation
  split
  · exact hs.of_sameCores (sameCores_moved hs.toKeys hsaga _ _)
  · rename_i cand hc
    have hset := hs.of_sameCores (sameCores_moved hs.toKeys hsaga .compensating now)
    exact hset.enqueueCompensation _ (Keyed.mem_modify.2 (.inl ⟨saga, hsaga, rfl, rfl⟩)) rfl hc

theorem Shape.enqueueNextCompensation (hs : Shape s) (hsaga : saga ∈ s.sagas) :
    Shape (s.enqueueNextCompensation saga now) := by
  unfold Store.enqueueNextCompensation
  split
  · exact hs.of_sameCores (sameCores_moved hs.toKeys hsaga _ _)
  · rename_i cand hc
    exact hs.enqueueCompensation _ hsaga rfl hc

theorem Shape.settle (hs : Shape s) (hd : d ∈ s.dispatches) (hstep : step ∈ s.steps) (hsaga : saga ∈ s.sagas) :
    Shape (s.settle d step saga c) := by
  have hrec := hs.of_sameCores (sameCores_record (c := c) hs.toKeys hd hstep hsaga)
  have hm := recordedSaga_mem hsaga d step c
  unfold Store.settle
  dsimp only
  split
  · exact hrec.startCompensation hm
  split
  · exact hrec.enqueueNextCompensation hm
  · exact hrec

/-! ### Every transition keeps the shape -/

theorem Trans.shape (hs : Shape s) (h : Trans s t) : Shape t := by
  cases h with
  | created fresh running serial => exact hs.addSaga fresh serial
  | enqueued normalized found fresh running dense => exact hs.addStep found fresh dense
  | claimed found => exact hs.of_sameCores (sameCores_claim hs.toKeys (mem_of_candidate? found).1)
  | granted found inFlight => exact hs.of_sameCores (sameCores_grant hs.toKeys (mem_of_dispatch? found))
  | settled found inFlight hsaga hstep valid =>
    exact hs.settle (mem_of_dispatch? found) (mem_of_step? hstep) (mem_of_saga? hsaga)
  | closed found running all => exact hs.of_sameCores (sameCores_moved hs.toKeys (mem_of_saga? found) _ _)
  | stopped found idle => exact hs.of_sameCores (sameCores_stopSaga hs.toKeys (mem_of_saga? found) _)
  | @blocked saga now state found compensating hstate =>
    have hb := sameCores_blockInverses (s := s) saga.sagaID now
    exact hs.of_sameCores (hb.trans (sameCores_moved (hs.toKeys.of_sameCores hb) (mem_of_saga? found) _ _))
  | failedFast found blocked none => exact hs.of_sameCores (sameCores_moved hs.toKeys (mem_of_saga? found) _ _)

/-! ### Every transition keeps the records there are -/

theorem grows_enqueueCompensation (s : Store) (saga : SagaInstance) (step : SagaStep) (now : Time) :
    Grows s (s.enqueueCompensation saga step now) := by
  rcases enqueueCompensation_cases s saga step now with ⟨-, h⟩ | ⟨-, h⟩
  · rw [h]
    exact .refl s
  · rw [h]
    exact .of_append rfl (List.append_nil _).symm rfl

theorem grows_settle (hk : Keys s) (hd : d ∈ s.dispatches) (hstep : step ∈ s.steps) (hsaga : saga ∈ s.sagas) :
    Grows s (s.settle d step saga c) := by
  have hrec := sameCores_record (c := c) hk hd hstep hsaga
  have hk' := hk.of_sameCores hrec
  have hm := recordedSaga_mem hsaga d step c
  refine hrec.grows.trans ?_
  unfold settle
  dsimp only
  split
  · unfold startCompensation
    split
    · exact (sameCores_moved hk' hm _ _).grows
    · exact (sameCores_moved hk' hm _ _).grows.trans (grows_enqueueCompensation ..)
  split
  · unfold enqueueNextCompensation
    split
    · exact (sameCores_moved hk' hm _ _).grows
    · exact grows_enqueueCompensation ..
  · exact .refl _

theorem Trans.grows (hk : Keys s) (h : Trans s t) : Grows s t := by
  cases h with
  | created => exact ⟨by simp, List.prefix_rfl, List.prefix_rfl⟩
  | enqueued normalized found =>
    refine .of_append (Keyed.map_modify fun z hz hzk => ?_) rfl rfl
    rw [hk.sagas.eq_of_key hz (mem_of_saga? found) hzk]
    rfl
  | claimed found => exact (sameCores_claim hk (mem_of_candidate? found).1).grows
  | granted found inFlight => exact (sameCores_grant hk (mem_of_dispatch? found)).grows
  | settled found inFlight hsaga hstep valid =>
    exact grows_settle hk (mem_of_dispatch? found) (mem_of_step? hstep) (mem_of_saga? hsaga)
  | closed found | failedFast found => exact (sameCores_moved hk (mem_of_saga? found) _ _).grows
  | stopped found idle => exact (sameCores_stopSaga hk (mem_of_saga? found) _).grows
  | @blocked saga now state found compensating hstate =>
    have hb := sameCores_blockInverses (s := s) saga.sagaID now
    exact (hb.trans (sameCores_moved (hk.of_sameCores hb) (mem_of_saga? found) _ _)).grows

end

end Store
end Effectus

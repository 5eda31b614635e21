import Effectus.Theorems.Outbox.Runs

/-! What a transition can do to one dispatch and the records of its attempts. -/

namespace Effectus
namespace Store

variable {s t u : Store}

/-- No attempt leaves it open whether the effect was committed, as far as a waiting retry shows. -/
def CertainRetry (d : Dispatch) (as : List DispatchAttempt) : Prop :=
  d.lastOutcome ≠ .unknown ∧ ∀ a ∈ as, a.outcome ≠ .unknown ∧ a.completedAt ≠ 0

/-- How an outcome may settle a dispatch. A state that ends it for good needs every earlier attempt to
    be known not to have committed. -/
structure Settles (as : List DispatchAttempt) (attempt : Nat) (c : Completion) (state : DispatchState) : Prop where
  ended : state ≠ .queued ∧ state ≠ .inFlight ∧ state ≠ .canceled
  retry : state = .retryWait → c.outcome = .retryableKnownNotCommitted ∨ c.outcome = .unknown
  failed : state = .failedPermanent → (c.outcome = .permanentFailure ∨ c.outcome = .retryableKnownNotCommitted) ∧
    priorAttemptsKnownNotCommitted as attempt = true
  fenced : state = .blockedFence → c.outcome = .staleFence ∧ priorAttemptsKnownNotCommitted as attempt = true
  succeeded : state = .succeeded → c.outcome = .success
  recorded : c.outcome ≠ .unset

/-- One change of a dispatch and its records. -/
inductive Move (d : Dispatch) (as : List DispatchAttempt) : Dispatch → List DispatchAttempt → Prop
  | same : Move d as d as
  | claim {options : ClaimOptions} {now : Time} {token : Text}
      (waiting : d.state = .queued ∨ d.state = .retryWait ∨ d.state = .inFlight) :
      Move d as (leased d options now token) (as ++ [newAttempt (leased d options now token) now])
  | grant {grants : List FencingGrant} {now : Time} (inFlight : d.state = .inFlight) :
      Move d as { d with fencingGrants := grants, revision := d.revision + 1, updatedAt := now }
        (modifyLast (fun a => { a with fencingGrants := grants }) as)
  | complete {c : Completion} {state : DispatchState} (inFlight : d.state = .inFlight)
      (settles : Settles as d.attempt c state) :
      Move d as (completedDispatch d c state) (modifyLast (completedAttempt c) as)
  | cancel {now : Time} {reason : Text} (idle : d.state = .queued ∨ d.state = .retryWait ∧ CertainRetry d as) :
      Move d as (cancelDispatch now reason d) as
  | expire {now : Time} (inFlight : d.state = .inFlight) : Move d as (blockExpiredDispatch now d) as
  | blockRetry {now : Time} (retry : d.state = .retryWait) : Move d as (blockUnknownRetryDispatch now d) as

namespace Move

variable {d d' : Dispatch} {as as' : List DispatchAttempt}

theorem core (h : Move d as d' as') : d'.core = d.core := by
  cases h <;> rfl

theorem id (h : Move d as d' as') : d'.id = d.id := (Dispatch.core_eq.1 h.core).1

/-- A success is for good. -/
theorem succeeded (h : Move d as d' as') (hd : d.state = .succeeded) : d'.state = .succeeded := by
  cases h with
  | same => exact hd
  | claim waiting => simp [hd] at waiting
  | grant inFlight | complete inFlight | expire inFlight => simp [hd] at inFlight
  | cancel idle => simp [hd] at idle
  | blockRetry retry => simp [hd] at retry

end Move

/-- A dispatch as it is first stored. -/
def Fresh (d : Dispatch) : Prop := d.state = .queued ∧ d.attempt = 0

/-- Each dispatch moves in its place, and new ones come after. -/
def Moves (s t : Store) : Prop :=
  ∃ (f : Dispatch → Dispatch) (new : List Dispatch), t.dispatches = s.dispatches.map f ++ new ∧
    (∀ d ∈ s.dispatches, Move d (s.attempts d.id) (f d) (t.attempts d.id)) ∧
    (∀ d ∈ new, Fresh d ∧ s.dispatch? d.id = none) ∧
    ∀ id, s.dispatch? id = none → t.attempts id = s.attempts id

namespace Moves

theorem refl (s : Store) : Moves s s :=
  ⟨id, [], by simp, fun _ _ => .same, by simp, fun _ _ => rfl⟩

theorem mem (h : Moves s t) {d : Dispatch} (hd : d ∈ s.dispatches) :
    ∃ d' ∈ t.dispatches, Move d (s.attempts d.id) d' (t.attempts d.id) := by
  obtain ⟨f, new, hds, hmove, -⟩ := h
  refine ⟨f d, ?_, hmove d hd⟩
  rw [hds]
  exact List.mem_append_left _ (List.mem_map.2 ⟨d, hd, rfl⟩)

/-- Only the dispatches and attempts matter. -/
theorem congr (h : Moves s t) (hd : u.dispatches = t.dispatches) (ha : u.attempts = t.attempts) : Moves s u := by
  obtain ⟨f, new, h₁, h₂, h₃, h₄⟩ := h
  exact ⟨f, new, hd.trans h₁, by rw [ha]; exact h₂, h₃, by rw [ha]; exact h₄⟩

/-- One dispatch moves. -/
theorem set (hk : Keys s) {d d' : Dispatch} {as : List DispatchAttempt} (hd : d ∈ s.dispatches)
    (h : Move d (s.attempts d.id) d' as) : Moves s ((s.setDispatch d').setAttempts d.id as) := by
  have hid := h.id
  refine ⟨fun x => if x.id = d'.id then d' else x, [], by simp [setAttempts, setDispatch, Keyed.modify], ?_,
    by simp, ?_⟩
  · intro x hx
    by_cases hxd : x.id = d.id
    · rw [hk.dispatches.eq_of_key hx hd hxd]
      simpa [hid, setAttempts, setDispatch] using h
    · simp only [hid, hxd, if_false, setAttempts, setDispatch, Function.update_of_ne hxd]
      exact .same
  · intro id hnone
    have hne : id ≠ d.id := fun he => Keyed.get?_eq_none.1 hnone d hd he.symm
    simp [setAttempts, setDispatch, Function.update_of_ne hne]

/-- Every dispatch moves by a rewriting that leaves the attempts alone. -/
theorem map {f : Dispatch → Dispatch} (h : ∀ d ∈ s.dispatches, Move d (s.attempts d.id) (f d) (s.attempts d.id)) :
    Moves s { s with dispatches := s.dispatches.map f } :=
  ⟨f, [], by simp, h, by simp, fun _ _ => rfl⟩

/-- A new dispatch comes after. -/
theorem append (h : Moves s t) {d : Dispatch} (hd : u.dispatches = t.dispatches ++ [d])
    (ha : u.attempts = t.attempts) (hf : Fresh d) (hnew : s.dispatch? d.id = none) : Moves s u := by
  obtain ⟨f, new, h₁, h₂, h₃, h₄⟩ := h
  refine ⟨f, new ++ [d], by rw [hd, h₁, List.append_assoc], by rw [ha]; exact h₂, ?_, by rw [ha]; exact h₄⟩
  intro x hx
  rcases List.mem_append.1 hx with hx | hx
  · exact h₃ x hx
  · rw [List.mem_singleton.1 hx]
    exact ⟨hf, hnew⟩

end Moves

/-! ### Claims and finalizers -/

theorem isEligible_inv {options : ClaimOptions} {now : Time} {d : Dispatch} (h : s.isEligible options now d = true) :
    (∃ saga, s.saga? d.sagaID = some saga ∧
      (saga.state = .running ∧ d.direction = .forward ∨ saga.state = .compensating ∧ d.direction = .compensation)) ∧
      (d.state = .queued ∨ d.state = .retryWait ∨ d.state = .inFlight) := by
  unfold isEligible at h
  split at h
  · cases h
  split at h
  · cases h
  rename_i saga hsaga
  split at h
  · cases h
  split at h
  · cases h
  split at h
  · cases h
  rename_i hopen hcomp hrun
  constructor
  · refine ⟨saga, hsaga, ?_⟩
    cases hs : saga.state <;> cases hd : d.direction <;> simp_all [isTerminalSaga]
  · split at h
    · exact .inl ‹_›
    · exact .inr (.inl ‹_›)
    · exact .inr (.inr ‹_›)
    · cases h

theorem isUncertainRetry_iff {d : Dispatch} (h : d.state = .retryWait) :
    s.isUncertainRetry d = false ↔ CertainRetry d (s.attempts d.id) := by
  simp only [isUncertainRetry, h, ne_eq, not_true, if_false, CertainRetry]
  split
  · rename_i hu
    simp [hu]
  · rename_i hu
    simp [hu]

theorem isUncertainRetry_retry {d : Dispatch} (h : s.isUncertainRetry d = true) : d.state = .retryWait := by
  unfold isUncertainRetry at h
  split at h
  · cases h
  · rename_i hn
    simpa using hn

theorem move_closed (now : Time) (d : Dispatch) : Move d (s.attempts d.id) (s.closed now d) (s.attempts d.id) := by
  unfold closed blockUncertain
  split
  · rename_i hin
    simp only [cancelWaiting, blockExpiredDispatch, reduceCtorEq, or_self, if_false]
    exact .expire hin
  split
  · rename_i hun
    simp only [cancelWaiting, blockUnknownRetryDispatch, reduceCtorEq, or_self, if_false]
    exact .blockRetry (isUncertainRetry_retry hun)
  rename_i hcertain
  unfold cancelWaiting
  split
  · rename_i hw
    refine .cancel (hw.imp_right fun hr => ⟨hr, ?_⟩)
    exact (isUncertainRetry_iff hr).1 (by simpa using hcertain)
  · exact .same

theorem move_blockInverse (now : Time) (d : Dispatch) :
    Move d (s.attempts d.id) (s.blockInverse now d) (s.attempts d.id) := by
  unfold blockInverse
  split
  · rename_i hq
    exact .cancel (.inl hq)
  · rename_i hin
    exact .expire hin
  · rename_i hr
    split
    · exact .blockRetry hr
    · rename_i hc
      exact .cancel (.inr ⟨hr, (isUncertainRetry_iff hr).1 (by simpa using hc)⟩)
  · exact .same

/-! ### Completion -/

section

variable [Platform]

theorem outcome_of_valid {c : Completion} (h : validateCompletion c = .ok ()) :
    c.outcome = .success ∨ c.outcome = .retryableKnownNotCommitted ∨ c.outcome = .permanentFailure ∨
      c.outcome = .unknown ∨ c.outcome = .staleFence := by
  unfold validateCompletion at h
  split at h
  · cases h
  split at h
  · exact .inl ‹_›
  · exact .inr (.inl ‹_›)
  · exact .inr (.inr (.inl ‹_›))
  · exact .inr (.inr (.inr (.inl ‹_›)))
  · exact .inr (.inr (.inr (.inr ‹_›)))
  · cases h
  · cases h

theorem settles_outcome {d : Dispatch} {step : SagaStep} {saga : SagaInstance} {c : Completion}
    (h : validateCompletion c = .ok ()) :
    Settles (s.attempts d.id) d.attempt c (s.outcomeStates d step saga c).1 := by
  have hout := outcome_of_valid h
  unfold outcomeStates completionStates
  split
  · -- An earlier attempt is open, so the dispatch is blocked whatever the outcome says.
    exact ⟨by simp, by simp, by simp, by simp, by simp, by rcases hout with h | h | h | h | h <;> simp [h]⟩
  · rename_i hprior
    have hknown : terminalOutcomeMayMaskPriorUnknown c = true →
        priorAttemptsKnownNotCommitted (s.attempts d.id) d.attempt = true := by
      intro hmask
      simpa [isPriorUnresolved, hmask] using hprior
    rcases hout with h | h | h | h | h <;> simp only [h]
    · exact ⟨by simp, by simp, by simp, by simp, by simp [h], by simp [h]⟩
    · split
      · rename_i hex
        have hk := hknown (by simp [terminalOutcomeMayMaskPriorUnknown, h, hex])
        cases d.direction <;> exact ⟨by simp, by simp, fun _ => ⟨.inr h, hk⟩, by simp, by simp, by simp [h]⟩
      · exact ⟨by simp, fun _ => .inl h, by simp, by simp, by simp, by simp [h]⟩
    · have hk := hknown (by simp [terminalOutcomeMayMaskPriorUnknown, h])
      cases d.direction <;> exact ⟨by simp, by simp, fun _ => ⟨.inl h, hk⟩, by simp, by simp, by simp [h]⟩
    · split
      · exact ⟨by simp, by simp, by simp, by simp, by simp, by simp [h]⟩
      · exact ⟨by simp, fun _ => .inr h, by simp, by simp, by simp, by simp [h]⟩
    · have hk := hknown (by simp [terminalOutcomeMayMaskPriorUnknown, h])
      exact ⟨by simp, by simp, by simp, fun _ => ⟨h, hk⟩, by simp, by simp [h]⟩

theorem moves_record (hk : Keys s) {d : Dispatch} {step : SagaStep} {saga : SagaInstance} {c : Completion}
    (hd : d ∈ s.dispatches) (hin : d.state = .inFlight) (h : validateCompletion c = .ok ()) :
    Moves s (s.recordCompletion d step saga c) := by
  have hm : Move d (s.attempts d.id) (completedDispatch d c (s.outcomeStates d step saga c).1) _ :=
    .complete hin (settles_outcome h)
  exact (Moves.set hk hd hm).congr rfl rfl

theorem enqueueCompensation_moves {saga : SagaInstance} {step : SagaStep} {now : Time} (h : Moves s t)
    (hids : ∀ id, t.dispatch? id = none → s.dispatch? id = none) :
    Moves s (t.enqueueCompensation saga step now) := by
  rcases enqueueCompensation_cases t saga step now with ⟨-, he⟩ | ⟨hfresh, he⟩
  · rw [he]
    exact h
  · rw [he]
    exact h.append rfl rfl ⟨rfl, rfl⟩ (hids _ hfresh)

theorem moves_settle (hk : Keys s) {d : Dispatch} {step : SagaStep} {saga : SagaInstance} {c : Completion}
    (hd : d ∈ s.dispatches) (hin : d.state = .inFlight) (hstep : step ∈ s.steps) (hsaga : saga ∈ s.sagas)
    (h : validateCompletion c = .ok ()) : Moves s (s.settle d step saga c) := by
  have hrec : Moves s (s.recordCompletion d step saga c) := moves_record hk hd hin h
  have hids : ∀ id, (s.recordCompletion d step saga c).dispatch? id = none → s.dispatch? id = none := fun id =>
    (sameCores_record hk hd hstep hsaga).dispatch?_none
  unfold settle
  dsimp only
  split
  · unfold startCompensation
    split
    · exact hrec.congr rfl rfl
    · exact enqueueCompensation_moves (t := (s.recordCompletion d step saga c).setSaga _) (hrec.congr rfl rfl) hids
  split
  · unfold enqueueNextCompensation
    split
    · exact hrec.congr rfl rfl
    · exact enqueueCompensation_moves hrec hids
  · exact hrec

theorem Trans.moves (hs : Shape s) (h : Trans s t) : Moves s t := by
  cases h with
  | created fresh running serial => exact (Moves.refl s).congr rfl rfl
  | enqueued normalized found fresh running dense => exact (Moves.refl s).append rfl rfl ⟨rfl, rfl⟩ fresh
  | claimed found =>
    obtain ⟨hd, he, -⟩ := mem_of_candidate? found
    exact Moves.set hs.toKeys hd (.claim (isEligible_inv he).2)
  | granted found inFlight => exact Moves.set hs.toKeys (mem_of_dispatch? found) (.grant inFlight)
  | settled found inFlight hsaga hstep valid =>
    exact moves_settle hs.toKeys (mem_of_dispatch? found) inFlight (mem_of_step? hstep) (mem_of_saga? hsaga) valid
  | closed found running all => exact (Moves.refl s).congr rfl rfl
  | @stopped saga now found idle =>
    have hm := Moves.map (s := s) (f := fun d => if d.sagaID = saga.sagaID then s.closed now d else d) fun d _ => by
      split
      · exact move_closed now d
      · exact .same
    exact hm.congr (by rw [stopSaga_dispatches, closeDispatches_eq]) (stopSaga_attempts now saga)
  | @blocked saga now state found compensating hstate =>
    have hm := Moves.map (s := s)
      (f := fun d => if d.sagaID = saga.sagaID ∧ d.direction = .compensation then s.blockInverse now d else d)
      fun d _ => by
        split
        · exact move_blockInverse now d
        · exact .same
    exact hm.congr rfl rfl
  | failedFast found blocked none => exact (Moves.refl s).congr rfl rfl

end

end Store
end Effectus

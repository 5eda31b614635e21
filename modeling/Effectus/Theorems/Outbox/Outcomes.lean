import Effectus.Theorems.Outbox.Simulation

/-! Completions as steps of the protocol: what an outcome makes of the dispatch, its step and its saga, and
    what the saga does next. With this every transition is simulated. -/

namespace Effectus
namespace Store

open Protocol (Job Effect Saga Advance Next Inv Live)

variable {s t : Store}

section

variable [Platform] {d : Dispatch} {step : SagaStep} {saga : SagaInstance} {c : Completion}

/-! ### What an outcome decides -/

/-- The ways a forward dispatch is settled. -/
inductive ForwardOutcome (s : Store) (d : Dispatch) (step : SagaStep) (saga : SagaInstance) (c : Completion) : Prop
  | succeeded (states : s.outcomeStates d step saga c = (.succeeded, .succeeded, saga.state))
      (settle : s.settle d step saga c = s.recordCompletion d step saga c)
  | retried (states : s.outcomeStates d step saga c = (.retryWait, step.state, saga.state))
      (settle : s.settle d step saga c = s.recordCompletion d step saga c)
  | blocked (states : s.outcomeStates d step saga c = (.blockedUnknown, step.state, .blockedUnknown) ∨
        s.outcomeStates d step saga c = (.blockedFence, step.state, .blockedFence))
      (settle : s.settle d step saga c = s.recordCompletion d step saga c)
  | failed {state : SagaState} (states : s.outcomeStates d step saga c = (.failedPermanent, .failed, state))
      (settle : s.settle d step saga c =
        (s.recordCompletion d step saga c).startCompensation (s.recordedSaga d step saga c) c.now)

/-- The ways an inverse is settled. -/
inductive InverseOutcome (s : Store) (d : Dispatch) (step : SagaStep) (saga : SagaInstance) (c : Completion) : Prop
  | succeeded (states : s.outcomeStates d step saga c = (.succeeded, .compensated, saga.state))
      (settle : s.settle d step saga c =
        (s.recordCompletion d step saga c).enqueueNextCompensation (s.recordedSaga d step saga c) c.now)
  | retried (states : s.outcomeStates d step saga c = (.retryWait, step.state, saga.state))
      (settle : s.settle d step saga c = s.recordCompletion d step saga c)
  | blocked {state : DispatchState} {saga' : SagaState} (states : s.outcomeStates d step saga c = (state, step.state, saga'))
      (target : (state = .failedPermanent ∨ state = .blockedUnknown) ∧ saga' = .blockedCompensation ∨
        state = .blockedFence ∧ saga' = .blockedFence)
      (settle : s.settle d step saga c = s.recordCompletion d step saga c)

/-- An outcome that leaves the saga where it is or starts compensation. -/
theorem settle_eq (s : Store) (d : Dispatch) (step : SagaStep) (saga : SagaInstance) (c : Completion) :
    s.settle d step saga c =
      if startsCompensation d c (s.isPriorUnresolved d c) then
        (s.recordCompletion d step saga c).startCompensation (s.recordedSaga d step saga c) c.now
      else if d.direction = .compensation ∧ c.outcome = .success then
        (s.recordCompletion d step saga c).enqueueNextCompensation (s.recordedSaga d step saga c) c.now
      else s.recordCompletion d step saga c :=
  rfl

theorem forward_outcome (hdir : d.direction = .forward) (valid : validateCompletion c = .ok ()) :
    ForwardOutcome s d step saga c := by
  have hs := settle_eq s d step saga c
  have hdir' : ¬(d.direction = .compensation ∧ c.outcome = .success) := by simp [hdir]
  rw [if_neg hdir'] at hs
  cases hprior : s.isPriorUnresolved d c with
  | true =>
    refine .blocked (.inl ?_) ?_
    · simp [outcomeStates, completionStates, hprior, blockedBy, hdir]
    · simpa [startsCompensation, hprior] using hs
  | false =>
    rcases outcome_of_valid valid with h | h | h | h | h
    · refine .succeeded ?_ ?_
      · simp [outcomeStates, completionStates, hprior, h, hdir]
      · simpa [startsCompensation, h] using hs
    · cases hex : c.exhausted with
      | true =>
        have hstates : s.outcomeStates d step saga c = (.failedPermanent, .failed, .failed) := by
          simp [outcomeStates, completionStates, hprior, h, hdir, hex]
        exact .failed hstates (by simpa [startsCompensation, hprior, h, hdir, hex] using hs)
      | false =>
        refine .retried ?_ ?_
        · simp [outcomeStates, completionStates, hprior, h, hex]
        · simpa [startsCompensation, h, hex] using hs
    · have hstates : s.outcomeStates d step saga c = (.failedPermanent, .failed, saga.state) := by
        simp [outcomeStates, completionStates, hprior, h, hdir]
      exact .failed hstates (by simpa [startsCompensation, hprior, h, hdir] using hs)
    · cases hex : c.exhausted with
      | true =>
        refine .blocked (.inl ?_) ?_
        · simp [outcomeStates, completionStates, hprior, h, hdir, hex, blockedBy]
        · simpa [startsCompensation, h] using hs
      | false =>
        refine .retried ?_ ?_
        · simp [outcomeStates, completionStates, hprior, h, hex]
        · simpa [startsCompensation, h] using hs
    · refine .blocked (.inr ?_) ?_
      · simp [outcomeStates, completionStates, hprior, h]
      · simpa [startsCompensation, h] using hs

theorem inverse_outcome (hdir : d.direction = .compensation) (valid : validateCompletion c = .ok ()) :
    InverseOutcome s d step saga c := by
  have hs := settle_eq s d step saga c
  have hstart : startsCompensation d c (s.isPriorUnresolved d c) = false := by simp [startsCompensation, hdir]
  rw [hstart, if_neg (by simp)] at hs
  have hkeep : c.outcome ≠ .success → s.settle d step saga c = s.recordCompletion d step saga c := fun hne => by
    rwa [if_neg fun h => hne h.2] at hs
  have hblock : ∀ {state saga'}, s.outcomeStates d step saga c = (state, step.state, saga') →
      ((state = .failedPermanent ∨ state = .blockedUnknown) ∧ saga' = .blockedCompensation ∨
        state = .blockedFence ∧ saga' = .blockedFence) → c.outcome ≠ .success → InverseOutcome s d step saga c :=
    fun hstates htarget hne => .blocked hstates htarget (hkeep hne)
  cases hprior : s.isPriorUnresolved d c with
  | true =>
    have hmask : c.outcome ≠ .success := fun h => by
      simp [isPriorUnresolved, terminalOutcomeMayMaskPriorUnknown, h] at hprior
    have hstates : s.outcomeStates d step saga c = (.blockedUnknown, step.state, .blockedCompensation) := by
      simp [outcomeStates, completionStates, hprior, blockedBy, hdir]
    exact hblock hstates (.inl ⟨.inr rfl, rfl⟩) hmask
  | false =>
    rcases outcome_of_valid valid with h | h | h | h | h
    · refine .succeeded ?_ ?_
      · simp [outcomeStates, completionStates, hprior, h, hdir]
      · rwa [if_pos ⟨hdir, h⟩] at hs
    · cases hex : c.exhausted with
      | true =>
        refine hblock ?_ (.inl ⟨.inl rfl, rfl⟩) (by simp [h])
        simp [outcomeStates, completionStates, hprior, h, hdir, hex]
      | false => exact .retried (by simp [outcomeStates, completionStates, hprior, h, hex]) (hkeep (by simp [h]))
    · refine hblock ?_ (.inl ⟨.inl rfl, rfl⟩) (by simp [h])
      simp [outcomeStates, completionStates, hprior, h, hdir]
    · cases hex : c.exhausted with
      | true =>
        refine hblock ?_ (.inl ⟨.inr rfl, rfl⟩) (by simp [h])
        simp [outcomeStates, completionStates, hprior, h, hdir, hex, blockedBy]
      | false => exact .retried (by simp [outcomeStates, completionStates, hprior, h, hex]) (hkeep (by simp [h]))
    · refine hblock ?_ (.inr ⟨rfl, rfl⟩) (by simp [h])
      simp [outcomeStates, completionStates, hprior, h]

/-! ### The recorded store -/

/-- Everything the proofs below know of a completion: what it found, and the store with the outcome on record. -/
structure Recorded (s r : Store) (d : Dispatch) (step : SagaStep) (saga recorded : SagaInstance)
    (states : DispatchState × StepState × SagaState) : Prop where
  shape : Shape r
  puts : Puts s r step d.direction ((jobOf d).withState states.1)
  found : s.saga? step.sagaID = some saga
  found' : r.saga? step.sagaID = some recorded
  state : recorded.state = states.2.2
  others : ∀ x, x ≠ step.sagaID → r.saga? x = s.saga? x
  stepMem : step ∈ s.steps
  steps : ∀ x ∈ r.steps, (x ∈ s.steps ∧ stepKey x ≠ stepKey step) ∨ x.core = step.core ∧ x.state = states.2.1

theorem recorded (hs : Shape s) (found : s.dispatch? d.id = some d) (hsaga : s.saga? d.sagaID = some saga)
    (hstep : s.step? d.sagaID d.effectID = some step) :
    Recorded s (s.recordCompletion d step saga c) d step saga (s.recordedSaga d step saga c)
      (s.outcomeStates d step saga c) := by
  have hd := mem_of_dispatch? found
  have hm := mem_of_step? hstep
  have hk : stepKey step = effectKey d := key_of_step? hstep
  have hid : step.sagaID = d.sagaID := (Prod.mk.inj hk).1
  have hsid := id_of_saga? hsaga
  have hsame := sameCores_record (c := c) hs.toKeys hd hm (mem_of_saga? hsaga)
  have hcore : (completedDispatch d c (s.outcomeStates d step saga c).1).core = d.core := rfl
  refine ⟨hs.of_sameCores hsame, puts_set hs hd hk hcore hsame.steps rfl, hid ▸ hsaga, ?_, rfl, fun x hx => ?_, hm,
    fun x hx => ?_⟩
  · have hfound : s.saga? (s.recordedSaga d step saga c).sagaID = some saga := hsid.symm ▸ hsaga
    have := saga?_setSaga hfound
    rw [hid, ← hsid]
    exact this
  · have hne : x ≠ (s.recordedSaga d step saga c).sagaID := fun he => hx (he.trans (hsid.trans hid.symm))
    exact saga?_setSaga_of_ne (s := s) hne
  · rcases Keyed.mem_modify.1 hx with ⟨y, hy, hyk, rfl⟩ | ⟨hx, hne⟩
    · exact .inr ⟨rfl, rfl⟩
    · exact .inl ⟨hx, hne⟩

namespace Recorded

variable {r : Store} {saga' : SagaInstance} {states : DispatchState × StepState × SagaState}

theorem stepStates (h : Recorded s r d step saga saga' states) (hst : StepStates s)
    (hstate : states.2.1 = ((s.effect step).put d.direction ((jobOf d).withState states.1)).stepState) :
    StepStates r :=
  hst.put h.puts h.stepMem fun x hx => (h.steps x hx).imp_right fun ⟨hcore, hx⟩ => ⟨hcore, hx.trans hstate⟩

/-- The recorded outcome is all there is. -/
theorem simulates {lossy : Prop} (h : Recorded s r d step saga saga' states) (hs : Shape s) (hst : StepStates s)
    (hstate : states.2.1 = ((s.effect step).put d.direction ((jobOf d).withState states.1)).stepState)
    (hstep : ∀ pre post, s.effects step.sagaID = pre ++ s.effect step :: post →
      Protocol.Step lossy ⟨saga.state, s.effects step.sagaID⟩
        ⟨states.2.2, pre ++ (s.effect step).put d.direction ((jobOf d).withState states.1) :: post⟩) :
    Simulates lossy s r := by
  obtain ⟨pre, post, -, -, -, hes, her⟩ := h.puts.effects_split hs h.stepMem
  refine simulates_of (fun x hx => ⟨h.others x hx, h.puts.effects_of_ne hx⟩) h.found h.found' ?_
    (h.stepStates hst hstate)
  rw [her, h.state]
  exact hstep _ _ hes

end Recorded

/-! ### Moving on -/

/-- The saga goes on to its next inverse, or to an end. -/
structure MovesOn (lossy : Prop) (working ended : SagaState) (r t : Store) (id : Text) : Prop where
  advance : ∃ saga', t.saga? id = some saga' ∧ Advance lossy working ended (r.effects id) saga'.state (t.effects id)
  others : ∀ x, x ≠ id → t.saga? x = r.saga? x ∧ t.effects x = r.effects x
  states : StepStates t

section

variable {r : Store}

theorem enqueueCompensation_saga? (r : Store) (saga : SagaInstance) (step : SagaStep) (now : Time) (id : Text) :
    (r.enqueueCompensation saga step now).saga? id = r.saga? id := by
  rcases enqueueCompensation_cases r saga step now with ⟨-, h⟩ | ⟨-, h⟩
  · rw [h]
  · rw [h]
    rfl

theorem movesOn_start (hr : Shape r) (hst : StepStates r) (found : r.saga? saga.sagaID = some saga)
    (hquiet : ∀ e ∈ r.effects saga.sagaID, Protocol.Quiet e) (now : Time) :
    MovesOn (¬Separated (r.startCompensation saga now)) .compensating .failed r (r.startCompensation saga now)
      saga.sagaID := by
  have hset : ∀ state, (r.setSaga (moved saga state now)).saga? saga.sagaID = some (moved saga state now) := fun state =>
    have hfound : r.saga? (moved saga state now).sagaID = some saga := found
    saga?_setSaga hfound
  have hne : ∀ state x, x ≠ saga.sagaID → (r.setSaga (moved saga state now)).saga? x = r.saga? x :=
    fun state x hx => saga?_setSaga_of_ne hx
  unfold startCompensation
  split
  · rename_i hc
    exact ⟨⟨_, hset _, advance_none hst hc⟩, fun x hx => ⟨hne _ x hx, rfl⟩, hst⟩
  · rename_i cand hc
    have hm := mem_of_saga? found
    have hu := hr.of_sameCores (sameCores_moved hr.toKeys hm .compensating now)
    obtain ⟨hadv, hes, hst'⟩ := advance_some hu hst (mem_of_saga? (hset _)) rfl hquiet hc .compensating .failed now
    refine ⟨⟨_, (enqueueCompensation_saga? ..).trans (hset _), hadv⟩, fun x hx => ⟨?_, hes x hx⟩, hst'⟩
    exact (enqueueCompensation_saga? ..).trans (hne _ x hx)

theorem movesOn_next (hr : Shape r) (hst : StepStates r) (found : r.saga? saga.sagaID = some saga)
    (hquiet : ∀ e ∈ r.effects saga.sagaID, Protocol.Quiet e) (now : Time) :
    MovesOn (¬Separated (r.enqueueNextCompensation saga now)) saga.state .compensated r
      (r.enqueueNextCompensation saga now) saga.sagaID := by
  unfold enqueueNextCompensation
  split
  · rename_i hc
    have hfound : ∀ state, r.saga? (moved saga state now).sagaID = some saga := fun _ => found
    exact ⟨⟨_, saga?_setSaga (hfound _), advance_none hst hc⟩, fun x hx => ⟨saga?_setSaga_of_ne hx, rfl⟩, hst⟩
  · rename_i cand hc
    obtain ⟨hadv, hes, hst'⟩ := advance_some hr hst (mem_of_saga? found) rfl hquiet hc saga.state .compensated now
    refine ⟨⟨_, (enqueueCompensation_saga? ..).trans found, hadv⟩, fun x hx => ⟨?_, hes x hx⟩, hst'⟩
    exact enqueueCompensation_saga? ..

end

end

/-! ### Settling -/

section

variable {e : Effect} {j : Job}

theorem put_forward (h : e.forward = j) (state : DispatchState) :
    e.put .forward (j.withState state) = { e with forward := e.forward.withState state } := by
  rw [h]
  rfl

theorem stepState_put_settled (hi : e.inverse = none) (state : DispatchState) :
    (e.put .forward (j.withState state)).stepState =
      if state = .succeeded then .succeeded else if state = .failedPermanent then .failed else .pending := by
  simp [Effect.stepState, Effect.put, Job.withState, hi]

theorem stepState_put_undone (hd : e.Done) (state : DispatchState) :
    (e.put .compensation (j.withState state)).stepState =
      if state = .succeeded then .compensated else .succeeded := by
  simp only [Effect.Done] at hd
  simp [Effect.stepState, Effect.put, Job.withState, hd]

end

section

variable {d : Dispatch} {step : SagaStep} {saga : SagaInstance}

/-- What the invariant says where a forward dispatch is in flight. -/
theorem forward_inFlight (hst : StepStates s) (hinv : ∀ id p, s.view id = some p → Inv p)
    (hof : s.dispatchOf? step .forward = some d) (inFlight : d.state = .inFlight) (hm : step ∈ s.steps)
    (found : s.saga? step.sagaID = some saga) :
    (s.effect step).forward = jobOf d ∧ (s.effect step).inverse = none ∧ step.state = .pending := by
  have hforward : (s.effect step).forward = jobOf d := by simp [effect, hof]
  have hin : (s.effect step).forward.state = .inFlight := by rw [hforward]; exact inFlight
  have heach := (hinv _ _ (view_eq found)).each _ (mem_effects.2 ⟨step, hm, rfl, rfl⟩)
  have hnone := (heach.running (heach.inFlight hin)).1
  exact ⟨hforward, hnone, by rw [hst step hm, Effect.stepState, hnone, hin]; rfl⟩

/-- What it says where an inverse is in flight. -/
theorem inverse_inFlight (hst : StepStates s) (hinv : ∀ id p, s.view id = some p → Inv p)
    (hof : s.dispatchOf? step .compensation = some d) (inFlight : d.state = .inFlight) (hm : step ∈ s.steps)
    (found : s.saga? step.sagaID = some saga) :
    (s.effect step).inverse = some (jobOf d) ∧ (s.effect step).Done ∧ step.state = .succeeded := by
  have hinverse : (s.effect step).inverse = some (jobOf d) := by simp [effect, hof]
  have heach := (hinv _ _ (view_eq found)).each _ (mem_effects.2 ⟨step, hm, rfl, rfl⟩)
  have hdone := (heach.inverse (by simp [hinverse])).2
  refine ⟨hinverse, hdone, ?_⟩
  rw [hst step hm, stepState_eq_succeeded]
  refine ⟨hdone, ?_⟩
  rintro ⟨j, hj, hsucc⟩
  rw [hinverse] at hj
  cases hj
  simp [jobOf, inFlight] at hsucc

end

section

variable [Platform] {d : Dispatch} {step : SagaStep} {saga : SagaInstance} {c : Completion}

theorem simulates_forward (hs : Shape s) (hst : StepStates s) (hinv : ∀ id p, s.view id = some p → Inv p)
    (found : s.dispatch? d.id = some d) (inFlight : d.state = .inFlight) (hsaga : s.saga? d.sagaID = some saga)
    (hstep : s.step? d.sagaID d.effectID = some step) (valid : validateCompletion c = .ok ())
    (hdir : d.direction = .forward) :
    Simulates (¬Separated (s.settle d step saga c)) s (s.settle d step saga c) := by
  have hrec := recorded (c := c) hs found hsaga hstep
  have hof := hs.dispatchOf?_of_mem (mem_of_dispatch? found) (key_of_step? hstep)
  rw [hdir] at hof
  obtain ⟨hforward, hinverse, hpending⟩ := forward_inFlight hst hinv hof inFlight hrec.stepMem hrec.found
  have hin : (s.effect step).forward.state = .inFlight := by rw [hforward]; exact inFlight
  have hput := put_forward hforward
  have hstate := stepState_put_settled (j := jobOf d) hinverse
  rw [← hdir] at hput hstate
  have hout : ForwardOutcome s d step saga c := forward_outcome hdir valid
  cases hout with
  | succeeded states settle =>
    rw [settle]
    rw [states] at hrec
    refine hrec.simulates hs hst (by rw [hstate]; rfl) fun pre post hes => ?_
    rw [hput]
    exact .settle hes hin (.inl rfl)
  | retried states settle =>
    rw [settle]
    rw [states, hpending] at hrec
    refine hrec.simulates hs hst (by rw [hstate]; rfl) fun pre post hes => ?_
    rw [hput]
    exact .settle hes hin (.inr rfl)
  | blocked states settle =>
    rw [settle]
    rcases states with states | states <;>
    · rw [states, hpending] at hrec
      refine hrec.simulates hs hst (by rw [hstate]; rfl) fun pre post hes => ?_
      rw [hput]
      exact .block hes hin (by simp)
  | failed states settle =>
    rw [states] at hrec
    have hid : (s.recordedSaga d step saga c).sagaID = step.sagaID := id_of_saga? hrec.found'
    obtain ⟨pre, post, -, -, -, hes, her⟩ := hrec.puts.effects_split hs hrec.stepMem
    have hview := hinv _ _ (view_eq hrec.found)
    rw [hes] at hview
    have hquiet := hview.quiet_failed hin
    rw [← hput, ← her, ← hid] at hquiet
    obtain ⟨⟨saga', found', hadvance⟩, hothers, hst'⟩ :=
      movesOn_start hrec.shape (hrec.stepStates hst (by rw [hstate]; rfl)) (hid ▸ hrec.found') hquiet c.now
    rw [← settle] at found' hadvance hothers hst'
    rw [hid] at found' hadvance hothers
    refine simulates_of (fun x hx => ⟨(hothers x hx).1.trans (hrec.others x hx),
      (hothers x hx).2.trans (hrec.puts.effects_of_ne hx)⟩) hrec.found found' ?_ hst'
    rw [her, hput] at hadvance
    exact .fail hes hin hadvance

theorem simulates_inverse (hs : Shape s) (hst : StepStates s) (hinv : ∀ id p, s.view id = some p → Inv p)
    (found : s.dispatch? d.id = some d) (inFlight : d.state = .inFlight) (hsaga : s.saga? d.sagaID = some saga)
    (hstep : s.step? d.sagaID d.effectID = some step) (valid : validateCompletion c = .ok ())
    (hdir : d.direction = .compensation) :
    Simulates (¬Separated (s.settle d step saga c)) s (s.settle d step saga c) := by
  have hrec := recorded (c := c) hs found hsaga hstep
  have hof := hs.dispatchOf?_of_mem (mem_of_dispatch? found) (key_of_step? hstep)
  rw [hdir] at hof
  obtain ⟨hinverse, hdone, hsucceeded⟩ := inverse_inFlight hst hinv hof inFlight hrec.stepMem hrec.found
  have hstate := stepState_put_undone (j := jobOf d) hdone
  rw [← hdir] at hstate
  have hput : ∀ j, (s.effect step).put d.direction j = (s.effect step).put .compensation j := fun j => by rw [hdir]
  have hout : InverseOutcome s d step saga c := inverse_outcome hdir valid
  cases hout with
  | succeeded states settle =>
    rw [states] at hrec
    have hid : (s.recordedSaga d step saga c).sagaID = step.sagaID := id_of_saga? hrec.found'
    obtain ⟨pre, post, -, -, -, hes, her⟩ := hrec.puts.effects_split hs hrec.stepMem
    have hview := hinv _ _ (view_eq hrec.found)
    rw [hes] at hview
    have hcomp := hview.split.1.inverseInFlight _ hinverse inFlight
    rw [hcomp] at hview
    have hquiet : ∀ e ∈ (s.recordCompletion d step saga c).effects step.sagaID, Protocol.Quiet e := by
      rw [her, hput]
      exact hview.quiet_undone hinverse inFlight
    rw [← hid] at hquiet
    obtain ⟨⟨saga', found', hadvance⟩, hothers, hst'⟩ :=
      movesOn_next hrec.shape (hrec.stepStates hst (by rw [hstate]; rfl)) (hid ▸ hrec.found') hquiet c.now
    rw [← settle] at found' hadvance hothers hst'
    rw [hid] at found' hadvance hothers
    refine simulates_of (fun x hx => ⟨(hothers x hx).1.trans (hrec.others x hx),
      (hothers x hx).2.trans (hrec.puts.effects_of_ne hx)⟩) hrec.found found' ?_ hst'
    rw [her, hput, hrec.state] at hadvance
    exact .undo hes hinverse inFlight hadvance
  | retried states settle =>
    rw [settle]
    rw [states, hsucceeded] at hrec
    refine hrec.simulates hs hst (by rw [hstate]; rfl) fun pre post hes => ?_
    rw [hput]
    exact .retryInverse hes hinverse inFlight
  | blocked states target settle =>
    rw [settle]
    rw [states, hsucceeded] at hrec
    refine hrec.simulates hs hst ?_ fun pre post hes => ?_
    · rw [hstate]
      rcases target with ⟨h | h, -⟩ | ⟨h, -⟩ <;> simp [h]
    · rw [hput]
      exact .blockInverse hes hinverse inFlight target

/-! ### Every transition -/

theorem done_of_succeeded (hs : Shape s) {step : SagaStep} (hm : step ∈ s.steps)
    (all : ∀ d ∈ s.dispatches, d.sagaID = step.sagaID → d.state = .succeeded) : (s.effect step).Done := by
  obtain ⟨d, hd, hof⟩ := hs.forward? hm
  have := all d hd (key_of_dispatchOf? hof).1
  simpa [Effect.Done, effect, hof, jobOf] using this

theorem Trans.simulates (hs : Shape s) (hst : StepStates s) (hinv : ∀ id p, s.view id = some p → Inv p)
    (h : Trans s t) : Simulates (¬Separated t) s t := by
  cases h with
  | created fresh running serial => exact simulates_created hs hst fresh running
  | enqueued normalized found fresh running dense => exact simulates_enqueued hs hst found fresh running
  | claimed found => exact simulates_claimed hs hst found
  | granted found inFlight => exact simulates_granted hs hst (mem_of_dispatch? found)
  | @settled d step saga c found inFlight hsaga hstep valid =>
    cases hdir : d.direction with
    | forward => exact simulates_forward hs hst hinv found inFlight hsaga hstep valid hdir
    | compensation => exact simulates_inverse hs hst hinv found inFlight hsaga hstep valid hdir
  | closed found running all =>
    refine simulates_moved hst found (.complete running fun e he => ?_)
    obtain ⟨x, hx, hid, rfl⟩ := mem_effects.1 he
    exact done_of_succeeded hs hx fun d hd hdid => all d hd (hdid.trans hid)
  | stopped found idle => exact simulates_stopped hs hst found
  | blocked found compensating hstate => exact simulates_blocked hs hst hinv found compensating hstate
  | failedFast found blocked none =>
    simp only [hasInverseOrInFlight, List.any_eq_false, decide_eq_true_eq, not_and, not_or] at none
    refine simulates_moved hst found (.failFast blocked fun e he => ⟨?_, fun hin => ?_⟩)
    · by_contra hne
      obtain ⟨j, hj⟩ := Option.ne_none_iff_exists'.1 hne
      obtain ⟨d, hd, hid, hdir, -⟩ := (exists_inverse hs fun _ => True).1 ⟨e, he, j, hj, trivial⟩
      exact (none d hd hid).1 hdir
    · obtain ⟨d, hd, hid, -, hin⟩ := (exists_forward hs (· = .inFlight)).1 ⟨e, he, hin⟩
      exact (none d hd hid).2 hin

/-! ### Every run -/

/-- The store follows the protocol: its steps say what its dispatches say, and each saga in view keeps the
    protocol's invariant. -/
structure Sound (s : Store) : Prop where
  states : StepStates s
  inv : ∀ id p, s.view id = some p → Inv p
  live : Separated s → ∀ id p, s.view id = some p → Live p
  spent : Separated s → ∀ id p, s.view id = some p → Protocol.Spent p

theorem sound_empty : Sound empty where
  states := by simp [StepStates, empty]
  inv := fun id p h => by cases h
  live := fun _ id p h => by cases h
  spent := fun _ id p h => by cases h

theorem Sound.trans (hs : Shape s) (h : Sound s) (ht : Trans s t) : Sound t := by
  have hsim := ht.simulates hs h.states h.inv
  have hsep : Separated t → Separated s := .of_grows (ht.grows hs.toKeys)
  refine ⟨hsim.states, fun id q hq => ?_, fun hsept id q hq => ?_, fun hsept id q hq => ?_⟩
  · have hnext := hsim.views id
    rw [hq] at hnext
    generalize hp : s.view id = v at hnext
    cases hnext with
    | same => exact h.inv id q hp
    | created => exact Protocol.inv_nil _
    | step hstep => exact hstep.inv (h.inv id _ hp)
  · have hnext := hsim.views id
    rw [hq, not_iff_false_intro hsept] at hnext
    generalize hp : s.view id = v at hnext
    cases hnext with
    | same => exact h.live (hsep hsept) id q hp
    | created => exact fun hc => by cases hc
    | step hstep => exact hstep.live (h.inv id _ hp) (h.live (hsep hsept) id _ hp)
  · have hnext := hsim.views id
    rw [hq, not_iff_false_intro hsept] at hnext
    generalize hp : s.view id = v at hnext
    cases hnext with
    | same => exact h.spent (hsep hsept) id q hp
    | created => exact Protocol.spent_of_ne (by simp) (by simp) (by simp)
    | step hstep =>
      exact hstep.spent (h.inv id _ hp) (h.live (hsep hsept) id _ hp) (h.spent (hsep hsept) id _ hp)

theorem run_sound (ops : List Op) : Sound (empty.run ops) :=
  (run_keeps (P := Sound) Sound.trans shape_empty sound_empty ops).2

end

end Store
end Effectus

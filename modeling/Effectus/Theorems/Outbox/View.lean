import Effectus.Theorems.Outbox.Runs
import Effectus.Theorems.Outbox.ProtocolInv

/-! The store seen one saga at a time. A step is an effect, and its dispatches are the jobs that make it
    and undo it; what else the records hold does not matter to the protocol. -/

namespace Effectus

namespace Protocol.Effect

/-- Give the effect a job in a direction. -/
def put (e : Effect) (direction : Direction) (j : Job) : Effect :=
  match direction with
  | .forward => { e with forward := j }
  | .compensation => { e with inverse := some j }

/-- The state of the step an effect stands for. -/
def stepState (e : Effect) : StepState :=
  if e.inverse.any fun j => decide (j.state = .succeeded) then .compensated
  else if e.forward.state = .succeeded then .succeeded
  else if e.forward.state = .failedPermanent then .failed
  else .pending

end Protocol.Effect

namespace Store

open Protocol (Job Effect Saga)

variable {s t : Store}

/-! ### The view -/

/-- What a dispatch is for: an effect of a saga, in a direction. -/
def dispatchKey (d : Dispatch) : Text × Text × Direction := (d.sagaID, d.effectID, d.direction)

def jobOf (d : Dispatch) : Job := ⟨d.state, d.attempt⟩

/-- The dispatch that carries a step in a direction. -/
def dispatchOf? (s : Store) (step : SagaStep) (direction : Direction) : Option Dispatch :=
  Keyed.get? dispatchKey s.dispatches (step.sagaID, step.effectID, direction)

def effect (s : Store) (step : SagaStep) : Effect where
  name := step.effectID
  reversible := decide (step.compensationVerb ≠ [])
  forward := ((s.dispatchOf? step .forward).map jobOf).getD .new
  inverse := (s.dispatchOf? step .compensation).map jobOf

def effects (s : Store) (sagaID : Text) : List Effect := (s.stepsOf sagaID).map s.effect

/-- A saga of the store. -/
def view (s : Store) (sagaID : Text) : Option Saga :=
  (s.saga? sagaID).map fun saga => ⟨saga.state, s.effects sagaID⟩

/-- The state of every step is what its dispatches say. -/
def StepStates (s : Store) : Prop := ∀ step ∈ s.steps, step.state = (s.effect step).stepState

/-! ### Looking up -/

section

variable [Platform]

theorem Shape.dispatchKeys (hs : Shape s) : Keyed.Unique dispatchKey s.dispatches := by
  refine hs.dispatches.of_key fun x hx y hy he => ?_
  obtain ⟨saga, hsaga, step, -, -, hc⟩ := hs.carries x hx
  simp only [dispatchKey, Prod.mk.injEq] at he
  rw [hs.id_of_forward hsaga hx hc.sagaID, hs.id_of_forward hsaga hy (he.1.symm.trans hc.sagaID), he.2.1, he.2.2]

theorem Shape.dispatchOf?_of_mem (hs : Shape s) {d : Dispatch} {step : SagaStep} (hd : d ∈ s.dispatches)
    (hk : stepKey step = effectKey d) : s.dispatchOf? step d.direction = some d := by
  obtain ⟨h₁, h₂⟩ := Prod.mk.inj hk
  have := hs.dispatchKeys.get?_of_mem hd
  rwa [dispatchKey, ← h₁, ← h₂] at this

theorem Shape.step_of_dispatch (hs : Shape s) {d : Dispatch} (hd : d ∈ s.dispatches) :
    ∃ step ∈ s.steps, stepKey step = effectKey d := by
  obtain ⟨saga, -, step, hstep, hid, hc⟩ := hs.carries d hd
  exact ⟨step, hstep, by rw [stepKey, effectKey, hid, hc.sagaID, hc.effectID]⟩

theorem Shape.sequence_of_key (hs : Shape s) {d : Dispatch} {step : SagaStep} (hd : d ∈ s.dispatches)
    (hstep : step ∈ s.steps) (hk : stepKey step = effectKey d) : d.sequence = step.sequence := by
  obtain ⟨saga, -, x, hx, hid, hc⟩ := hs.carries d hd
  have hxk : stepKey x = stepKey step := by rw [hk, stepKey, effectKey, hid, hc.sagaID, hc.effectID]
  rw [hc.sequence, hs.steps.eq_of_key hx hstep hxk]

theorem Shape.forward? (hs : Shape s) {step : SagaStep} (hstep : step ∈ s.steps) :
    ∃ d ∈ s.dispatches, s.dispatchOf? step .forward = some d := by
  obtain ⟨d, hd, hdir, h₁, h₂⟩ := hs.forward_of_step hstep
  have hk : stepKey step = effectKey d := by rw [stepKey, effectKey, h₁, h₂]
  exact ⟨d, hd, hdir ▸ hs.dispatchOf?_of_mem hd hk⟩

/-- A step that is not there has no dispatch. -/
theorem Shape.dispatchOf?_none (hs : Shape s) {step : SagaStep} (hne : ∀ x ∈ s.steps, stepKey x ≠ stepKey step)
    (direction : Direction) : s.dispatchOf? step direction = none := by
  refine Keyed.get?_eq_none.2 fun d hd he => ?_
  obtain ⟨saga, -, x, hx, hid, hc⟩ := hs.carries d hd
  simp only [dispatchKey, Prod.mk.injEq] at he
  refine hne x hx ?_
  rw [stepKey, stepKey, hid, ← hc.sagaID, ← hc.effectID, he.1, he.2.1]

end

theorem mem_of_dispatchOf? {step : SagaStep} {direction : Direction} {d : Dispatch}
    (h : s.dispatchOf? step direction = some d) : d ∈ s.dispatches :=
  Keyed.mem_of_get? h

theorem key_of_dispatchOf? {step : SagaStep} {direction : Direction} {d : Dispatch}
    (h : s.dispatchOf? step direction = some d) :
    d.sagaID = step.sagaID ∧ d.effectID = step.effectID ∧ d.direction = direction := by
  have := Keyed.key_of_get? h
  simpa [dispatchKey] using this

theorem saga?_setSaga {saga found : SagaInstance} (h : s.saga? saga.sagaID = some found) :
    (s.setSaga saga).saga? saga.sagaID = some saga :=
  Keyed.get?_modify_self h fun _ _ _ => rfl

theorem effect_congr {a b : SagaStep} (h : a.core = b.core) : s.effect a = s.effect b := by
  obtain ⟨h₁, h₂, -, -, -, -, -, h₃, -⟩ := SagaStep.core_eq.1 h
  simp only [effect, dispatchOf?, h₁, h₂, h₃]

theorem effects_of_cores (h : t.steps.map (·.core) = s.steps.map (·.core)) (sagaID : Text) :
    t.effects sagaID = (s.stepsOf sagaID).map t.effect := by
  have hf : ∀ u : Store, (u.stepsOf sagaID).map t.effect =
      ((u.steps.map (·.core)).filter fun x => decide (x.sagaID = sagaID)).map t.effect := fun u =>
    map_filter_core (c := SagaStep.core) (fun _ => rfl) (fun _ => effect_congr rfl) _
  rw [effects, hf t, h, ← hf s]

theorem effect_of_dispatchOf? {step : SagaStep}
    (h : ∀ direction, (t.dispatchOf? step direction).map jobOf = (s.dispatchOf? step direction).map jobOf) :
    t.effect step = s.effect step := by
  simp only [effect, h]

theorem dispatchOf?_map {f : Dispatch → Dispatch} (hd : t.dispatches = s.dispatches.map f)
    (hf : ∀ d ∈ s.dispatches, (f d).core = d.core) (step : SagaStep) (direction : Direction) :
    t.dispatchOf? step direction = (s.dispatchOf? step direction).map f := by
  rw [dispatchOf?, hd, Keyed.get?_map]
  · rfl
  · intro d hm
    obtain ⟨-, h₁, h₂, -, h₃, -⟩ := Dispatch.core_eq.1 (hf d hm)
    rw [dispatchKey, dispatchKey, h₁, h₂, h₃]

/-! ### Steps in order -/

theorem Shape.sequences [Platform] (hs : Shape s) (sagaID : Text) :
    (s.stepsOf sagaID).Pairwise fun a b => a.sequence < b.sequence := by
  rw [← List.pairwise_map (f := fun step : SagaStep => step.sequence), hs.dense, List.pairwise_map]
  exact List.pairwise_lt_range.imp fun h => by omega

/-- A step's place among the steps of its saga. -/
theorem Shape.around [Platform] (hs : Shape s) {step : SagaStep} (hstep : step ∈ s.steps) :
    ∃ pre post, s.stepsOf step.sagaID = pre ++ step :: post ∧ (∀ x ∈ pre, x.sequence < step.sequence) ∧
      ∀ x ∈ post, step.sequence < x.sequence := by
  obtain ⟨pre, post, he⟩ := List.append_of_mem (mem_stepsOf.2 ⟨hstep, rfl⟩)
  have hp := hs.sequences step.sagaID
  rw [he, List.pairwise_append, List.pairwise_cons] at hp
  exact ⟨pre, post, he, fun x hx => hp.2.2 x hx step (List.mem_cons_self ..), hp.2.1.1⟩

/-! ### One job changes -/

/-- One job of one step is rewritten or added, as far as the view goes. -/
structure Puts (s t : Store) (step : SagaStep) (direction : Direction) (j : Job) : Prop where
  steps : t.steps.map (·.core) = s.steps.map (·.core)
  here : (t.dispatchOf? step direction).map jobOf = some j
  there : ∀ x ∈ s.steps, ∀ dir, (stepKey x, dir) ≠ (stepKey step, direction) →
    (t.dispatchOf? x dir).map jobOf = (s.dispatchOf? x dir).map jobOf

namespace Puts

variable {step x : SagaStep} {direction : Direction} {j : Job}

theorem effect_self (h : Puts s t step direction j) (hstep : step ∈ s.steps) :
    t.effect step = (s.effect step).put direction j := by
  cases direction with
  | forward => simp [effect, Effect.put, h.here, h.there step hstep .compensation (by simp)]
  | compensation => simp [effect, Effect.put, h.here, h.there step hstep .forward (by simp)]

theorem effect_of_ne (h : Puts s t step direction j) (hx : x ∈ s.steps) (hne : stepKey x ≠ stepKey step) :
    t.effect x = s.effect x :=
  effect_of_dispatchOf? fun dir => h.there x hx dir fun he => hne (Prod.mk.inj he).1

/-- Other sagas look as before. -/
theorem effects_of_ne (h : Puts s t step direction j) {sagaID : Text} (hne : sagaID ≠ step.sagaID) :
    t.effects sagaID = s.effects sagaID := by
  rw [effects_of_cores h.steps, effects]
  refine List.map_congr_left fun x hx => ?_
  obtain ⟨hx, hid⟩ := mem_stepsOf.1 hx
  exact h.effect_of_ne hx fun he => hne (hid.symm.trans (Prod.mk.inj he).1)

/-- The step's own saga has the one effect changed, in its place. -/
theorem effects_split [Platform] (h : Puts s t step direction j) (hs : Shape s) (hstep : step ∈ s.steps) :
    ∃ pre post, s.stepsOf step.sagaID = pre ++ step :: post ∧ (∀ x ∈ pre, x.sequence < step.sequence) ∧
      (∀ x ∈ post, step.sequence < x.sequence) ∧
      s.effects step.sagaID = pre.map s.effect ++ s.effect step :: post.map s.effect ∧
      t.effects step.sagaID = pre.map s.effect ++ (s.effect step).put direction j :: post.map s.effect := by
  obtain ⟨pre, post, he, hpre, hpost⟩ := hs.around hstep
  have hmem : ∀ x, x ∈ pre ∨ x ∈ post → x ∈ s.steps := fun x hx =>
    (mem_stepsOf.1 (he ▸ by simpa using hx.imp id .inr : x ∈ s.stepsOf step.sagaID)).1
  have hother : ∀ x, x ∈ pre ∨ x ∈ post → t.effect x = s.effect x := by
    intro x hx
    refine h.effect_of_ne (hmem x hx) fun hk => ?_
    have hxs := hs.steps.eq_of_key (hmem x hx) hstep hk
    rcases hx with hx | hx
    · exact absurd (hxs ▸ hpre x hx) (lt_irrefl _)
    · exact absurd (hxs ▸ hpost x hx) (lt_irrefl _)
  refine ⟨pre, post, he, hpre, hpost, by simp [effects, he], ?_⟩
  rw [effects_of_cores h.steps, he, List.map_append, List.map_cons, h.effect_self hstep,
    List.map_congr_left fun x hx => hother x (.inl hx), List.map_congr_left fun x hx => hother x (.inr hx)]

end Puts

section

variable {step : SagaStep} {d d' : Dispatch}

/-- Rewriting a dispatch rewrites its job. -/
theorem puts_set [Platform] (hs : Shape s) (hd : d ∈ s.dispatches) (hk : stepKey step = effectKey d) (hc : d'.core = d.core)
    (hsteps : t.steps.map (·.core) = s.steps.map (·.core)) (ht : t.dispatches = (s.setDispatch d').dispatches) :
    Puts s t step d.direction (jobOf d') := by
  have hid : d'.id = d.id := (Dispatch.core_eq.1 hc).1
  have hone : ∀ x ∈ s.dispatches, x.id = d'.id → x = d := fun x hx he => hs.dispatches.eq_of_key hx hd (he.trans hid)
  have hmap := dispatchOf?_map (s := s) ht fun x hx => by
    split
    · rename_i he
      rw [hone x hx he, hc]
    · rfl
  refine ⟨hsteps, ?_, fun x hx dir hne => ?_⟩
  · rw [hmap, hs.dispatchOf?_of_mem hd hk]
    simp [hid]
  · rw [hmap]
    cases hy : s.dispatchOf? x dir with
    | none => rfl
    | some y =>
      have hyd : y.id ≠ d'.id := fun he => by
        obtain ⟨h₁, h₂, h₃⟩ := key_of_dispatchOf? hy
        rw [hone y (mem_of_dispatchOf? hy) he] at h₁ h₂ h₃
        refine hne ?_
        rw [hk, effectKey, stepKey, h₁, h₂, h₃]
      simp [hyd]

/-- A new dispatch adds its job. -/
theorem puts_append {new : Dispatch} (hk : stepKey step = effectKey new)
    (hnone : s.dispatchOf? step new.direction = none) (hsteps : t.steps.map (·.core) = s.steps.map (·.core))
    (ht : t.dispatches = s.dispatches ++ [new]) : Puts s t step new.direction (jobOf new) := by
  obtain ⟨h₁, h₂⟩ := Prod.mk.inj hk
  have happ : ∀ x dir, t.dispatchOf? x dir = (s.dispatchOf? x dir).or
      (Keyed.get? dispatchKey [new] (x.sagaID, x.effectID, dir)) := fun x dir => by
    rw [dispatchOf?, ht, Keyed.get?_append]
    rfl
  refine ⟨hsteps, ?_, fun x hx dir hne => ?_⟩
  · rw [happ, hnone, h₁, h₂]
    simp [Keyed.get?, dispatchKey]
  · have hno : Keyed.get? dispatchKey [new] (x.sagaID, x.effectID, dir) = none := by
      refine Keyed.get?_eq_none.2 fun y hy he => hne ?_
      rw [List.mem_singleton.1 hy] at he
      simp only [dispatchKey, Prod.mk.injEq] at he
      rw [hk, effectKey, stepKey, he.1, he.2.1, he.2.2]
    rw [happ, hno, Option.or_none]

end

end Store
end Effectus

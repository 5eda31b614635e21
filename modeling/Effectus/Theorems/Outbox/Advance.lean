import Effectus.Theorems.Outbox.View

/-! Moving on to the next inverse, in the store and in the protocol. The store finds a dispatch by the
    digest of its identity, so an inverse is missed only if it was queued before or if the digest does
    not tell two identities of the store apart. -/

namespace Effectus

/-! ### Identities -/

theorem hexDigit_inj : ∀ a < 16, ∀ b < 16, Text.hexDigit a = Text.hexDigit b → a = b := by decide

theorem hexEncode_injective : Function.Injective hexEncode := by
  intro x y h
  induction x generalizing y with
  | nil =>
    cases y with
    | nil => rfl
    | cons => simp [hexEncode] at h
  | cons a x ih =>
    cases y with
    | nil => simp [hexEncode] at h
    | cons b y =>
      simp only [hexEncode, List.flatMap_cons, List.cons_append, List.nil_append, List.cons.injEq] at h
      obtain ⟨hhigh, hlow, hrest⟩ := h
      have ha := a.toNat_lt
      have hb := b.toNat_lt
      have h₁ := hexDigit_inj _ (by omega) _ (by omega) hhigh
      have h₂ := hexDigit_inj _ (by omega) _ (by omega) hlow
      have hab : a = b := UInt8.toNat_inj.1 (by omega)
      rw [hab, ih hrest]

namespace Store

open Protocol (Job Effect Saga Advance)

variable {s t u : Store}

/-- What the identity of a dispatch is made of. -/
def identity (saga : SagaInstance) (step : SagaStep) (direction : Direction) : List Text :=
  [saga.ns, saga.sagaID, step.effectID, direction.text]

/-- The identities of the dispatches the steps of the store may have. -/
def Identity (s : Store) (x : List Text) : Prop :=
  ∃ saga ∈ s.sagas, ∃ step ∈ s.steps, ∃ direction, step.sagaID = saga.sagaID ∧ x = identity saga step direction

/-- The digest tells the identities of the store apart. -/
def Separated [Platform] (s : Store) : Prop :=
  ∀ x y, s.Identity x → s.Identity y → Platform.sha256 (frameIdentity x) = Platform.sha256 (frameIdentity y) → x = y

theorem Identity.grows {x : List Text} (h : Grows s t) (hx : s.Identity x) : t.Identity x := by
  obtain ⟨saga, hsaga, step, hstep, direction, hid, rfl⟩ := hx
  obtain ⟨saga', hsaga', he⟩ := h.saga_mem hsaga
  obtain ⟨step', hstep', he'⟩ := h.step_mem hstep
  obtain ⟨hns, hsid, -⟩ := SagaInstance.core_eq.1 he
  obtain ⟨hss, heff, -⟩ := SagaStep.core_eq.1 he'
  exact ⟨saga', hsaga', step', hstep', direction, by rw [hss, hsid, hid], by simp [identity, hns, hsid, heff]⟩

theorem direction_text_inj {a b : Direction} (h : a.text = b.text) : a = b := by
  cases a <;> cases b <;> first | rfl | exact absurd h (by decide)

section

variable [Platform]

theorem Separated.of_grows (h : Grows s t) (ht : Separated t) : Separated s := fun x y hx hy =>
  ht x y (hx.grows h) (hy.grows h)

/-- In a separated store a dispatch's id says what it is for. -/
theorem Separated.key_of_id (h : Separated s) (hs : Shape s) {saga : SagaInstance} {step : SagaStep} {d : Dispatch}
    {direction : Direction} (hsaga : saga ∈ s.sagas) (hstep : step ∈ s.steps) (hid : step.sagaID = saga.sagaID)
    (hd : d ∈ s.dispatches) (he : d.id = dispatchIDOf (idempotencyKey saga.ns saga.sagaID step.effectID direction)) :
    dispatchKey d = (step.sagaID, step.effectID, direction) := by
  obtain ⟨saga', hsaga', step', hstep', hid', hc⟩ := hs.carries d hd
  rw [hc.id] at he
  have he := hexEncode_injective (List.append_cancel_left he)
  have := h _ _ ⟨saga', hsaga', step', hstep', d.direction, hid', rfl⟩ ⟨saga, hsaga, step, hstep, direction, hid, rfl⟩ he
  simp only [identity, List.cons.injEq, and_true] at this
  rw [dispatchKey, hc.sagaID, hc.effectID, this.2.1, this.2.2.1, direction_text_inj this.2.2.2, hid]

end

/-! ### Steps and effects -/

theorem stepState_eq_succeeded {e : Effect} : e.stepState = .succeeded ↔ e.Standing := by
  unfold Effect.stepState Effect.Standing Effect.Done Effect.Undone
  cases hi : e.inverse with
  | none =>
    simp only [Option.any_none, Bool.false_eq_true, if_false]
    split <;> simp_all
    split <;> simp
  | some j =>
    simp only [Option.any_some, decide_eq_true_eq]
    split
    · simp_all
    · split <;> simp_all
      split <;> simp

theorem stepState_eq_compensated {e : Effect} : e.stepState = .compensated ↔ e.Undone := by
  unfold Effect.stepState Effect.Undone
  cases hi : e.inverse with
  | none =>
    simp only [Option.any_none, Bool.false_eq_true, if_false]
    split
    · simp
    · split <;> simp
  | some j =>
    simp only [Option.any_some, decide_eq_true_eq]
    split
    · simp_all
    · split
      · simp_all
      · split <;> simp_all

theorem StepStates.standing (h : StepStates s) {x : SagaStep} (hx : x ∈ s.steps) :
    (s.effect x).Standing ↔ x.state = .succeeded := by
  rw [h x hx, stepState_eq_succeeded]

theorem StepStates.owed (h : StepStates s) {x : SagaStep} (hx : x ∈ s.steps) : (s.effect x).Owed ↔ Owed x := by
  rw [Effect.Owed, h.standing hx, Owed, and_comm]
  simp [effect]

theorem mem_effects {sagaID : Text} {e : Effect} :
    e ∈ s.effects sagaID ↔ ∃ x ∈ s.steps, x.sagaID = sagaID ∧ s.effect x = e := by
  simp [effects, mem_stepsOf, and_assoc]

/-- A forward job in view is a forward dispatch of the saga. -/
theorem exists_forward [Platform] (hs : Shape s) (P : DispatchState → Prop) {sagaID : Text} :
    (∃ e ∈ s.effects sagaID, P e.forward.state) ↔
      ∃ d ∈ s.dispatches, d.sagaID = sagaID ∧ d.direction = .forward ∧ P d.state := by
  constructor
  · rintro ⟨e, he, hP⟩
    obtain ⟨x, hx, hid, rfl⟩ := mem_effects.1 he
    obtain ⟨d, hd, hof⟩ := hs.forward? hx
    obtain ⟨h₁, -, h₃⟩ := key_of_dispatchOf? hof
    exact ⟨d, hd, h₁.trans hid, h₃, by simpa [effect, hof, jobOf] using hP⟩
  · rintro ⟨d, hd, hid, hdir, hP⟩
    obtain ⟨x, hx, hk⟩ := hs.step_of_dispatch hd
    have hof := hs.dispatchOf?_of_mem hd hk
    rw [hdir] at hof
    exact ⟨_, mem_effects.2 ⟨x, hx, (Prod.mk.inj hk).1.trans hid, rfl⟩, by simpa [effect, hof, jobOf] using hP⟩

/-- An inverse in view is a dispatch of the saga that compensates. -/
theorem exists_inverse [Platform] (hs : Shape s) (P : DispatchState → Prop) {sagaID : Text} :
    (∃ e ∈ s.effects sagaID, ∃ j, e.inverse = some j ∧ P j.state) ↔
      ∃ d ∈ s.dispatches, d.sagaID = sagaID ∧ d.direction = .compensation ∧ P d.state := by
  constructor
  · rintro ⟨e, he, j, hj, hP⟩
    obtain ⟨x, hx, hid, rfl⟩ := mem_effects.1 he
    obtain ⟨d, hof, rfl⟩ := Option.map_eq_some_iff.1 hj
    obtain ⟨h₁, -, h₃⟩ := key_of_dispatchOf? hof
    exact ⟨d, mem_of_dispatchOf? hof, h₁.trans hid, h₃, hP⟩
  · rintro ⟨d, hd, hid, hdir, hP⟩
    obtain ⟨x, hx, hk⟩ := hs.step_of_dispatch hd
    have hof := hs.dispatchOf?_of_mem hd hk
    rw [hdir] at hof
    exact ⟨_, mem_effects.2 ⟨x, hx, (Prod.mk.inj hk).1.trans hid, rfl⟩, jobOf d, by simp [effect, hof], hP⟩

theorem stepState_put_forward {e : Effect} {j : Job} (hj : j.Waiting) (he : e.forward.Waiting) :
    (e.put .forward j).stepState = e.stepState := by
  unfold Effect.stepState Effect.put
  rcases hj with hj | hj | hj <;> rcases he with he | he | he <;> simp [hj, he]

theorem stepState_put_inverse {e : Effect} {j : Job} (hj : j.state ≠ .succeeded) (he : ¬e.Undone) :
    (e.put .compensation j).stepState = e.stepState := by
  have hi : e.inverse.any (fun i => decide (i.state = .succeeded)) = false := by
    cases hi : e.inverse with
    | none => rfl
    | some i =>
      have : i.state ≠ .succeeded := fun h => he ⟨i, hi, h⟩
      simpa using this
  unfold Effect.stepState Effect.put
  simp [hj, hi]

section

variable {step : SagaStep} {direction : Direction} {j : Job}

/-- After a change of one job the steps are right again once that job's step is. -/
theorem StepStates.put (h : StepStates s) (hp : Puts s t step direction j) (hstep : step ∈ s.steps)
    (hsteps : ∀ x ∈ t.steps, (x ∈ s.steps ∧ stepKey x ≠ stepKey step) ∨
      x.core = step.core ∧ x.state = ((s.effect step).put direction j).stepState) : StepStates t := by
  intro x hx
  rcases hsteps x hx with ⟨hm, hne⟩ | ⟨hcore, hstate⟩
  · rw [hp.effect_of_ne hm hne]
    exact h x hm
  · rw [effect_congr hcore, hp.effect_self hstep, hstate]

/-- A change of a job that its step does not notice. -/
theorem StepStates.put_same [Platform] (h : StepStates s) (hs : Shape s) (hp : Puts s t step direction j)
    (hstep : step ∈ s.steps) (hsteps : t.steps = s.steps)
    (hsame : ((s.effect step).put direction j).stepState = (s.effect step).stepState) : StepStates t := by
  refine h.put hp hstep fun x hx => ?_
  rw [hsteps] at hx
  by_cases hk : stepKey x = stepKey step
  · have hxs := hs.steps.eq_of_key hx hstep hk
    exact .inr ⟨by rw [hxs], by rw [hxs, hsame, h step hstep]⟩
  · exact .inl ⟨hx, hk⟩

end

/-! ### Moving on -/

section

/-- With nothing left to undo the saga ends, well or not. -/
theorem advance_none {sagaID : Text} {lossy : Prop} {working ended : SagaState} (hst : StepStates s)
    (hc : s.compensationCandidate? sagaID = none) :
    Advance lossy working ended (s.effects sagaID)
      (if s.hasSucceededStep sagaID then .blockedCompensation else ended) (s.effects sagaID) := by
  split
  · refine .stuck fun e he => ?_
    obtain ⟨x, hx, hid, rfl⟩ := mem_effects.1 he
    rw [hst.owed hx]
    exact not_owed_of_candidate_none hc x (mem_stepsOf.2 ⟨hx, hid⟩)
  · rename_i hno
    refine .ended fun e he => ?_
    obtain ⟨x, hx, hid, rfl⟩ := mem_effects.1 he
    rw [hst.standing hx]
    exact fun hsucc => hno (hasSucceededStep_iff.2 ⟨x, mem_stepsOf.2 ⟨hx, hid⟩, hsucc⟩)

variable [Platform] {saga x : SagaInstance} {cand : SagaStep} {now : Time}

/-- An inverse that is queued already is found under the id of the new one. -/
theorem Shape.inverse_none (hs : Shape s) (hx : x ∈ s.sagas) (he : saga.core = x.core)
    (hid : cand.sagaID = saga.sagaID) (hfresh : s.dispatch? (compensationDispatch saga cand now).id = none) :
    s.dispatchOf? cand .compensation = none := by
  obtain ⟨hns, hsid, -⟩ := SagaInstance.core_eq.1 he
  cases hd : s.dispatchOf? cand .compensation with
  | none => rfl
  | some d =>
    obtain ⟨h₁, h₂, h₃⟩ := key_of_dispatchOf? hd
    have hm := mem_of_dispatchOf? hd
    refine absurd ?_ (Keyed.get?_eq_none.1 hfresh d hm)
    rw [hs.id_of_forward hx hm (h₁.trans (hid.trans hsid)), h₂, h₃, ← hns, ← hsid]
    rfl

/-- The next inverse is queued for the last step that is owed one, unless its id is taken. -/
theorem advance_some (hs : Shape s) (hst : StepStates s) (hx : x ∈ s.sagas) (he : saga.core = x.core)
    (hquiet : ∀ e ∈ s.effects saga.sagaID, Protocol.Quiet e)
    (hc : s.compensationCandidate? saga.sagaID = some cand) (working ended : SagaState) (now : Time) :
    Advance (¬Separated (s.enqueueCompensation saga cand now)) working ended (s.effects saga.sagaID) working
        ((s.enqueueCompensation saga cand now).effects saga.sagaID) ∧
      (∀ id, id ≠ saga.sagaID → (s.enqueueCompensation saga cand now).effects id = s.effects id) ∧
      StepStates (s.enqueueCompensation saga cand now) := by
  obtain ⟨hm, howed, hlast⟩ := candidate_spec hc
  obtain ⟨hstep, hid⟩ := mem_stepsOf.1 hm
  have howe := (hst.owed hstep).2 howed
  obtain ⟨hns, hsid, -⟩ := SagaInstance.core_eq.1 he
  rcases enqueueCompensation_cases s saga cand now with ⟨hthere, h⟩ | ⟨hfresh, h⟩
  · rw [h]
    have hmem : s.effect cand ∈ s.effects saga.sagaID := mem_effects.2 ⟨cand, hstep, hid, rfl⟩
    refine ⟨.missed hmem howe fun hsep => ?_, fun _ _ => rfl, hst⟩
    -- A digest that tells identities apart gives the id to the inverse itself, which then is there already.
    obtain ⟨d, hd⟩ := Option.isSome_iff_exists.1 hthere
    have hdid : d.id = dispatchIDOf (idempotencyKey x.ns x.sagaID cand.effectID .compensation) := by
      rw [id_of_dispatch? hd, ← hns, ← hsid]
      rfl
    have hkey := hsep.key_of_id hs hx hstep (hid.trans hsid) (mem_of_dispatch? hd) hdid
    have hfound := hs.dispatchKeys.get?_of_mem (mem_of_dispatch? hd)
    rw [hkey] at hfound
    have hinv : (s.effect cand).inverse = some (jobOf d) := by simp [effect, dispatchOf?, hfound]
    exact howe.2.2 ⟨_, hinv, (hquiet _ hmem).inverse _ hinv⟩
  · have hnone := hs.inverse_none hx he hid hfresh
    have hkey : stepKey cand = effectKey (compensationDispatch saga cand now) := by
      rw [stepKey, hid]
      rfl
    have hput : Puts s (s.enqueueCompensation saga cand now) cand .compensation .new :=
      puts_append hkey hnone (by rw [h]) (by rw [h])
    have hfree : (s.effect cand).inverse = none := by simp [effect, hnone]
    refine ⟨?_, fun id hne => hput.effects_of_ne (hid ▸ hne), ?_⟩
    · obtain ⟨pre, post, hsteps, -, hpost, hes, het⟩ := hput.effects_split hs hstep
      rw [← hid, hes, het]
      refine .next rfl howe ?_ hfree
      intro e hme
      obtain ⟨y, hy, rfl⟩ := List.mem_map.1 hme
      have hys : y ∈ s.stepsOf cand.sagaID := by simp [hsteps, hy]
      rw [hst.owed (mem_stepsOf.1 hys).1]
      intro hyo
      exact absurd (hlast y (hid ▸ hys) hyo) (not_le.2 (hpost y hy))
    · refine hst.put_same hs hput hstep (by rw [h]) (stepState_put_inverse (by simp [Job.new]) ?_)
      rintro ⟨i, hi, -⟩
      simp [hfree] at hi

end

end Store
end Effectus

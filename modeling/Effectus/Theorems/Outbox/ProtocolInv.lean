import Effectus.Outbox.Protocol

/-! The discipline of a saga, as a property of each effect under the saga's state and a property of each
    two effects in order. A step replaces one effect or stops them all, so each is looked at once. -/

namespace Effectus
namespace Protocol

/-! ### The invariant -/

/-- What the saga's state says of each effect. -/
structure Each (state : SagaState) (e : Effect) : Prop where
  running : state = .running → e.inverse = none ∧ (e.forward.Waiting ∨ e.Done)
  inFlight : e.forward.state = .inFlight → state = .running
  inverseInFlight : ∀ j, e.inverse = some j → j.state = .inFlight → state = .compensating
  inverse : e.inverse ≠ none → e.reversible = true ∧ e.Done
  settled : state = .compensating ∨ state = .compensated → e.Done ∨ e.forward.state = .failedPermanent ∨ e.Untouched
  compensating : state = .compensating → ∀ j, e.inverse = some j → j.Waiting ∨ j.state = .succeeded
  compensated : state = .compensated → ¬e.Standing
  completed : state = .completed → e.Done ∧ e.inverse = none

/-- What holds between an effect and a later one. -/
structure Pair (a b : Effect) : Prop where
  serial : a.Done ∨ b.Untouched
  reverse : a.inverse ≠ none → ¬b.Owed
  single : a.Pending → ¬b.Pending

structure Inv (p : Saga) : Prop where
  each : ∀ e ∈ p.effects, Each p.state e
  pairs : p.effects.Pairwise Pair

theorem inv_nil (state : SagaState) : Inv ⟨state, []⟩ := ⟨by simp, .nil⟩

/-- While a saga compensates, some inverse is waiting to be attempted. -/
def Live (p : Saga) : Prop := p.state = .compensating → ∃ e ∈ p.effects, ∃ j, e.inverse = some j ∧ j.Waiting

/-! ### Replacing one effect -/

section

variable {state state' : SagaState} {pre post : List Effect} {e e' : Effect}

theorem Inv.split (h : Inv ⟨state, pre ++ e :: post⟩) :
    Each state e ∧ (∀ a ∈ pre, Each state a ∧ Pair a e) ∧ ∀ b ∈ post, Each state b ∧ Pair e b := by
  obtain ⟨heach, hpairs⟩ := h
  rw [List.pairwise_append, List.pairwise_cons] at hpairs
  obtain ⟨-, ⟨hpost, -⟩, hpre⟩ := hpairs
  refine ⟨heach e (by simp), fun a ha => ⟨heach a (by simp [ha]), hpre a ha e (by simp)⟩, fun b hb => ?_⟩
  exact ⟨heach b (by simp [hb]), hpost b hb⟩

theorem Inv.replace (h : Inv ⟨state, pre ++ e :: post⟩) (each : Each state' e')
    (before : ∀ a ∈ pre, Each state a → Pair a e → Each state' a ∧ Pair a e')
    (after : ∀ b ∈ post, Each state b → Pair e b → Each state' b ∧ Pair e' b) :
    Inv ⟨state', pre ++ e' :: post⟩ := by
  obtain ⟨-, hpre, hpost⟩ := h.split
  have hpairs := h.pairs
  rw [List.pairwise_append, List.pairwise_cons] at hpairs
  obtain ⟨hp₁, ⟨-, hp₂⟩, hp₃⟩ := hpairs
  constructor
  · intro x hx
    rcases List.mem_append.1 hx with hx | hx
    · exact (before x hx (hpre x hx).1 (hpre x hx).2).1
    rcases List.mem_cons.1 hx with rfl | hx
    · exact each
    · exact (after x hx (hpost x hx).1 (hpost x hx).2).1
  · rw [List.pairwise_append, List.pairwise_cons]
    refine ⟨hp₁, ⟨fun b hb => (after b hb (hpost b hb).1 (hpost b hb).2).2, hp₂⟩, fun a ha b hb => ?_⟩
    rcases List.mem_cons.1 hb with rfl | hb
    · exact (before a ha (hpre a ha).1 (hpre a ha).2).2
    · exact hp₃ a ha b (List.mem_cons_of_mem _ hb)

end

/-! ### Moving on -/

/-- An effect nobody is working on. -/
structure Quiet (e : Effect) : Prop where
  forward : e.Done ∨ e.forward.state = .failedPermanent ∨ e.Untouched
  inverse : ∀ j, e.inverse = some j → j.state = .succeeded
  needs : e.inverse ≠ none → e.reversible = true ∧ e.Done

namespace Quiet

variable {e : Effect}

theorem not_inFlight (h : Quiet e) : e.forward.state ≠ .inFlight := by
  rcases h.forward with h | h | ⟨-, h | h⟩ <;> simp_all [Effect.Done]

theorem not_pending (h : Quiet e) : ¬e.Pending := fun ⟨j, hj, hne⟩ => hne (h.inverse j hj)

/-- A quiet effect fits every state that does not speak of it. -/
theorem each (h : Quiet e) {state : SagaState} (hr : state ≠ .running) (hc : state ≠ .completed)
    (hd : state = .compensated → ¬e.Standing) : Each state e where
  running := fun he => absurd he hr
  inFlight := fun he => absurd he h.not_inFlight
  inverseInFlight := fun j hj he => by simp [h.inverse j hj] at he
  inverse := h.needs
  settled := fun _ => h.forward
  compensating := fun _ j hj => .inr (h.inverse j hj)
  compensated := hd
  completed := fun he => absurd he hc

end Quiet

theorem Advance.inv {lossy : Prop} {ended saga : SagaState} {es es' : List Effect}
    (hquiet : ∀ e ∈ es, Quiet e) (hpairs : es.Pairwise Pair) (hend : ended = .failed ∨ ended = .compensated)
    (h : Advance lossy .compensating ended es saga es') : Inv ⟨saga, es'⟩ := by
  cases h with
  | stuck owed => exact ⟨fun e he => (hquiet e he).each (by simp) (by simp) (by simp), hpairs⟩
  | ended none =>
    refine ⟨fun e he => (hquiet e he).each ?_ ?_ fun _ => none e he, hpairs⟩
    · rcases hend with rfl | rfl <;> simp
    · rcases hend with rfl | rfl <;> simp
  | missed mem owed why => exact ⟨fun e he => (hquiet e he).each (by simp) (by simp) (by simp), hpairs⟩
  | @next pre post e split owed last fresh =>
    subst split
    have hbase : Inv ⟨.compensating, pre ++ e :: post⟩ :=
      ⟨fun e he => (hquiet e he).each (by simp) (by simp) (by simp), hpairs⟩
    have hq := hquiet e (by simp)
    refine hbase.replace ?_ (fun a ha hea hp => ⟨hea, ?_⟩) fun b hb heb hp => ⟨heb, ?_⟩
    · refine ⟨by simp, fun he => absurd he hq.not_inFlight, ?_, fun _ => ⟨owed.1, owed.2.1⟩, fun _ => hq.forward, ?_,
        by simp, by simp⟩
      · rintro j hj hin
        cases hj
        cases hin
      · rintro - j hj
        cases hj
        exact .inl (.inl rfl)
    · -- An earlier effect with an inverse would have ruled this one out.
      have hnone : a.inverse = none := by
        by_contra hne
        exact hp.reverse hne owed
      exact ⟨hp.serial, fun hne => absurd hnone hne, fun hpend => absurd hpend (hquiet a (by simp [ha])).not_pending⟩
    · exact ⟨hp.serial, fun _ => last b hb, fun _ => (hquiet b (by simp [hb])).not_pending⟩

/-! ### One effect at work -/

section

variable {state : SagaState} {pre post : List Effect} {e : Effect} {j : Job}

theorem Job.Waiting.ne_succeeded (h : j.Waiting) : j.state ≠ .succeeded := by
  rcases h with h | h | h <;> simp [h]

/-- While an effect is in flight, the ones before it are done and the ones after it untouched. -/
theorem Inv.around_inFlight (h : Inv ⟨state, pre ++ e :: post⟩) (hin : e.forward.state = .inFlight) :
    state = .running ∧ (∀ a ∈ pre, a.Done ∧ a.inverse = none) ∧ (∀ b ∈ post, b.Untouched ∧ b.inverse = none) ∧
      e.inverse = none := by
  obtain ⟨he, hpre, hpost⟩ := h.split
  have hrun := he.inFlight hin
  refine ⟨hrun, fun a ha => ⟨?_, ((hpre a ha).1.running hrun).1⟩, fun b hb => ⟨?_, ((hpost b hb).1.running hrun).1⟩,
    (he.running hrun).1⟩
  · refine ((hpre a ha).2.serial).resolve_right fun hu => ?_
    rcases hu.2 with hu | hu <;> simp [hin] at hu
  · refine ((hpost b hb).2.serial).resolve_left fun hd => ?_
    simp [Effect.Done, hin] at hd

/-- While an inverse waits, every other inverse has succeeded. -/
theorem Inv.around_waiting (h : Inv ⟨.compensating, pre ++ e :: post⟩) (hj : e.inverse = some j) (hw : j.Waiting) :
    ∀ x, x ∈ pre ∨ x ∈ post → ∀ i, x.inverse = some i → i.state = .succeeded := by
  obtain ⟨-, hpre, hpost⟩ := h.split
  have hpend : e.Pending := ⟨j, hj, hw.ne_succeeded⟩
  intro x hx i hi
  by_contra hne
  rcases hx with hx | hx
  · exact (hpre x hx).2.single ⟨i, hi, hne⟩ hpend
  · exact (hpost x hx).2.single hpend ⟨i, hi, hne⟩

theorem Effect.Untouched.quiet (h : e.Untouched) (hn : e.inverse = none) : Quiet e :=
  ⟨.inr (.inr h), by simp [hn], by simp [hn]⟩

theorem Effect.Done.quiet (h : e.Done) (hn : e.inverse = none) : Quiet e := ⟨.inl h, by simp [hn], by simp [hn]⟩

theorem pair_of_done {a b : Effect} (h : a.Done) (hn : a.inverse = none) : Pair a b :=
  ⟨.inl h, fun hne => absurd hn hne, fun ⟨i, hi, _⟩ => by simp [hn] at hi⟩

theorem pair_of_untouched {a b : Effect} (h : b.Untouched) (hn : a.inverse = none) : Pair a b :=
  ⟨.inr h, fun hne => absurd hn hne, fun ⟨i, hi, _⟩ => by simp [hn] at hi⟩

/-- A change of the forward job in flight: the others do not care, in whatever state the saga is left. -/
theorem Inv.settleForward {state' : SagaState} {e' : Effect} (h : Inv ⟨state, pre ++ e :: post⟩)
    (hin : e.forward.state = .inFlight) (hi : e'.inverse = none) (each : Each state' e')
    (others : ∀ x, Quiet x → Each state x → Each state' x) : Inv ⟨state', pre ++ e' :: post⟩ := by
  obtain ⟨-, hpre, hpost, hnone⟩ := h.around_inFlight hin
  refine h.replace each (fun a ha hea _ => ?_) fun b hb heb _ => ?_
  · obtain ⟨hd, hn⟩ := hpre a ha
    exact ⟨others a (hd.quiet hn) hea, pair_of_done hd hn⟩
  · obtain ⟨hu, hn⟩ := hpost b hb
    exact ⟨others b (hu.quiet hn) heb, pair_of_untouched hu hi⟩

/-- A change of the inverse at work. -/
theorem Inv.settleInverse {state' : SagaState} {j' : Job} (h : Inv ⟨.compensating, pre ++ e :: post⟩)
    (hj : e.inverse = some j) (hw : j.Waiting) (each : Each state' { e with inverse := some j' })
    (others : ∀ x, Quiet x → Each state' x) : Inv ⟨state', pre ++ { e with inverse := some j' } :: post⟩ := by
  have hrest := h.around_waiting hj hw
  have hne : e.inverse ≠ none := by simp [hj]
  have hquiet : ∀ x, x ∈ pre ∨ x ∈ post → Each .compensating x → Quiet x := fun x hx he =>
    ⟨he.settled (.inl rfl), hrest x hx, he.inverse⟩
  -- The effect is owed as long as its inverse has not succeeded, so it can only be owed less.
  have howed : ({ e with inverse := some j' } : Effect).Owed → e.Owed := by
    rintro ⟨hr, hd, -⟩
    refine ⟨hr, hd, ?_⟩
    rintro ⟨i, hi, hs⟩
    rw [hj] at hi
    cases hi
    exact hw.ne_succeeded hs
  refine h.replace each (fun a ha hea hp => ?_) fun b hb heb hp => ?_
  · have hq := hquiet a (.inl ha) hea
    exact ⟨others a hq, hp.serial, fun hn ho => hp.reverse hn (howed ho), fun hpend => absurd hpend hq.not_pending⟩
  · have hq := hquiet b (.inr hb) heb
    exact ⟨others b hq, hp.serial, fun _ => hp.reverse hne, fun _ => hq.not_pending⟩

end

/-! ### One effect settled -/

section

variable {state : SagaState} {pre post : List Effect} {e : Effect} {j : Job}

/-- A failure leaves nobody at work. -/
theorem Inv.quiet_failed (h : Inv ⟨state, pre ++ e :: post⟩) (hin : e.forward.state = .inFlight) :
    ∀ x ∈ pre ++ { e with forward := e.forward.withState .failedPermanent } :: post, Quiet x := by
  obtain ⟨-, hpre, hpost, hnone⟩ := h.around_inFlight hin
  intro x hx
  rcases List.mem_append.1 hx with hx | hx
  · exact (hpre x hx).1.quiet (hpre x hx).2
  rcases List.mem_cons.1 hx with rfl | hx
  · exact ⟨.inr (.inl rfl), by simp [hnone], by simp [hnone]⟩
  · exact (hpost x hx).1.quiet (hpost x hx).2

theorem Inv.pairs_failed (h : Inv ⟨state, pre ++ e :: post⟩) (hin : e.forward.state = .inFlight) :
    (pre ++ { e with forward := e.forward.withState .failedPermanent } :: post).Pairwise Pair := by
  obtain ⟨-, -, -, hnone⟩ := h.around_inFlight hin
  have hquiet : Quiet { e with forward := e.forward.withState .failedPermanent } := h.quiet_failed hin _ (by simp)
  have heach : Each .failed _ := hquiet.each (by simp) (by simp) (by simp)
  have hfailed : Inv ⟨.failed, pre ++ { e with forward := e.forward.withState .failedPermanent } :: post⟩ :=
    h.settleForward hin hnone heach fun x hq _ => hq.each (by simp) (by simp) (by simp)
  exact hfailed.pairs

/-- So does the inverse at work, once it succeeded. -/
theorem Inv.quiet_undone (h : Inv ⟨.compensating, pre ++ e :: post⟩) (hj : e.inverse = some j)
    (hin : j.state = .inFlight) : ∀ x ∈ pre ++ { e with inverse := some (j.withState .succeeded) } :: post, Quiet x := by
  obtain ⟨he, hpre, hpost⟩ := h.split
  have hrest := h.around_waiting hj (.inr (.inr hin))
  intro x hx
  rcases List.mem_append.1 hx with hx | hx
  · exact ⟨(hpre x hx).1.settled (.inl rfl), hrest x (.inl hx), (hpre x hx).1.inverse⟩
  rcases List.mem_cons.1 hx with rfl | hx
  · refine ⟨he.settled (.inl rfl), ?_, fun _ => he.inverse (by simp [hj])⟩
    rintro i hi
    cases hi
    rfl
  · exact ⟨(hpost x hx).1.settled (.inl rfl), hrest x (.inr hx), (hpost x hx).1.inverse⟩

theorem Inv.pairs_undone (h : Inv ⟨.compensating, pre ++ e :: post⟩) (hj : e.inverse = some j)
    (hin : j.state = .inFlight) :
    (pre ++ { e with inverse := some (j.withState .succeeded) } :: post).Pairwise Pair := by
  have hquiet : Quiet { e with inverse := some (j.withState .succeeded) } := h.quiet_undone hj hin _ (by simp)
  have heach : Each .blockedCompensation _ := hquiet.each (by simp) (by simp) (by simp)
  exact (h.settleInverse hj (.inr (.inr hin)) heach fun x hq => hq.each (by simp) (by simp) (by simp)).pairs

/-- A new effect comes last. -/
theorem Inv.enqueue {es : List Effect} (h : Inv ⟨.running, es⟩) (new : e.forward = .new) (none : e.inverse = none) :
    Inv ⟨.running, es ++ [e]⟩ := by
  have hu : e.Untouched := by simp [Effect.Untouched, new, Job.new]
  refine ⟨fun x hx => ?_, ?_⟩
  · rcases List.mem_append.1 hx with hx | hx
    · exact h.each x hx
    · rw [List.mem_singleton.1 hx]
      refine ⟨fun _ => ⟨none, .inl (.inl (by simp [new, Job.new]))⟩, fun _ => rfl, by simp [none], by simp [none],
        by simp, by simp, by simp, by simp⟩
  · refine List.pairwise_append.2 ⟨h.pairs, List.pairwise_singleton _ _, fun a ha b hb => ?_⟩
    rw [List.mem_singleton.1 hb]
    exact pair_of_untouched hu ((h.each a ha).running rfl).1

/-- The inverse at work goes on as another attempt, or waits for one. -/
theorem Inv.reworkInverse (h : Inv ⟨.compensating, pre ++ e :: post⟩) (hj : e.inverse = some j) (hw : j.Waiting)
    {j' : Job} (hw' : j'.Waiting) : Inv ⟨.compensating, pre ++ { e with inverse := some j' } :: post⟩ := by
  obtain ⟨he, -, -⟩ := h.split
  have hneeds := he.inverse (by simp [hj])
  refine h.settleInverse hj hw ?_ fun x hq => hq.each (by simp) (by simp) (by simp)
  refine ⟨by simp, he.inFlight, fun _ _ _ => rfl, fun _ => hneeds, he.settled, ?_, by simp, by simp⟩
  rintro - i hi
  cases hi
  exact .inl hw'

theorem Inv.block {st : DispatchState} {saga : SagaState} (h : Inv ⟨state, pre ++ e :: post⟩)
    (hin : e.forward.state = .inFlight) (hto : st ≠ .inFlight) (hsaga : saga = .blockedUnknown ∨ saga = .blockedFence) :
    Inv ⟨saga, pre ++ { e with forward := e.forward.withState st } :: post⟩ := by
  obtain ⟨-, -, -, hnone⟩ := h.around_inFlight hin
  refine h.settleForward hin hnone ?_ fun x hq _ => ?_
  · refine ⟨?_, fun hin => absurd hin hto, by simp [hnone], by simp [hnone], ?_, ?_, ?_, ?_⟩ <;>
      rcases hsaga with rfl | rfl <;> simp
  · rcases hsaga with rfl | rfl <;> exact hq.each (by simp) (by simp) (by simp)

theorem Inv.blockInverse {st : DispatchState} {saga : SagaState} (h : Inv ⟨.compensating, pre ++ e :: post⟩)
    (hj : e.inverse = some j) (hin : j.state = .inFlight) (hto : st ≠ .inFlight)
    (hsaga : saga = .blockedCompensation ∨ saga = .blockedFence) :
    Inv ⟨saga, pre ++ { e with inverse := some (j.withState st) } :: post⟩ := by
  obtain ⟨he, -, -⟩ := h.split
  have hneeds := he.inverse (by simp [hj])
  have hforward : e.forward.state ≠ .inFlight := fun hin => by simpa using he.inFlight hin
  refine h.settleInverse hj (.inr (.inr hin)) ?_ fun x hq => ?_
  · refine ⟨?_, fun hin => absurd hin hforward, ?_, fun _ => hneeds, ?_, ?_, ?_, ?_⟩
    case refine_2 =>
      rintro i hi hin
      cases hi
      exact absurd hin hto
    all_goals rcases hsaga with rfl | rfl <;> simp
  · rcases hsaga with rfl | rfl <;> exact hq.each (by simp) (by simp) (by simp)

end

/-! ### Stopping -/

namespace Effect

variable {e e' : Effect} {a b a' b' : Effect}

/-- What stopping an effect's inverse leaves as it was. -/
structure Stopped (e e' : Effect) : Prop where
  reversible : e'.reversible = e.reversible
  done : e'.Done ↔ e.Done
  untouched : e.Untouched → e'.Untouched
  failed : e.forward.state = .failedPermanent → e'.forward.state = .failedPermanent
  inFlight : e'.forward.state = .inFlight → e.forward.state = .inFlight
  some : e'.inverse ≠ none ↔ e.inverse ≠ none
  undone : e'.Undone ↔ e.Undone
  pending : e'.Pending → e.Pending
  idle : ∀ j, e'.inverse = .some j → j.state ≠ .inFlight

theorem closes_waiting {j j' : Job} (h : j.Closes j') (hw : j.Waiting) :
    j'.state = .canceled ∨ j'.state = .blockedUnknown := by
  rcases hw with hw | hw | hw
  · exact .inl (h.queued hw)
  · exact h.retryWait hw
  · exact .inr (h.inFlight hw)

theorem closes_succeeded {j j' : Job} (h : j.Closes j') : j'.state = .succeeded ↔ j.state = .succeeded := by
  by_cases hw : j.Waiting
  · have hne := hw.ne_succeeded
    rcases closes_waiting h hw with h | h <;> simp [h, hne]
  · rw [h.settled hw]

theorem closes_inFlight {j j' : Job} (h : j.Closes j') : j'.state ≠ .inFlight := by
  by_cases hw : j.Waiting
  · rcases closes_waiting h hw with h | h <;> simp [h]
  · rw [h.settled hw]
    intro hin
    exact hw (.inr (.inr hin))

theorem stopped_inverse {i i' : Option Job} (h : Option.Rel Job.Closes i i') :
    (i' ≠ none ↔ i ≠ none) ∧ ((∃ j, i' = .some j ∧ j.state = .succeeded) ↔ ∃ j, i = .some j ∧ j.state = .succeeded) ∧
      ((∃ j, i' = .some j ∧ j.state ≠ .succeeded) → ∃ j, i = .some j ∧ j.state ≠ .succeeded) ∧
      ∀ j, i' = .some j → j.state ≠ .inFlight := by
  cases h with
  | none => simp
  | some h => simpa [closes_succeeded h] using closes_inFlight h

theorem Closes.stopped (h : Closes e e') : Stopped e e' := by
  obtain ⟨h₁, h₂, h₃, h₄⟩ := stopped_inverse h.inverse
  refine ⟨h.reversible, closes_succeeded h.forward, ?_, ?_, fun hin => absurd hin (closes_inFlight h.forward), h₁, h₂,
    h₃, h₄⟩
  · rintro ⟨h0, hq | hc⟩
    · exact ⟨h.forward.attempt.trans h0, .inr (h.forward.queued hq)⟩
    · have hnw : ¬e.forward.Waiting := by simp [Job.Waiting, hc]
      exact ⟨h.forward.attempt.trans h0, .inr ((h.forward.settled hnw).trans hc)⟩
  · intro hf
    have hnw : ¬e.forward.Waiting := by simp [Job.Waiting, hf]
    exact (h.forward.settled hnw).trans hf

theorem ClosesInverse.stopped (h : ClosesInverse e e') : Stopped e e' := by
  obtain ⟨h₁, h₂, h₃, h₄⟩ := stopped_inverse h.inverse
  have hf := h.forward
  exact ⟨h.reversible, by rw [Done, Done, hf], by rw [Untouched, Untouched, hf]; exact id, by rw [hf]; exact id,
    by rw [hf]; exact id, h₁, h₂, h₃, h₄⟩

theorem Stopped.standing (h : Stopped e e') : e'.Standing ↔ e.Standing := by rw [Standing, Standing, h.done, h.undone]

theorem Stopped.owed (h : Stopped e e') : e'.Owed ↔ e.Owed := by rw [Owed, Owed, h.reversible, h.standing]

theorem Stopped.pair (ha : Stopped a a') (hb : Stopped b b') (h : Pair a b) : Pair a' b' where
  serial := h.serial.imp ha.done.2 hb.untouched
  reverse := fun hn ho => h.reverse (ha.some.1 hn) (hb.owed.1 ho)
  single := fun hp hp' => h.single (ha.pending hp) (hb.pending hp')

/-- A stopped effect fits a state that is not open, if it fitted the one before. -/
theorem Stopped.each {state state' : SagaState} (h : Stopped e e') (hin : e'.forward.state ≠ .inFlight)
    (he : Each state e) (hopen : state' ≠ .running ∧ state' ≠ .compensating)
    (hsame : state' = .compensated ∨ state' = .completed → state' = state) : Each state' e' where
  running := fun hr => absurd hr hopen.1
  inFlight := fun hr => absurd hr hin
  inverseInFlight := fun j hj hr => absurd hr (h.idle j hj)
  inverse := fun hn => by
    rw [h.reversible, h.done]
    exact he.inverse (h.some.1 hn)
  settled := fun hc => by
    have hc := hc.resolve_left hopen.2
    have heq := hsame (.inl hc)
    exact (he.settled (.inr (heq ▸ hc))).imp h.done.2 (Or.imp h.failed h.untouched)
  compensating := fun hc => absurd hc hopen.2
  compensated := fun hc => by
    rw [h.standing]
    exact he.compensated (hsame (.inl hc) ▸ hc)
  completed := fun hc => by
    obtain ⟨hd, hn⟩ := he.completed (hsame (.inr hc) ▸ hc)
    refine ⟨h.done.2 hd, ?_⟩
    by_contra hne
    exact h.some.1 hne hn

end Effect

theorem exists_left_of_mem {R : Effect → Effect → Prop} :
    ∀ {es es' : List Effect}, List.Forall₂ R es es' → ∀ e' ∈ es', ∃ e ∈ es, R e e'
  | _, _, .cons hr hrest, e', he => by
    rcases List.mem_cons.1 he with rfl | he
    · exact ⟨_, List.mem_cons_self .., hr⟩
    · obtain ⟨e, hm, h⟩ := exists_left_of_mem hrest e' he
      exact ⟨e, List.mem_cons_of_mem _ hm, h⟩

theorem pairwise_of_forall₂ {R : Effect → Effect → Prop} (hR : ∀ {e e'}, R e e' → e.Stopped e') :
    ∀ {es es' : List Effect}, List.Forall₂ R es es' → es.Pairwise Pair → es'.Pairwise Pair
  | _, _, .nil, _ => .nil
  | _, _, .cons hr hrest, hp => by
    obtain ⟨hhead, htail⟩ := List.pairwise_cons.1 hp
    refine List.pairwise_cons.2 ⟨fun b' hb' => ?_, pairwise_of_forall₂ hR hrest htail⟩
    obtain ⟨b, hb, hbr⟩ := exists_left_of_mem hrest b' hb'
    exact (hR hr).pair (hR hbr) (hhead b hb)

/-! ### Every step -/

theorem Step.inv {lossy : Prop} {p q : Saga} (h : Inv p) (hs : Step lossy p q) : Inv q := by
  obtain ⟨state, effects⟩ := p
  cases hs with
  | @enqueue e running new none =>
    dsimp only at running ⊢
    subst running
    exact h.enqueue new none
  | @claim pre post e split running before waiting =>
    dsimp only at split running ⊢
    subst split running
    obtain ⟨he, hpre, hpost⟩ := h.split
    have hnone := (he.running rfl).1
    refine h.replace ?_ (fun a ha hea _ => ⟨hea, ?_⟩) fun b hb heb hp => ⟨heb, ?_⟩
    · exact ⟨fun _ => ⟨hnone, .inl (.inr (.inr rfl))⟩, fun _ => rfl, by simp [hnone], by simp [hnone], by simp, by simp,
        by simp, by simp⟩
    · exact pair_of_done (before a ha) (hea.running rfl).1
    · exact pair_of_untouched (hp.serial.resolve_left waiting.ne_succeeded) hnone
  | @claimInverse pre post e j split compensating inverse waiting =>
    dsimp only at split compensating ⊢
    subst split compensating
    exact h.reworkInverse inverse waiting (.inr (.inr rfl))
  | @settle pre post e st split inFlight target =>
    dsimp only at split ⊢
    subst split
    obtain ⟨hrun, -, -, hnone⟩ := h.around_inFlight inFlight
    subst hrun
    refine h.settleForward inFlight hnone ?_ fun x _ hx => hx
    refine ⟨fun _ => ⟨hnone, ?_⟩, fun _ => rfl, by simp [hnone], by simp [hnone], by simp, by simp, by simp, by simp⟩
    rcases target with rfl | rfl
    · exact .inr rfl
    · exact .inl (.inr (.inl rfl))
  | @retryInverse pre post e j split inverse inFlight =>
    dsimp only at split ⊢
    subst split
    obtain rfl := h.split.1.inverseInFlight j inverse inFlight
    exact h.reworkInverse inverse (.inr (.inr inFlight)) (.inr (.inl rfl))
  | @block pre post e st saga split inFlight target =>
    dsimp only at split ⊢
    subst split
    have hto : st ≠ .inFlight := by rcases target with ⟨rfl, -⟩ | ⟨rfl, -⟩ <;> simp
    exact h.block inFlight hto (target.imp And.right And.right)
  | @blockInverse pre post e j st saga split inverse inFlight target =>
    dsimp only at split ⊢
    subst split
    obtain rfl := h.split.1.inverseInFlight j inverse inFlight
    have hto : st ≠ .inFlight := by rcases target with ⟨rfl | rfl, -⟩ | ⟨rfl, -⟩ <;> simp
    exact h.blockInverse inverse inFlight hto (target.imp And.right And.right)
  | @fail pre post es e saga split inFlight advance =>
    dsimp only at split
    subst split
    exact advance.inv (h.quiet_failed inFlight) (h.pairs_failed inFlight) (.inl rfl)
  | @undo pre post es e j saga split inverse inFlight advance =>
    dsimp only at split advance
    subst split
    obtain rfl := h.split.1.inverseInFlight j inverse inFlight
    exact advance.inv (h.quiet_undone inverse inFlight) (h.pairs_undone inverse inFlight) (.inr rfl)
  | complete running all =>
    dsimp only at running all ⊢
    subst running
    refine ⟨fun e he => ?_, h.pairs⟩
    have hnone := ((h.each e he).running rfl).1
    have hd := all e he
    refine ⟨by simp, fun hin => ?_, by simp [hnone], by simp [hnone], by simp, by simp, by simp, fun _ => ⟨hd, hnone⟩⟩
    simp [Effect.Done, hin] at hd
  | @stop es saga closes target =>
    dsimp only at closes target
    refine ⟨fun e' he' => ?_, pairwise_of_forall₂ Effect.Closes.stopped closes h.pairs⟩
    obtain ⟨e, he, hc⟩ := exists_left_of_mem closes e' he'
    refine hc.stopped.each (Effect.closes_inFlight hc.forward) (h.each e he) ?_ ?_
    · cases target with
      | kept _ closed => exact closed
      | unknown | failed | depends => simp
    · cases target with
      | kept => exact fun _ => rfl
      | unknown | failed | depends => simp
  | @blockCompensation es saga compensating closes target =>
    dsimp only at compensating closes
    subst compensating
    refine ⟨fun e' he' => ?_, pairwise_of_forall₂ Effect.ClosesInverse.stopped closes h.pairs⟩
    obtain ⟨e, he, hc⟩ := exists_left_of_mem closes e' he'
    refine hc.stopped.each (fun hin => ?_) (h.each e he) ?_ ?_
    · simpa using (h.each e he).inFlight (hc.forward ▸ hin)
    · rcases target with ⟨rfl, -⟩ | ⟨rfl, -⟩ <;> simp
    · rcases target with ⟨rfl, -⟩ | ⟨rfl, -⟩ <;> simp
  | failFast blocked idle =>
    dsimp only at blocked ⊢
    subst blocked
    refine ⟨fun e he => ?_, h.pairs⟩
    have h := h.each e he
    exact ⟨by simp, fun hin => by simpa using h.inFlight hin, fun j hj hin => by simpa using h.inverseInFlight j hj hin,
      h.inverse, by simp, by simp, by simp, by simp⟩

/-! ### Progress while compensating -/

theorem live_of_waiting {state : SagaState} {pre post : List Effect} {e : Effect} {j : Job} (hw : j.Waiting) :
    Live ⟨state, pre ++ { e with inverse := some j } :: post⟩ :=
  fun _ => ⟨{ e with inverse := some j }, by simp, j, rfl, hw⟩

theorem Advance.live {ended saga : SagaState} {es es' : List Effect} (hend : ended ≠ .compensating)
    (h : Advance False .compensating ended es saga es') : Live ⟨saga, es'⟩ := by
  cases h with
  | stuck => exact fun hc => by cases hc
  | ended => exact fun hc => absurd hc hend
  | next => exact live_of_waiting (.inl rfl)
  | missed mem owed why => exact why.elim

theorem Step.live {p q : Saga} (h : Inv p) (hl : Live p) (hs : Step False p q) : Live q := by
  obtain ⟨state, effects⟩ := p
  cases hs with
  | enqueue running | claim _ running =>
    intro hc
    simp_all
  | claimInverse => exact live_of_waiting (.inr (.inr rfl))
  | settle split inFlight =>
    dsimp only at split
    subst split
    intro hc
    simp [h.split.1.inFlight inFlight] at hc
  | retryInverse => exact live_of_waiting (.inr (.inl rfl))
  | block _ _ target | blockInverse _ _ _ target | blockCompensation _ _ target =>
    intro hc
    simp_all
  | stop _ target =>
    intro hc
    cases target with
    | kept _ closed => exact absurd hc closed.2
    | unknown | failed | depends => simp at hc
  | fail split inFlight advance =>
    dsimp only at split
    subst split
    exact advance.live (by simp)
  | undo split inverse inFlight advance =>
    dsimp only at split advance
    subst split
    obtain rfl := h.split.1.inverseInFlight _ inverse inFlight
    exact advance.live (by simp)
  | complete | failFast => exact fun hc => by simp at hc

/-! ### No way back to running -/

theorem Step.running {lossy : Prop} {p q : Saga} (h : Inv p) (hs : Step lossy p q) (hq : q.state = .running) :
    p.state = .running := by
  obtain ⟨state, effects⟩ := p
  cases hs with
  | enqueue running | claim _ running => exact running
  | claimInverse | settle | retryInverse => exact hq
  | block _ _ target | blockInverse _ _ _ target | blockCompensation _ _ target => simp_all
  | stop _ target =>
    cases target with
    | kept => exact hq
    | unknown | failed | depends => simp at hq
  | fail _ _ advance => cases advance <;> simp at hq
  | undo split inverse inFlight advance =>
    dsimp only at split advance
    subst split
    obtain rfl := h.split.1.inverseInFlight _ inverse inFlight
    cases advance <;> simp at hq
  | complete | failFast => simp at hq

/-! ### No inverse is lost -/

/-- An effect is still there, with its inverse if it had one. -/
def Kept (e : Effect) (es : List Effect) : Prop :=
  ∃ e' ∈ es, e'.name = e.name ∧ (e.inverse ≠ none → e'.inverse ≠ none)

theorem kept_of_mem {e : Effect} {es : List Effect} (h : e ∈ es) : Kept e es := ⟨e, h, rfl, id⟩

theorem kept_of_replace {pre post : List Effect} {e e' x : Effect} (hx : x ∈ pre ++ e :: post)
    (hname : e'.name = e.name) (hinv : e.inverse ≠ none → e'.inverse ≠ none) : Kept x (pre ++ e' :: post) := by
  rcases List.mem_append.1 hx with hx | hx
  · exact kept_of_mem (by simp [hx])
  rcases List.mem_cons.1 hx with rfl | hx
  · exact ⟨e', by simp, hname, hinv⟩
  · exact kept_of_mem (by simp [hx])

theorem Advance.kept {lossy : Prop} {working ended saga : SagaState} {es es' : List Effect}
    (h : Advance lossy working ended es saga es') {x : Effect} (hx : x ∈ es) : Kept x es' := by
  cases h with
  | stuck | ended | missed => exact kept_of_mem hx
  | next split =>
    subst split
    exact kept_of_replace hx rfl (by simp)

theorem Kept.advance {lossy : Prop} {working ended saga : SagaState} {e : Effect} {es es' : List Effect}
    (ha : Advance lossy working ended es saga es') (h : Kept e es) : Kept e es' := by
  obtain ⟨x, hx, hname, hinv⟩ := h
  obtain ⟨y, hy, hname', hinv'⟩ := ha.kept hx
  exact ⟨y, hy, hname'.trans hname, fun hne => hinv' (hinv hne)⟩

theorem exists_right_of_mem {R : Effect → Effect → Prop} {es es' : List Effect} (h : List.Forall₂ R es es') :
    ∀ e ∈ es, ∃ e' ∈ es', R e e' := fun e he => by
  obtain ⟨e', he', hr⟩ := exists_left_of_mem h.flip e he
  exact ⟨e', he', hr⟩

theorem Step.kept {lossy : Prop} {p q : Saga} (hs : Step lossy p q) : ∀ e ∈ p.effects, Kept e q.effects := by
  obtain ⟨state, effects⟩ := p
  intro x hx
  cases hs with
  | enqueue => exact kept_of_mem (List.mem_append_left _ hx)
  | claim split | settle split | block split =>
    dsimp only at split
    subst split
    exact kept_of_replace hx rfl id
  | claimInverse split | retryInverse split | blockInverse split =>
    dsimp only at split
    subst split
    exact kept_of_replace hx rfl (by simp)
  | fail split _ advance =>
    dsimp only at split
    subst split
    exact .advance advance (kept_of_replace hx rfl id)
  | undo split _ _ advance =>
    dsimp only at split
    subst split
    exact .advance advance (kept_of_replace hx rfl (by simp))
  | complete | failFast => exact kept_of_mem hx
  | stop closes =>
    obtain ⟨x', hx', hc⟩ := exists_right_of_mem closes x hx
    exact ⟨x', hx', hc.name, hc.stopped.some.2⟩
  | blockCompensation _ closes =>
    obtain ⟨x', hx', hc⟩ := exists_right_of_mem closes x hx
    exact ⟨x', hx', hc.name, hc.stopped.some.2⟩

/-- Nothing is owed once a saga has failed or is compensated, or if it was blocked before anything was undone. -/
def Spent (p : Saga) : Prop :=
  p.state = .failed ∨ p.state = .compensated ∨ p.state = .blockedCompensation ∧ (∀ e ∈ p.effects, e.inverse = none) →
    ∀ e ∈ p.effects, ¬e.Owed

theorem spent_of_ne {p : Saga} (hf : p.state ≠ .failed) (hc : p.state ≠ .compensated)
    (hb : p.state ≠ .blockedCompensation) : Spent p := by
  rintro (h | h | ⟨h, -⟩)
  · exact absurd h hf
  · exact absurd h hc
  · exact absurd h hb

theorem Advance.spent {ended saga : SagaState} {es es' : List Effect}
    (h : Advance False .compensating ended es saga es') : Spent ⟨saga, es'⟩ := by
  cases h with
  | stuck owed => exact fun _ => owed
  | ended none => exact fun _ e he ho => none e he ho.2
  | next => exact spent_of_ne (by simp) (by simp) (by simp)
  | missed _ _ why => exact why.elim

theorem Step.spent {p q : Saga} (h : Inv p) (hl : Live p) (hspent : Spent p) (hs : Step False p q) : Spent q := by
  obtain ⟨state, effects⟩ := p
  cases hs with
  | enqueue running | claim _ running | claimInverse _ running =>
    dsimp only at running
    subst running
    exact spent_of_ne (by simp) (by simp) (by simp)
  | settle split inFlight =>
    dsimp only at split ⊢
    subst split
    obtain rfl := h.split.1.inFlight inFlight
    exact spent_of_ne (by simp) (by simp) (by simp)
  | retryInverse split inverse inFlight =>
    dsimp only at split ⊢
    subst split
    obtain rfl := h.split.1.inverseInFlight _ inverse inFlight
    exact spent_of_ne (by simp) (by simp) (by simp)
  | block _ _ target => rcases target with ⟨-, rfl⟩ | ⟨-, rfl⟩ <;> exact spent_of_ne (by simp) (by simp) (by simp)
  | blockInverse _ _ _ target =>
    rcases target with ⟨-, rfl⟩ | ⟨-, rfl⟩
    · rintro (hc | hc | ⟨-, hnone⟩)
      · cases hc
      · cases hc
      · simpa using hnone _ (List.mem_append_right _ (List.mem_cons_self ..))
    · exact spent_of_ne (by simp) (by simp) (by simp)
  | fail _ _ advance => exact advance.spent
  | undo split inverse inFlight advance =>
    dsimp only at split advance
    subst split
    obtain rfl := h.split.1.inverseInFlight _ inverse inFlight
    exact advance.spent
  | complete => exact spent_of_ne (by simp) (by simp) (by simp)
  | stop closes target =>
    cases target with
    | unknown | depends => exact spent_of_ne (by simp) (by simp) (by simp)
    | failed _ _ none => exact fun _ e he ho => none e he ho.2.1
    | kept =>
      -- Closing leaves open what was owed and which effects have an inverse.
      intro hover e' he' ho
      obtain ⟨e, he, hc⟩ := exists_left_of_mem closes e' he'
      refine hspent (hover.imp_right (Or.imp_right fun hb => ⟨hb.1, fun x hx => ?_⟩)) e he (hc.stopped.owed.1 ho)
      obtain ⟨x', hx', hcx⟩ := exists_right_of_mem closes x hx
      by_contra hne
      exact hcx.stopped.some.2 hne (hb.2 x' hx')
  | blockCompensation compensating closes target =>
    rcases target with ⟨rfl, -⟩ | ⟨rfl, -⟩
    · exact spent_of_ne (by simp) (by simp) (by simp)
    · -- The inverse that was at work is still there.
      rintro (hc | hc | ⟨-, hnone⟩)
      · cases hc
      · cases hc
      · obtain ⟨e, he, j, hj, -⟩ := hl compensating
        obtain ⟨e', he', hc⟩ := exists_right_of_mem closes e he
        exact absurd (hnone e' he') (hc.stopped.some.2 (by simp [hj]))
  | failFast blocked idle => exact fun _ => hspent (.inr (.inr ⟨blocked, fun e he => (idle e he).1⟩))

theorem not_strands {p : Saga} (hl : Live p) (hspent : Spent p) : ¬p.Strands := by
  rintro ⟨hc | hc | hc, ⟨e, he, ho⟩, hnone⟩
  · obtain ⟨x, hx, j, hj, hw⟩ := hl hc
    exact hnone x hx j hj hw
  · exact hspent (.inr (.inl hc)) e he ho
  · exact hspent (.inl hc) e he ho

theorem not_loses {p q : Saga} (hkept : ∀ e ∈ p.effects, Kept e q.effects) (hl : Live q) (hspent : Spent q) :
    ¬Loses p q := by
  rintro (⟨e, he, hne, hgone⟩ | hstrands)
  · obtain ⟨e', he', hname, hinv⟩ := hkept e he
    exact hinv hne (hgone e' he' hname)
  · exact not_strands hl hspent hstrands

end Protocol
end Effectus

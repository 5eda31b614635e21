import Effectus.Theorems.Outbox.Serial

/-! Undoing a saga. Inverses are queued last step first, one at a time; a saga that is compensated has
    nothing left standing, and no saga goes back to running. -/

namespace Effectus
namespace Store

open Protocol (Job Effect Saga Inv Pair Each)

variable {s t : Store}

/-- The inverses of a saga. -/
def inversesOf (s : Store) (sagaID : Text) : List Dispatch :=
  s.dispatches.filter fun d => decide (d.sagaID = sagaID ∧ d.direction = .compensation)

theorem mem_inversesOf {sagaID : Text} {d : Dispatch} :
    d ∈ s.inversesOf sagaID ↔ d ∈ s.dispatches ∧ d.sagaID = sagaID ∧ d.direction = .compensation := by
  simp [inversesOf]

section

variable [Platform]

/-- At some point of the run the step under this key was in the state succeeded. -/
def EverSucceeded (ops : List Op) (key : Text × Text) : Prop :=
  ∃ pre, pre <+: ops ∧ ∃ step ∈ (empty.run pre).steps, stepKey step = key ∧ step.state = .succeeded

/-! ### What lasts -/

theorem run_extends {pre ops : List Op} (h : pre <+: ops) : ∃ post, (empty.run pre).run post = empty.run ops := by
  obtain ⟨post, rfl⟩ := h
  exact ⟨post, (run_append ..).symm⟩

/-- A forward dispatch that succeeded stays so. -/
def Succeeded (key : Text × Text) (s : Store) : Prop :=
  ∃ d ∈ s.dispatches, effectKey d = key ∧ d.direction = .forward ∧ d.state = .succeeded

theorem Succeeded.trans {key : Text × Text} (hs : Shape s) (h : Succeeded key s) (ht : Trans s t) :
    Succeeded key t := by
  obtain ⟨d, hd, hk, hdir, hstate⟩ := h
  obtain ⟨d', hd', hm⟩ := (ht.moves hs).mem hd
  obtain ⟨-, h₁, h₂, -, h₃, -⟩ := Dispatch.core_eq.1 hm.core
  exact ⟨d', hd', by rw [← hk, effectKey, effectKey, h₁, h₂], h₃.trans hdir, hm.succeeded hstate⟩

theorem EverSucceeded.succeeded {ops : List Op} {key : Text × Text} (h : EverSucceeded ops key) :
    Succeeded key (empty.run ops) := by
  obtain ⟨pre, hpre, step, hstep, hk, hstate⟩ := h
  obtain ⟨post, hpost⟩ := run_extends hpre
  have hs := run_shape pre
  rw [← hpost]
  refine (run_keeps (P := Succeeded key) Succeeded.trans hs ?_ post).2
  have hstanding := ((run_sound pre).states.standing hstep).2 hstate
  obtain ⟨d, hd, hof⟩ := hs.forward? hstep
  obtain ⟨h₁, h₂, h₃⟩ := key_of_dispatchOf? hof
  refine ⟨d, hd, by rw [← hk, effectKey, stepKey, h₁, h₂], h₃, ?_⟩
  simpa [Effect.Done, effect, hof, jobOf] using hstanding.1

/-- The saga is there, and has left the state running. -/
def Left (sagaID : Text) (s : Store) : Prop := ∃ p, s.view sagaID = some p ∧ p.state ≠ .running

theorem Left.trans {sagaID : Text} (hs : Shape s) (h : Sound s ∧ Left sagaID s) (ht : Trans s t) :
    Sound t ∧ Left sagaID t := by
  obtain ⟨hsound, p, hp, hleft⟩ := h
  refine ⟨hsound.trans hs ht, ?_⟩
  have hnext := (ht.simulates hs hsound.states hsound.inv).views sagaID
  rw [hp] at hnext
  generalize hq : t.view sagaID = w at hnext
  cases hnext with
  | same => exact ⟨p, hq, hleft⟩
  | step hstep => exact ⟨_, hq, fun hrun => hleft (hstep.running (hsound.inv _ _ hp) hrun)⟩

/-! ### Inverses in view -/

/-- A dispatch that undoes a step shows as the inverse of the step's effect. -/
theorem inverse_view (hs : Shape s) {d : Dispatch} (hd : d ∈ s.dispatches) (hdir : d.direction = .compensation) :
    ∃ x ∈ s.steps, stepKey x = effectKey d ∧ (s.effect x).inverse = some (jobOf d) := by
  obtain ⟨x, hx, hk⟩ := hs.step_of_dispatch hd
  have hof := hs.dispatchOf?_of_mem hd hk
  rw [hdir] at hof
  exact ⟨x, hx, hk, by simp [effect, hof]⟩

theorem saga_of_step (hs : Shape s) {x : SagaStep} (hx : x ∈ s.steps) :
    ∃ saga ∈ s.sagas, s.view x.sagaID = some ⟨saga.state, s.effects x.sagaID⟩ := by
  obtain ⟨saga, hsaga, hid⟩ := hs.stepSaga x hx
  exact ⟨saga, hsaga, view_eq (hid ▸ hs.sagas.get?_of_mem hsaga)⟩

/-- An inverse undoes an effect that was done and can be undone, and is the only one to do so. -/
theorem inverse_spec (hs : Shape s) (h : Sound s) {d : Dispatch} (hd : d ∈ s.dispatches)
    (hdir : d.direction = .compensation) :
    ∃ step ∈ s.steps, stepKey step = effectKey d ∧ step.compensationVerb ≠ [] ∧ Succeeded (effectKey d) s ∧
      ∀ d' ∈ s.dispatches, d'.direction = .compensation → effectKey d' = effectKey d → d' = d := by
  obtain ⟨x, hx, hk, hinv⟩ := inverse_view hs hd hdir
  obtain ⟨saga, -, hview⟩ := saga_of_step hs hx
  obtain ⟨hrev, hdone⟩ := ((h.inv _ _ hview).each _ (mem_effects.2 ⟨x, hx, rfl, rfl⟩)).inverse (by simp [hinv])
  refine ⟨x, hx, hk, by simpa [effect] using hrev, ?_, fun d' hd' hdir' hk' => ?_⟩
  · obtain ⟨f, hf, hof⟩ := hs.forward? hx
    obtain ⟨h₁, h₂, h₃⟩ := key_of_dispatchOf? hof
    refine ⟨f, hf, by rw [← hk, effectKey, stepKey, h₁, h₂], h₃, ?_⟩
    simpa [Effect.Done, effect, hof, jobOf] using hdone
  · have hof := hs.dispatchOf?_of_mem hd hk
    have hof' := hs.dispatchOf?_of_mem hd' (hk.trans hk'.symm)
    rw [hdir', ← hdir, hof] at hof'
    exact (Option.some.inj hof').symm

/-- The effects of two steps in the order of their sequences. -/
theorem pair_of_lt (hs : Shape s) {sagaID : Text} (hp : (s.effects sagaID).Pairwise Pair) {x y : SagaStep}
    (hx : x ∈ s.stepsOf sagaID) (hy : y ∈ s.stepsOf sagaID) (hlt : x.sequence < y.sequence) :
    Pair (s.effect x) (s.effect y) := by
  rw [effects, List.pairwise_map] at hp
  have hsymm : Std.Symm fun a b : SagaStep => (a.sequence < b.sequence → Pair (s.effect a) (s.effect b)) ∧
      (b.sequence < a.sequence → Pair (s.effect b) (s.effect a)) := ⟨fun a b h => h.symm⟩
  have hboth : (s.stepsOf sagaID).Pairwise fun a b => (a.sequence < b.sequence → Pair (s.effect a) (s.effect b)) ∧
      (b.sequence < a.sequence → Pair (s.effect b) (s.effect a)) :=
    ((hs.sequences sagaID).and hp).imp fun h => ⟨fun _ => h.2, fun hba => absurd hba (not_lt.2 h.1.le)⟩
  exact (hboth.forall hx hy fun he => by simp [he] at hlt).1 hlt

/-- A later effect that was done and can be undone was undone before. -/
theorem undone_after (hs : Shape s) (h : Sound s) {d : Dispatch} {x : SagaStep} (hd : d ∈ s.dispatches)
    (hdir : d.direction = .compensation) (hx : x ∈ s.steps) (hid : x.sagaID = d.sagaID)
    (hlt : d.sequence < x.sequence) (hverb : x.compensationVerb ≠ []) (hdone : Succeeded (stepKey x) s) :
    x.state = .compensated := by
  obtain ⟨y, hy, hk, hinv⟩ := inverse_view hs hd hdir
  obtain ⟨saga, -, hview⟩ := saga_of_step hs hx
  rw [hs.sequence_of_key hd hy hk] at hlt
  have hpair := pair_of_lt hs (h.inv _ _ hview).pairs (mem_stepsOf.2 ⟨hy, (Prod.mk.inj hk).1.trans hid.symm⟩)
    (mem_stepsOf.2 ⟨hx, rfl⟩) hlt
  obtain ⟨f, hf, hfk, hfdir, hfstate⟩ := hdone
  have hof := hs.dispatchOf?_of_mem hf hfk.symm
  rw [hfdir] at hof
  have hd' : (s.effect x).Done := by simpa [Effect.Done, effect, hof, jobOf] using hfstate
  rw [h.states x hx, stepState_eq_compensated]
  by_contra hu
  exact hpair.reverse (by simp [hinv]) ⟨by simpa [effect] using hverb, hd', hu⟩

/-- While a saga compensates one of its inverses is at work and the others are done. -/
theorem one_inverse (hs : Shape s) (h : Sound s) (hsep : Separated s) {saga : SagaInstance} (hsaga : saga ∈ s.sagas)
    (hc : saga.state = .compensating) : ∃ d ∈ s.inversesOf saga.sagaID,
      (d.state = .queued ∨ d.state = .inFlight ∨ d.state = .retryWait) ∧
        ∀ d' ∈ s.inversesOf saga.sagaID, d' ≠ d → d'.state = .succeeded := by
  have hview := view_eq (hs.sagas.get?_of_mem hsaga)
  obtain ⟨e, he, j, hj, hw⟩ := h.live hsep _ _ hview hc
  obtain ⟨x, hx, hid, rfl⟩ := mem_effects.1 he
  obtain ⟨d, hof, rfl⟩ := Option.map_eq_some_iff.1 hj
  obtain ⟨h₁, h₂, h₃⟩ := key_of_dispatchOf? hof
  refine ⟨d, mem_inversesOf.2 ⟨mem_of_dispatchOf? hof, h₁.trans hid, h₃⟩, ?_, fun d' hd' hne => ?_⟩
  · rcases hw with hw | hw | hw
    · exact .inl hw
    · exact .inr (.inr hw)
    · exact .inr (.inl hw)
  · obtain ⟨hd', hid', hdir'⟩ := mem_inversesOf.1 hd'
    obtain ⟨y, hy, hk, hinv⟩ := inverse_view hs hd' hdir'
    have hxy : x ≠ y := fun hxy => hne <| by
      have := hs.dispatchOf?_of_mem hd' hk
      rw [hdir', ← hxy, hof] at this
      exact (Option.some.inj this).symm
    by_contra hnot
    have hpx : (s.effect x).Pending := ⟨jobOf d, hj, hw.ne_succeeded⟩
    have hpy : (s.effect y).Pending := ⟨jobOf d', hinv, hnot⟩
    have hmy : y ∈ s.stepsOf saga.sagaID := mem_stepsOf.2 ⟨hy, (Prod.mk.inj hk).1.trans hid'⟩
    rcases pair_or_pair (h.inv _ _ hview).pairs (mem_stepsOf.2 ⟨hx, hid⟩) hmy hxy with hp | hp
    · exact hp.single hpx hpy
    · exact hp.single hpy hpx

/-! ### Every run -/

/-- In every reachable store: an inverse is for a step that succeeded and names a compensation, and there is
    no second one for the step; the later steps that succeeded and name one have been compensated; while a
    saga compensates, one of its inverses is open and the others succeeded, as long as the digest tells the
    store's identities apart; a compensated saga has no succeeded step; and no saga is running again once it
    was not. -/
theorem run_compensation (ops : List Op) (hrun : empty.run ops = s) :
    (∀ d ∈ s.dispatches, d.direction = .compensation →
        ∃ step ∈ s.steps, stepKey step = effectKey d ∧ step.compensationVerb ≠ [] ∧
          (∃ f ∈ s.dispatches, effectKey f = effectKey d ∧ f.direction = .forward ∧ f.state = .succeeded) ∧
          ∀ d' ∈ s.dispatches, d'.direction = .compensation → effectKey d' = effectKey d → d' = d) ∧
      (∀ d ∈ s.dispatches, d.direction = .compensation → ∀ x ∈ s.steps, x.sagaID = d.sagaID →
        d.sequence < x.sequence → x.compensationVerb ≠ [] → EverSucceeded ops (stepKey x) → x.state = .compensated) ∧
      (Separated s → ∀ saga ∈ s.sagas, saga.state = .compensating → ∃ d ∈ s.inversesOf saga.sagaID,
        (d.state = .queued ∨ d.state = .inFlight ∨ d.state = .retryWait) ∧
          ∀ d' ∈ s.inversesOf saga.sagaID, d' ≠ d → d'.state = .succeeded) ∧
      (∀ saga ∈ s.sagas, saga.state = .compensated → ∀ x ∈ s.steps, x.sagaID = saga.sagaID → x.state ≠ .succeeded) ∧
      ∀ pre, pre <+: ops → ∀ saga ∈ (empty.run pre).sagas, saga.state ≠ .running →
        ∀ saga' ∈ s.sagas, saga'.sagaID = saga.sagaID → saga'.state ≠ .running := by
  have hs : Shape s := hrun ▸ run_shape ops
  have h : Sound s := hrun ▸ run_sound ops
  refine ⟨fun d hd hdir => inverse_spec hs h hd hdir, fun d hd hdir x hx hid hlt hverb hever => ?_,
    fun hsep saga hsaga hc => one_inverse hs h hsep hsaga hc, fun saga hsaga hc x hx hid => ?_,
    fun pre hpre saga hsaga hleft saga' hsaga' hid => ?_⟩
  · exact undone_after hs h hd hdir hx hid hlt hverb (hrun ▸ hever.succeeded)
  · have heach := (h.inv _ _ (view_eq (hs.sagas.get?_of_mem hsaga))).each _ (mem_effects.2 ⟨x, hx, hid, rfl⟩)
    rw [Ne, ← h.states.standing hx]
    exact heach.compensated hc
  · obtain ⟨post, hpost⟩ := run_extends hpre
    have hview := view_eq ((run_shape pre).sagas.get?_of_mem hsaga)
    obtain ⟨p, hp, hne⟩ := (run_keeps (P := fun t => Sound t ∧ Left saga.sagaID t) Left.trans (run_shape pre)
      ⟨run_sound pre, _, hview, hleft⟩ post).2.2
    rw [hpost, hrun, ← hid, view_eq (hs.sagas.get?_of_mem hsaga')] at hp
    cases hp
    exact hne

/-- What may become of a saga in view, with no inverse lost on the way. -/
def Refines (v w : Option Saga) : Prop :=
  Protocol.Next False v w ∧ ∀ p q, v = some p → w = some q → ¬Protocol.Loses p q

/-- A transition moves each saga in view as the protocol allows, and loses none of its inverses. -/
theorem Trans.refines (hs : Shape s) (hsound : Sound s) (ht : Trans s t) (hsep : Separated t) (id : Text) :
    Refines (s.view id) (t.view id) := by
  have hnext := (ht.simulates hs hsound.states hsound.inv).views id
  rw [not_iff_false_intro hsep] at hnext
  have hsound' := hsound.trans hs ht
  refine ⟨hnext, fun p q hp hq => Protocol.not_loses ?_ (hsound'.live hsep id q hq) (hsound'.spent hsep id q hq)⟩
  rw [hp, hq] at hnext
  cases hnext with
  | same => exact fun e he => Protocol.kept_of_mem he
  | step hstep => exact hstep.kept

/-- From any point of a run to any later one, a saga in view moves as the protocol allows, and no move loses an
    inverse, as long as no two identities share a hash. -/
theorem run_refines (pre post : List Op) (id : Text) (hsep : Separated (empty.run (pre ++ post))) :
    Relation.ReflTransGen Refines ((empty.run pre).view id) ((empty.run (pre ++ post)).view id) := by
  rw [run_append] at hsep ⊢
  refine (run_keeps (P := fun t => Sound t ∧ (Separated t →
    Relation.ReflTransGen Refines ((empty.run pre).view id) (t.view id))) ?_ (run_shape pre)
    ⟨run_sound pre, fun _ => .refl⟩ post).2.2 hsep
  rintro s t hs ⟨hsound, hreached⟩ ht
  refine ⟨hsound.trans hs ht, fun hsept => ?_⟩
  exact (hreached (.of_grows (ht.grows hs.toKeys) hsept)).tail (ht.refines hs hsound hsept id)

end

section

attribute [local instance] reference

theorem separated_sample : Separated (empty.run sample) := by
  have hall : ∀ saga ∈ (empty.run sample).sagas, ∀ x ∈ (empty.run sample).steps, ∀ dir ∈ [.forward, .compensation],
      ∀ saga' ∈ (empty.run sample).sagas, ∀ y ∈ (empty.run sample).steps, ∀ dir' ∈ [.forward, .compensation],
        Platform.sha256 (frameIdentity (identity saga x dir)) = Platform.sha256 (frameIdentity (identity saga' y dir')) →
          identity saga x dir = identity saga' y dir' := by decide +kernel
  have hdir : ∀ dir : Direction, dir ∈ [.forward, .compensation] := fun dir => by cases dir <;> simp
  rintro _ _ ⟨saga, hsaga, x, hx, dir, -, rfl⟩ ⟨saga', hsaga', y, hy, dir', -, rfl⟩
  exact hall saga hsaga x hx dir (hdir dir) saga' hsaga' y hy dir' (hdir dir')

theorem run_refines_sample :
    Relation.ReflTransGen Refines none ((empty.run sample).view sampleSaga) :=
  run_refines [] sample sampleSaga separated_sample

theorem run_compensation_sample : ∃ saga ∈ (empty.run sample).sagas, saga.state = .compensating ∧
    ∃ d ∈ (empty.run sample).inversesOf saga.sagaID,
      d.state = .queued ∨ d.state = .inFlight ∨ d.state = .retryWait := by
  have hsaga : ∃ saga ∈ (empty.run sample).sagas, saga.state = .compensating := by decide +kernel
  obtain ⟨saga, hmem, hc⟩ := hsaga
  obtain ⟨d, hd, hopen, -⟩ := (run_compensation sample rfl).2.2.1 separated_sample saga hmem hc
  exact ⟨saga, hmem, hc, d, hd, hopen⟩

end

end Store
end Effectus

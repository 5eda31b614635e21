import Effectus.Theorems.Outbox.Advance
import Effectus.Theorems.Outbox.Moves
import Effectus.Theorems.Outbox.Stopped

/-! Every transition of the store is at most one step of each saga in view, and keeps the states of the
    steps in line with the dispatches. -/

namespace Effectus
namespace Store

open Protocol (Job Effect Saga Advance Next Inv)

variable {s t : Store}

/-- `t` follows `s` as the protocol allows. -/
structure Simulates (lossy : Prop) (s t : Store) : Prop where
  views : ∀ id, Next lossy (s.view id) (t.view id)
  states : StepStates t

theorem view_eq {id : Text} {saga : SagaInstance} (h : s.saga? id = some saga) :
    s.view id = some ⟨saga.state, s.effects id⟩ := by
  rw [view, h, Option.map_some]

/-- One saga takes a step and the others stay. -/
theorem simulates_of {lossy : Prop} {id : Text} {saga saga' : SagaInstance}
    (hother : ∀ x, x ≠ id → t.saga? x = s.saga? x ∧ t.effects x = s.effects x) (hs : s.saga? id = some saga)
    (ht : t.saga? id = some saga') (hstep : Protocol.Step lossy ⟨saga.state, s.effects id⟩ ⟨saga'.state, t.effects id⟩)
    (hstates : StepStates t) : Simulates lossy s t := by
  refine ⟨fun x => ?_, hstates⟩
  by_cases hx : x = id
  · rw [hx, view_eq hs, view_eq ht]
    exact .step hstep
  · rw [view, view, (hother x hx).1, (hother x hx).2]
    exact .same _

/-- No saga's view changes. -/
theorem simulates_same {lossy : Prop} (hsaga : ∀ x, t.saga? x = s.saga? x) (hes : ∀ x, t.effects x = s.effects x)
    (hstates : StepStates t) : Simulates lossy s t :=
  ⟨fun x => by
    rw [view, view, hsaga, hes]
    exact .same _, hstates⟩

/-- A change of the saga's state alone. -/
theorem simulates_moved {lossy : Prop} {saga : SagaInstance} {state : SagaState} {now : Time} (hst : StepStates s)
    (found : s.saga? saga.sagaID = some saga)
    (hstep : Protocol.Step lossy ⟨saga.state, s.effects saga.sagaID⟩ ⟨state, s.effects saga.sagaID⟩) :
    Simulates lossy s (s.setSaga (moved saga state now)) := by
  have found' : s.saga? (moved saga state now).sagaID = some saga := found
  exact simulates_of (fun x hx => ⟨saga?_setSaga_of_ne hx, rfl⟩) found (saga?_setSaga found') hstep hst

/-! ### Sagas and steps -/

section

variable [Platform] {saga : SagaInstance}

theorem simulates_created {lossy : Prop} (hs : Shape s) (hst : StepStates s) (fresh : s.saga? saga.sagaID = none)
    (running : saga.state = .running) : Simulates lossy s { s with sagas := s.sagas ++ [saga] } := by
  refine ⟨fun x => ?_, hst⟩
  have happ : ({ s with sagas := s.sagas ++ [saga] } : Store).saga? x =
      (s.saga? x).or (Keyed.get? (·.sagaID) [saga] x) := Keyed.get?_append
  by_cases hx : x = saga.sagaID
  · have hnil : s.effects saga.sagaID = [] := by
      refine List.eq_nil_iff_forall_not_mem.2 fun e he => ?_
      obtain ⟨step, hstep, hid, -⟩ := mem_effects.1 he
      obtain ⟨y, hy, hyid⟩ := hs.stepSaga step hstep
      exact Keyed.get?_eq_none.1 fresh y hy (hyid.trans hid)
    have hnew : ({ s with sagas := s.sagas ++ [saga] } : Store).saga? saga.sagaID = some saga := by
      rw [← hx, happ, hx, fresh]
      simp [Keyed.get?]
    rw [hx, view_eq hnew, view, fresh, running]
    have : ({ s with sagas := s.sagas ++ [saga] } : Store).effects saga.sagaID = [] := hnil
    rw [this]
    exact .created
  · have hno : Keyed.get? (·.sagaID) [saga] x = none := Keyed.get?_eq_none.2 fun y hy he => by
      rw [List.mem_singleton.1 hy] at he
      exact hx he.symm
    have hsame : ({ s with sagas := s.sagas ++ [saga] } : Store).saga? x = s.saga? x := by
      rw [happ, hno, Option.or_none]
    rw [view, view, hsame]
    exact .same _

variable {n : NormalizedStep} {now : Time}

theorem addStep_dispatchOf? (x : SagaStep) (dir : Direction) :
    (s.addStep saga n now).dispatchOf? x dir = (s.dispatchOf? x dir).or
      (Keyed.get? dispatchKey [forwardDispatch saga (newStep n) now] (x.sagaID, x.effectID, dir)) :=
  Keyed.get?_append

theorem addStep_effect_of_mem (hs : Shape s) (found : s.saga? n.request.sagaID = some saga)
    (fresh : s.dispatch? (forwardDispatch saga (newStep n) now).id = none) {x : SagaStep} (hx : x ∈ s.steps) :
    (s.addStep saga n now).effect x = s.effect x := by
  refine effect_of_dispatchOf? fun dir => ?_
  have hno : Keyed.get? dispatchKey [forwardDispatch saga (newStep n) now] (x.sagaID, x.effectID, dir) = none := by
    refine Keyed.get?_eq_none.2 fun y hy he => hs.newStep_key found fresh x hx ?_
    rw [List.mem_singleton.1 hy] at he
    simp only [dispatchKey, forwardDispatch, Prod.mk.injEq] at he
    simp [stepKey, ← he.1, ← he.2.1, newStep, id_of_saga? found]
  rw [addStep_dispatchOf?, hno, Option.or_none]

theorem addStep_effect_new (hs : Shape s) (found : s.saga? n.request.sagaID = some saga)
    (fresh : s.dispatch? (forwardDispatch saga (newStep n) now).id = none) :
    ((s.addStep saga n now).effect (newStep n)).forward = .new ∧
      ((s.addStep saga n now).effect (newStep n)).inverse = none := by
  have hid : (newStep n).sagaID = saga.sagaID := (id_of_saga? found).symm
  have hnone := hs.dispatchOf?_none (hs.newStep_key found fresh)
  constructor
  · simp [effect, addStep_dispatchOf?, hnone, Keyed.get?, dispatchKey, forwardDispatch, hid, jobOf, Job.new]
  · simp [effect, addStep_dispatchOf?, hnone, Keyed.get?, dispatchKey, forwardDispatch]

theorem addStep_effects (hs : Shape s) (found : s.saga? n.request.sagaID = some saga)
    (fresh : s.dispatch? (forwardDispatch saga (newStep n) now).id = none) (x : Text) :
    (s.addStep saga n now).effects x = s.effects x ++
      if n.request.sagaID = x then [(s.addStep saga n now).effect (newStep n)] else [] := by
  have hsteps : (s.addStep saga n now).stepsOf x = s.stepsOf x ++ if (newStep n).sagaID = x then [newStep n] else [] :=
    stepsOf_append _ _ (s.dispatches ++ [forwardDispatch saga (newStep n) now])
  rw [effects, hsteps, List.map_append, effects,
    List.map_congr_left fun y hy => addStep_effect_of_mem hs found fresh (mem_stepsOf.1 hy).1]
  by_cases hx : n.request.sagaID = x <;> simp [hx, newStep]

theorem simulates_enqueued {lossy : Prop} (hs : Shape s) (hst : StepStates s)
    (found : s.saga? n.request.sagaID = some saga)
    (fresh : s.dispatch? (forwardDispatch saga (newStep n) now).id = none) (running : saga.state = .running) :
    Simulates lossy s (s.addStep saga n now) := by
  have hid := id_of_saga? found
  have hsteps := addStep_effects hs found fresh
  obtain ⟨hforward, hinverse⟩ := addStep_effect_new hs found fresh
  have hsaga : (s.addStep saga n now).saga? n.request.sagaID =
      some { saga with revision := saga.revision + 1, updatedAt := now } := by
    have hfound : s.saga? saga.sagaID = some saga := hid ▸ found
    rw [← hid]
    exact saga?_setSaga (s := { s with steps := _, dispatches := _ }) hfound
  refine simulates_of (fun x hx => ⟨?_, ?_⟩) found hsaga ?_ fun x hx => ?_
  · exact saga?_setSaga_of_ne (s := { s with steps := _, dispatches := _ }) (hid ▸ hx)
  · rw [hsteps, if_neg (Ne.symm hx), List.append_nil]
  · rw [hsteps, if_pos rfl]
    exact .enqueue running hforward hinverse
  · rcases List.mem_append.1 hx with hx | hx
    · rw [addStep_effect_of_mem hs found fresh hx]
      exact hst x hx
    · rw [List.mem_singleton.1 hx, Effect.stepState, hforward, hinverse]
      rfl

/-! ### Claims -/

/-- The dispatches before one that may be claimed have succeeded. -/
theorem done_of_not_mustWait (hs : Shape s) {d : Dispatch} {step x : SagaStep} (hd : d ∈ s.dispatches)
    (hfound : s.saga? d.sagaID = some saga) (hwait : s.mustWait now d = false) (hdir : d.direction = .forward)
    (hk : stepKey step = effectKey d) (hstep : step ∈ s.steps) (hx : x ∈ s.steps) (hid : x.sagaID = step.sagaID)
    (hlt : x.sequence < step.sequence) : (s.effect x).Done := by
  have hserial := hs.serial saga (mem_of_saga? hfound)
  simp only [mustWait, hfound, hserial, Bool.true_and, Bool.or_eq_false_iff] at hwait
  have hall := hwait.2
  simp only [hasUnfinishedEarlierForward, hdir, ne_eq, not_true, if_false, List.any_eq_false, decide_eq_true_eq,
    not_and, not_not] at hall
  obtain ⟨f, hf, hfor⟩ := hs.forward? hx
  obtain ⟨h₁, h₂, h₃⟩ := key_of_dispatchOf? hfor
  have hsucc := hall f hf (h₁.trans (hid.trans (Prod.mk.inj hk).1)) h₃
    (by rw [hs.sequence_of_key hf hx (by rw [stepKey, effectKey, h₁, h₂]), hs.sequence_of_key hd hstep hk]; exact hlt)
  simpa [Effect.Done, effect, hfor, jobOf] using hsucc

theorem simulates_claimed {lossy : Prop} {d : Dispatch} {options : ClaimOptions} {token : Text} (hs : Shape s)
    (hst : StepStates s) (found : s.candidate? options now = some d) :
    Simulates lossy s (s.claim d options now token) := by
  obtain ⟨hd, heligible, hwait⟩ := mem_of_candidate? found
  obtain ⟨⟨saga, hfound, hdirection⟩, hopen⟩ := isEligible_inv heligible
  obtain ⟨step, hstep, hk⟩ := hs.step_of_dispatch hd
  have hid : step.sagaID = d.sagaID := (Prod.mk.inj hk).1
  have hof := hs.dispatchOf?_of_mem hd hk
  have hcore : (leased d options now token).core = d.core := rfl
  have hput : Puts s (s.claim d options now token) step d.direction (jobOf d).claimed :=
    puts_set hs hd hk hcore rfl rfl
  obtain ⟨pre, post, hsteps, hpre, -, hes, het⟩ := hput.effects_split hs hstep
  rw [hid] at hsteps hes het
  have hwaiting : (jobOf d).Waiting := hopen
  rcases hdirection with ⟨hrun, hdir⟩ | ⟨hcomp, hdir⟩
  · have hforward : (s.effect step).forward = jobOf d := by simp [effect, hdir ▸ hof]
    rw [hdir] at hput het
    refine simulates_of (fun x hx => ⟨rfl, hput.effects_of_ne (hid ▸ hx)⟩) hfound hfound ?_ ?_
    · rw [het, ← hforward]
      refine .claim hes hrun (fun e he => ?_) (hforward ▸ hwaiting)
      obtain ⟨x, hx, rfl⟩ := List.mem_map.1 he
      have hxs := mem_stepsOf.1 (by simp [hsteps, hx] : x ∈ s.stepsOf d.sagaID)
      exact done_of_not_mustWait hs hd hfound hwait hdir hk hstep hxs.1 (hxs.2.trans hid.symm) (hpre x hx)
    · exact hst.put_same hs hput hstep rfl (stepState_put_forward (.inr (.inr rfl)) (hforward ▸ hwaiting))
  · have hinverse : (s.effect step).inverse = some (jobOf d) := by simp [effect, hdir ▸ hof]
    rw [hdir] at hput het
    refine simulates_of (fun x hx => ⟨rfl, hput.effects_of_ne (hid ▸ hx)⟩) hfound hfound ?_ ?_
    · rw [het]
      exact .claimInverse hes hcomp hinverse hwaiting
    · refine hst.put_same hs hput hstep rfl (stepState_put_inverse (by simp [Job.claimed]) ?_)
      rintro ⟨i, hi, hsucc⟩
      rw [hinverse] at hi
      cases hi
      exact hwaiting.ne_succeeded hsucc

/-- Grants are not part of the view. -/
theorem simulates_granted {lossy : Prop} {d : Dispatch} {grants : List FencingGrant} (hs : Shape s)
    (hst : StepStates s) (hd : d ∈ s.dispatches) : Simulates lossy s (s.grant d grants now) := by
  have hone : ∀ x ∈ s.dispatches, x.id = d.id → x = d := fun x hx he => hs.dispatches.eq_of_key hx hd he
  have heffect : ∀ x, (s.grant d grants now).effect x = s.effect x := fun x => by
    refine effect_of_dispatchOf? fun dir => ?_
    rw [dispatchOf?_map (s := s) (t := s.grant d grants now) rfl, Option.map_map]
    · cases hy : s.dispatchOf? x dir with
      | none => rfl
      | some y =>
        simp only [Option.map_some, Function.comp_apply]
        split
        · rw [hone y (mem_of_dispatchOf? hy) ‹_›]
          rfl
        · rfl
    · intro y hy
      split
      · rw [hone y hy ‹_›]
        rfl
      · rfl
  refine simulates_same (fun _ => rfl) (fun x => ?_) fun x hx => ?_
  · exact List.map_congr_left fun y _ => heffect y
  · rw [heffect]
    exact hst x hx

end

/-! ### Finalizers -/

section

variable {now : Time} {saga : SagaInstance}

theorem closes_closed (d : Dispatch) : (jobOf d).Closes (jobOf (s.closed now d)) := by
  unfold closed blockUncertain
  split
  · rename_i hin
    simp only [cancelWaiting, blockExpiredDispatch, reduceCtorEq, or_self, if_false]
    exact ⟨rfl, by simp [jobOf, hin], fun _ => .inr rfl, fun _ => rfl, fun hn => absurd (.inr (.inr hin)) hn⟩
  split
  · rename_i hun
    have hr := isUncertainRetry_retry hun
    simp only [cancelWaiting, blockUnknownRetryDispatch, reduceCtorEq, or_self, if_false]
    exact ⟨rfl, by simp [jobOf, hr], fun _ => .inr rfl, fun _ => rfl, fun hn => absurd (.inr (.inl hr)) hn⟩
  · rename_i hin _
    unfold cancelWaiting
    split
    · rename_i hw
      exact ⟨rfl, fun _ => rfl, fun _ => .inl rfl, fun h => absurd h hin, fun hn => absurd (hw.imp id .inl) hn⟩
    · rename_i hw
      have hn : ¬(jobOf d).Waiting := by
        rintro (h | h | h)
        · exact hw (.inl h)
        · exact hw (.inr h)
        · exact hin h
      exact ⟨rfl, fun hq => absurd (.inl hq) hn, fun hr => absurd (.inr (.inl hr)) hn, fun h => absurd h hin,
        fun _ => rfl⟩

theorem closes_blockInverse (d : Dispatch) : (jobOf d).Closes (jobOf (s.blockInverse now d)) := by
  unfold blockInverse
  split
  · rename_i hq
    exact ⟨rfl, fun _ => rfl, fun _ => .inl rfl, by simp [jobOf, hq], fun hn => absurd (.inl hq) hn⟩
  · rename_i hin
    exact ⟨rfl, by simp [jobOf, hin], fun _ => .inr rfl, fun _ => rfl, fun hn => absurd (.inr (.inr hin)) hn⟩
  · rename_i hr
    split
    · exact ⟨rfl, by simp [jobOf, hr], fun _ => .inr rfl, fun _ => rfl, fun hn => absurd (.inr (.inl hr)) hn⟩
    · exact ⟨rfl, fun _ => rfl, fun _ => .inl rfl, by simp [jobOf, hr], fun hn => absurd (.inr (.inl hr)) hn⟩
  · rename_i hq hi hr
    have hn : ¬(jobOf d).Waiting := by
      rintro (h | h | h)
      · exact hq h
      · exact hr h
      · exact hi h
    exact ⟨rfl, fun hq => absurd (.inl hq) hn, fun hr => absurd (.inr (.inl hr)) hn,
      fun hi => absurd (.inr (.inr hi)) hn, fun _ => rfl⟩

theorem stepState_congr {e e' : Effect} (hd : e'.Done ↔ e.Done) (hu : e'.Undone ↔ e.Undone)
    (hf : e'.forward.state = .failedPermanent ↔ e.forward.state = .failedPermanent) : e'.stepState = e.stepState := by
  have hany : ∀ e : Effect, e.inverse.any (fun j => decide (j.state = .succeeded)) = true ↔ e.Undone := fun e => by
    cases hi : e.inverse <;> simp [Effect.Undone, hi]
  have hsame := Bool.eq_iff_iff.2 ((hany e').trans (hu.trans (hany e).symm))
  simp only [Effect.Done] at hd
  simp only [Effect.stepState, hsame, hd, hf]

theorem closes_failed {j j' : Job} (h : j.Closes j') : j'.state = .failedPermanent ↔ j.state = .failedPermanent := by
  by_cases hw : j.Waiting
  · have hne : j.state ≠ .failedPermanent := by rcases hw with hw | hw | hw <;> simp [hw]
    rcases Effect.closes_waiting h hw with h | h <;> simp [h, hne]
  · rw [h.settled hw]

theorem closes_stepState {e e' : Effect} (h : e.Closes e') : e'.stepState = e.stepState :=
  stepState_congr h.stopped.done h.stopped.undone (closes_failed h.forward)

theorem closesInverse_stepState {e e' : Effect} (h : e.ClosesInverse e') : e'.stepState = e.stepState :=
  stepState_congr h.stopped.done h.stopped.undone (by rw [h.forward])

theorem not_open_of_terminal {state : SagaState} (h : isTerminalSaga state = true) :
    state ≠ .running ∧ state ≠ .compensating := by
  cases state <;> simp_all [isTerminalSaga]

/-- A rewriting of one saga's dispatches shows only in that saga. -/
theorem effect_map_of_ne {f : Dispatch → Dispatch} {id : Text} (hd : t.dispatches = s.dispatches.map f)
    (hf : ∀ d, (f d).core = d.core) (hid : ∀ d, d.sagaID ≠ id → f d = d) {x : SagaStep} (hx : x.sagaID ≠ id) :
    t.effect x = s.effect x := by
  refine effect_of_dispatchOf? fun dir => ?_
  rw [dispatchOf?_map hd fun d _ => hf d]
  cases hg : s.dispatchOf? x dir with
  | none => rfl
  | some d =>
    have hne : d.sagaID ≠ id := by
      rw [(key_of_dispatchOf? hg).1]
      exact hx
    simp [hid d hne]

/-- One saga's dispatches are rewritten, each effect by `R`. -/
theorem simulates_map {lossy : Prop} {R : Effect → Effect → Prop} {f : Dispatch → Dispatch} {saga' : SagaInstance}
    (hst : StepStates s) (hsteps : t.steps = s.steps) (hd : t.dispatches = s.dispatches.map f)
    (hf : ∀ d, (f d).core = d.core) (hid : ∀ d, d.sagaID ≠ saga.sagaID → f d = d)
    (hsagas : ∀ x, x ≠ saga.sagaID → t.saga? x = s.saga? x) (found : s.saga? saga.sagaID = some saga)
    (found' : t.saga? saga.sagaID = some saga')
    (heach : ∀ x ∈ s.steps, x.sagaID = saga.sagaID → R (s.effect x) (t.effect x))
    (hstate : ∀ {e e'}, R e e' → e'.stepState = e.stepState)
    (hstep : List.Forall₂ R (s.effects saga.sagaID) (t.effects saga.sagaID) →
      Protocol.Step lossy ⟨saga.state, s.effects saga.sagaID⟩ ⟨saga'.state, t.effects saga.sagaID⟩) : Simulates lossy s t := by
  have heffects : ∀ x, t.effects x = (s.stepsOf x).map t.effect := fun x => by rw [effects, stepsOf, hsteps]; rfl
  refine simulates_of (fun x hx => ⟨hsagas x hx, ?_⟩) found found' (hstep ?_) fun x hx => ?_
  · rw [heffects, effects]
    exact List.map_congr_left fun y hy => effect_map_of_ne hd hf hid ((mem_stepsOf.1 hy).2 ▸ hx)
  · rw [heffects, effects, List.forall₂_map_left_iff, List.forall₂_map_right_iff, List.forall₂_same]
    exact fun x hx => heach x (mem_stepsOf.1 hx).1 (mem_stepsOf.1 hx).2
  · rw [hsteps] at hx
    rw [hst x hx]
    by_cases hxid : x.sagaID = saga.sagaID
    · exact (hstate (heach x hx hxid)).symm
    · rw [effect_map_of_ne hd hf hid hxid]

theorem rel_map {f : Dispatch → Dispatch} (hf : ∀ d, (jobOf d).Closes (jobOf (f d))) (o : Option Dispatch) :
    Option.Rel Job.Closes (o.map jobOf) ((o.map f).map jobOf) := by
  cases o with
  | none => exact .none
  | some d => exact .some (hf d)

/-- The effects of a stopped saga are closed. -/
theorem effects_closed [Platform] (hs : Shape s) {id : Text}
    (hd : t.dispatches = s.dispatches.map fun d => if d.sagaID = id then s.closed now d else d) {x : SagaStep}
    (hx : x ∈ s.steps) (hid : x.sagaID = id) : (s.effect x).Closes (t.effect x) := by
  have hof : ∀ dir, t.dispatchOf? x dir = (s.dispatchOf? x dir).map (s.closed now) := fun dir => by
    rw [dispatchOf?_map hd fun d _ => by
      split
      · exact closed_core_eq now d
      · rfl]
    cases hg : s.dispatchOf? x dir with
    | none => rfl
    | some d => simp [(key_of_dispatchOf? hg).1.trans hid]
  obtain ⟨d, -, hfor⟩ := hs.forward? hx
  refine ⟨rfl, rfl, ?_, ?_⟩
  · simpa [effect, hof, hfor] using closes_closed d
  · simp only [effect, hof]
    exact rel_map closes_closed _

/-- What may have been committed shows as blocked once the saga is closed. -/
theorem unknown_closing [Platform] (ht : Shape (s.closing now [saga.sagaID])) :
    (∃ e ∈ (s.closing now [saga.sagaID]).effects saga.sagaID, e.Unknown) ↔
      (s.dispatchesOf saga.sagaID).any s.isUncertain := by
  have hclosed : ∀ dir, (∃ d ∈ (s.closing now [saga.sagaID]).dispatches, d.sagaID = saga.sagaID ∧ d.direction = dir ∧
      d.state = .blockedUnknown) ↔ ∃ d ∈ s.dispatchesOf saga.sagaID, d.direction = dir ∧ s.isUncertain d := by
    intro dir
    simp only [closing_dispatches, dispatchesOf, List.mem_map, List.mem_filter, List.mem_singleton, decide_eq_true_eq]
    constructor
    · rintro ⟨_, ⟨d, hd, rfl⟩, hid, hdir, hstate⟩
      have hd' : d.sagaID = saga.sagaID := by
        by_contra hne
        rw [if_neg hne] at hid
        exact hne hid
      rw [if_pos hd'] at hdir hstate
      have hcore := Dispatch.core_eq.1 (closed_core_eq (s := s) now d)
      exact ⟨d, ⟨hd, hd'⟩, hcore.2.2.2.2.1.symm.trans hdir, (closed_state now d).2.2.2.1 hstate⟩
    · rintro ⟨d, ⟨hd, hid⟩, hdir, hu⟩
      refine ⟨_, ⟨d, hd, rfl⟩, ?_⟩
      rw [if_pos hid]
      have hcore := Dispatch.core_eq.1 (closed_core_eq (s := s) now d)
      exact ⟨hcore.2.1.trans hid, hcore.2.2.2.2.1.trans hdir, (closed_state now d).2.2.2.2 hu⟩
  rw [List.any_eq_true]
  constructor
  · rintro ⟨e, he, hf | ⟨j, hj, hu⟩⟩
    · obtain ⟨d, hd, -, hu⟩ := (hclosed .forward).1 ((exists_forward ht (· = .blockedUnknown)).1 ⟨e, he, hf⟩)
      exact ⟨d, hd, hu⟩
    · obtain ⟨d, hd, -, hu⟩ := (hclosed .compensation).1 ((exists_inverse ht (· = .blockedUnknown)).1 ⟨e, he, j, hj, hu⟩)
      exact ⟨d, hd, hu⟩
  · rintro ⟨d, hd, hu⟩
    cases hdir : d.direction with
    | forward =>
      obtain ⟨e, he, hf⟩ := (exists_forward ht (· = .blockedUnknown)).2 ((hclosed .forward).2 ⟨d, hd, hdir, hu⟩)
      exact ⟨e, he, .inl hf⟩
    | compensation =>
      obtain ⟨e, he, hi⟩ := (exists_inverse ht (· = .blockedUnknown)).2 ((hclosed .compensation).2 ⟨d, hd, hdir, hu⟩)
      exact ⟨e, he, .inr hi⟩

theorem stops_finalState [Platform] (hs : Shape s) (ht : Shape (s.closing now [saga.sagaID]))
    (hcloses : List.Forall₂ Effect.Closes (s.effects saga.sagaID) ((s.closing now [saga.sagaID]).effects saga.sagaID)) :
    Protocol.Stops saga.state ((s.closing now [saga.sagaID]).effects saga.sagaID) (s.finalState saga) := by
  have hdone : (∃ e ∈ (s.closing now [saga.sagaID]).effects saga.sagaID, e.Done) ↔
      (s.dispatchesOf saga.sagaID).any (fun d => decide (d.direction = .forward ∧ d.state = .succeeded)) := by
    have hsame : (∃ e ∈ (s.closing now [saga.sagaID]).effects saga.sagaID, e.Done) ↔
        ∃ e ∈ s.effects saga.sagaID, e.Done := by
      constructor
      · rintro ⟨e', he', hd⟩
        obtain ⟨e, he, hc⟩ := Protocol.exists_left_of_mem hcloses e' he'
        exact ⟨e, he, hc.stopped.done.1 hd⟩
      · rintro ⟨e, he, hd⟩
        obtain ⟨e', he', hc⟩ := Protocol.exists_right_of_mem hcloses e he
        exact ⟨e', he', hc.stopped.done.2 hd⟩
    rw [hsame]
    refine (exists_forward hs (· = .succeeded)).trans ?_
    simp [dispatchesOf]
  unfold finalState
  split
  · rename_i hu
    exact .unknown ((unknown_closing ht).2 hu)
  rename_i hu
  have hknown : ∀ e ∈ (s.closing now [saga.sagaID]).effects saga.sagaID, ¬e.Unknown := fun e he hun =>
    hu ((unknown_closing ht).1 ⟨e, he, hun⟩)
  split
  · rename_i hover
    exact .kept hknown (not_open_of_terminal hover)
  rename_i hopen
  split
  · rename_i hd
    refine .depends hknown ?_
    by_cases hc : saga.state = .compensating
    · exact .inl hc
    · exact .inr ⟨by cases hst : saga.state <;> simp_all [isTerminalSaga], hdone.2 (hd.resolve_left hc)⟩
  · rename_i hd
    obtain ⟨hc, hd⟩ := not_or.1 hd
    refine .failed hknown (by cases hst : saga.state <;> simp_all [isTerminalSaga]) fun e he hde => ?_
    exact hd (hdone.1 ⟨e, he, hde⟩)

theorem simulates_stopped [Platform] {lossy : Prop} (hs : Shape s) (hst : StepStates s)
    (found : s.saga? saga.sagaID = some saga) : Simulates lossy s (stopSaga now s saga) := by
  have heq : stopSaga now s saga = s.closing now [saga.sagaID] := stopSaga_eq hs.toKeys (mem_of_saga? found)
  have ht : Shape (s.closing now [saga.sagaID]) :=
    heq ▸ hs.of_sameCores (sameCores_stopSaga hs.toKeys (mem_of_saga? found) now)
  have hd := (stopSaga_dispatches (s := s) now saga).trans (closeDispatches_eq saga.sagaID now)
  have found' : (s.closing now [saga.sagaID]).saga? saga.sagaID = some (s.closedSaga now saga) := by
    have hmem : s.closedSaga now saga ∈ (s.closing now [saga.sagaID]).sagas := by
      rw [closing_sagas]
      exact List.mem_map.2 ⟨saga, mem_of_saga? found, if_pos (List.mem_singleton.2 rfl)⟩
    have hget := ht.sagas.get?_of_mem hmem
    rwa [closedSaga_sagaID] at hget
  refine simulates_map hst (stopSaga_steps now saga) hd (fun d => ?_) (fun d hne => if_neg hne)
    (fun x hx => stopSaga_saga?_of_ne hx) found (heq ▸ found') (fun x hx hid => effects_closed hs hd hx hid)
    closes_stepState fun hcloses => .stop hcloses ?_
  · split
    · exact closed_core_eq now d
    · rfl
  · rw [heq] at hcloses ⊢
    rw [closedSaga_state]
    exact stops_finalState hs ht hcloses

/-- The inverses of a saga whose compensation is given up are closed. -/
theorem effects_blockInverses (hd : t.dispatches = s.blockInverses saga.sagaID now) {x : SagaStep}
    (hid : x.sagaID = saga.sagaID) : (s.effect x).ClosesInverse (t.effect x) := by
  have hof := dispatchOf?_map hd (fun d _ => by
    split
    · exact blockInverse_core now d
    · rfl) x
  refine ⟨rfl, rfl, ?_, ?_⟩
  · simp only [effect, hof]
    cases hg : s.dispatchOf? x .forward with
    | none => rfl
    | some d => simp [(key_of_dispatchOf? hg).2.2]
  · simp only [effect, hof]
    cases hg : s.dispatchOf? x .compensation with
    | none => exact .none
    | some d =>
      simp only [Option.map_some, (key_of_dispatchOf? hg).1, hid, (key_of_dispatchOf? hg).2.2, and_self, if_true]
      exact .some (closes_blockInverse d)

/-- While a saga compensates, the inverses that are blocked are the uncertain ones. -/
theorem unknown_blockInverses [Platform] (hs : Shape s) (ht : Shape t)
    (hd : t.dispatches = s.blockInverses saga.sagaID now)
    (hinv : ∀ e ∈ s.effects saga.sagaID, ∀ j, e.inverse = some j → j.Waiting ∨ j.state = .succeeded) :
    (∃ e ∈ t.effects saga.sagaID, e.UnknownInverse) ↔ s.hasUncertainInverse saga.sagaID := by
  have hblock : ∀ d ∈ s.dispatches, d.sagaID = saga.sagaID → d.direction = .compensation →
      ((s.blockInverse now d).state = .blockedUnknown ↔ d.state = .inFlight ∨ s.isUncertainRetry d = true) := by
    intro d hd hid hdir
    have hne : d.state ≠ .blockedUnknown := fun hb => by
      obtain ⟨e, he, j, hj, hs⟩ := (exists_inverse hs (· = .blockedUnknown)).2 ⟨d, hd, hid, hdir, hb⟩
      rcases hinv e he j hj with (hw | hw | hw) | hw <;> simp [hs] at hw
    unfold blockInverse
    split <;> rename_i hst
    · simp [hst, cancelDispatch, isUncertainRetry]
    · simp [hst, blockExpiredDispatch]
    · split <;> simp_all [blockUnknownRetryDispatch, cancelDispatch]
    · simp_all [isUncertainRetry]
  refine (exists_inverse ht (· = .blockedUnknown)).trans ?_
  simp only [hd, blockInverses, hasUncertainInverse, List.any_eq_true, Bool.and_eq_true, Bool.or_eq_true,
    decide_eq_true_eq, List.mem_map]
  constructor
  · rintro ⟨_, ⟨d, hd, rfl⟩, hid, hdir, hstate⟩
    split at hid <;> rename_i hmine
    · rw [if_pos hmine] at hstate
      exact ⟨d, hd, hmine, (hblock d hd hmine.1 hmine.2).1 hstate⟩
    · rw [if_neg hmine] at hdir
      exact absurd ⟨hid, hdir⟩ hmine
  · rintro ⟨d, hd, hmine, hu⟩
    refine ⟨_, ⟨d, hd, rfl⟩, ?_⟩
    rw [if_pos hmine]
    obtain ⟨-, h₁, -, -, h₂, -⟩ := Dispatch.core_eq.1 (blockInverse_core (s := s) now d)
    exact ⟨h₁.trans hmine.1, h₂.trans hmine.2, (hblock d hd hmine.1 hmine.2).2 hu⟩

theorem simulates_blocked [Platform] {lossy : Prop} {state : SagaState} (hs : Shape s) (hst : StepStates s)
    (hinv : ∀ id p, s.view id = some p → Inv p) (found : s.saga? saga.sagaID = some saga)
    (compensating : saga.state = .compensating)
    (hstate : state = if s.hasUncertainInverse saga.sagaID then .blockedUnknown else .blockedCompensation) :
    Simulates lossy s ({ s with dispatches := s.blockInverses saga.sagaID now }.setSaga (moved saga state now)) := by
  have hsagas : ∀ x, x ≠ saga.sagaID → ({ s with dispatches := s.blockInverses saga.sagaID now }.setSaga
      (moved saga state now)).saga? x = s.saga? x := fun x hx => saga?_setSaga_of_ne hx
  have found' : ({ s with dispatches := s.blockInverses saga.sagaID now }.setSaga
      (moved saga state now)).saga? saga.sagaID = some (moved saga state now) := by
    have hset : s.saga? (moved saga state now).sagaID = some saga := found
    exact saga?_setSaga hset
  have hb := sameCores_blockInverses (s := s) saga.sagaID now
  have ht := hs.of_sameCores (hb.trans
    (sameCores_moved (hs.toKeys.of_sameCores hb) (mem_of_saga? found) state now))
  have hunknown := unknown_blockInverses hs ht rfl fun e he =>
    ((hinv _ _ (view_eq found)).each e he).compensating compensating
  refine simulates_map hst rfl rfl (fun d => ?_) (fun d hne => if_neg fun h => hne h.1) hsagas found found'
    (fun x _ hid => effects_blockInverses rfl hid) closesInverse_stepState
    fun hcloses => .blockCompensation compensating hcloses ?_
  · split
    · exact blockInverse_core now d
    · rfl
  · rw [moved, hstate]
    split
    · rename_i hu
      exact .inl ⟨rfl, hunknown.2 hu⟩
    · rename_i hu
      exact .inr ⟨rfl, fun e he hun => hu (hunknown.1 ⟨e, he, hun⟩)⟩

end

end Store
end Effectus

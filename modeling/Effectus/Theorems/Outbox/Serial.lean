import Effectus.Go.Reference
import Effectus.Theorems.Outbox.Outcomes
import Mathlib.Data.List.Pairwise

/-! Serial order. The forward dispatches of a saga stand in the order of its steps, and run in that order;
    whatever leases have run out, at most one dispatch of a saga is in flight. -/

namespace Effectus
namespace Store

open Protocol (Job Effect Saga Inv Pair Each)

variable {s t : Store}

/-! ### Lists -/

/-- If what is not done lets nothing after it begin, a list is done, then at most one entry, then not begun. -/
theorem split_of_pairwise {α : Type} {done idle : α → Prop} [DecidablePred done] : ∀ {xs : List α},
    xs.Pairwise (fun a b => done a ∨ idle b) → ∃ pre mid post, xs = pre ++ mid ++ post ∧ (∀ x ∈ pre, done x) ∧
      mid.length ≤ 1 ∧ (∀ x ∈ mid, ¬done x) ∧ ∀ x ∈ post, idle x
  | [], _ => ⟨[], [], [], rfl, by simp, by simp, by simp, by simp⟩
  | a :: xs, h => by
    obtain ⟨ha, hxs⟩ := List.pairwise_cons.1 h
    by_cases hd : done a
    · obtain ⟨pre, mid, post, rfl, hpre, hlen, hmid, hpost⟩ := split_of_pairwise hxs
      refine ⟨a :: pre, mid, post, rfl, ?_, hlen, hmid, hpost⟩
      simpa [hd] using hpre
    · exact ⟨[], [a], xs, rfl, by simp, by simp, by simpa using hd, fun x hx => (ha x hx).resolve_left hd⟩

theorem length_le_one {α : Type} {xs : List α} (hn : xs.Nodup) (h : ∀ a ∈ xs, ∀ b ∈ xs, a = b) : xs.length ≤ 1 := by
  match xs, hn, h with
  | [], _, _ => simp
  | [_], _, _ => simp
  | a :: b :: xs, hn, h =>
    have hab := h a (by simp) b (by simp)
    simp [hab] at hn

/-! ### The dispatches of a saga -/

/-- The forward dispatches of a saga, in the order they were stored. -/
def forwardsOf (s : Store) (sagaID : Text) : List Dispatch :=
  s.dispatches.filter fun d => decide (d.sagaID = sagaID ∧ d.direction = .forward)

/-- The dispatches of a saga that are in flight, whether or not their lease has run out. -/
def inFlightOf (s : Store) (sagaID : Text) : List Dispatch :=
  s.dispatches.filter fun d => decide (d.sagaID = sagaID ∧ d.state = .inFlight)

theorem mem_inFlightOf {sagaID : Text} {d : Dispatch} :
    d ∈ s.inFlightOf sagaID ↔ d ∈ s.dispatches ∧ d.sagaID = sagaID ∧ d.state = .inFlight := by
  simp [inFlightOf]

/-- The effects of two steps of a saga, in some order. -/
theorem pair_or_pair {sagaID : Text} (hp : (s.effects sagaID).Pairwise Pair) {x y : SagaStep}
    (hx : x ∈ s.stepsOf sagaID) (hy : y ∈ s.stepsOf sagaID) (hne : x ≠ y) :
    Pair (s.effect x) (s.effect y) ∨ Pair (s.effect y) (s.effect x) := by
  rw [effects, List.pairwise_map] at hp
  have hor : (s.stepsOf sagaID).Pairwise fun a b =>
      Pair (s.effect a) (s.effect b) ∨ Pair (s.effect b) (s.effect a) := hp.imp fun h => .inl h
  have hsymm : Std.Symm fun a b => Pair (s.effect a) (s.effect b) ∨ Pair (s.effect b) (s.effect a) :=
    ⟨fun a b h => h.symm⟩
  exact hor.forall hx hy hne

section

variable [Platform]

theorem Shape.forwardsOf_keys (hs : Shape s) (sagaID : Text) :
    (s.forwardsOf sagaID).map effectKey = (s.stepsOf sagaID).map stepKey := by
  have hkeys : ∀ {α : Type} (key : α → Text × Text) (xs : List α),
      (xs.filter fun x => decide ((key x).1 = sagaID)).map key = (xs.map key).filter fun k => decide (k.1 = sagaID) :=
    fun key xs => by rw [List.filter_map]; rfl
  have hforwards : s.forwardsOf sagaID = s.forwards.filter fun d => decide ((effectKey d).1 = sagaID) := by
    simp only [forwardsOf, Store.forwards, List.filter_filter, effectKey, Bool.decide_and]
    rfl
  have hsteps : s.stepsOf sagaID = s.steps.filter fun x => decide ((stepKey x).1 = sagaID) := rfl
  rw [hforwards, hsteps, hkeys, hkeys, hs.forwards]

/-- What a forward dispatch and its step share is in the same order in both lists. -/
theorem Shape.forwardsOf_map (hs : Shape s) {β : Type} {f : Dispatch → β} {g : SagaStep → β} (sagaID : Text)
    (h : ∀ d ∈ s.forwardsOf sagaID, ∀ x ∈ s.stepsOf sagaID, effectKey d = stepKey x → f d = g x) :
    (s.forwardsOf sagaID).map f = (s.stepsOf sagaID).map g := by
  have hkeys := hs.forwardsOf_keys sagaID
  generalize s.forwardsOf sagaID = ds at h hkeys
  generalize s.stepsOf sagaID = xs at h hkeys
  induction ds generalizing xs with
  | nil =>
    cases xs with
    | nil => rfl
    | cons => simp at hkeys
  | cons d ds ih =>
    cases xs with
    | nil => simp at hkeys
    | cons x xs =>
      rw [List.map_cons, List.map_cons, List.cons.injEq] at hkeys
      rw [List.map_cons, List.map_cons, h d (by simp) x (by simp) hkeys.1,
        ih xs (fun e he y hy => h e (by simp [he]) y (by simp [hy])) hkeys.2]

theorem Shape.forwardsOf_sequences (hs : Shape s) (sagaID : Text) :
    (s.forwardsOf sagaID).map (·.sequence) =
      (List.range (s.forwardsOf sagaID).length).map fun i : Nat => (i : Int) + 1 := by
  have hlen : (s.forwardsOf sagaID).length = (s.stepsOf sagaID).length := by
    simpa using congrArg List.length (hs.forwardsOf_keys sagaID)
  rw [hlen, ← hs.dense]
  refine hs.forwardsOf_map sagaID fun d hd x hx he => ?_
  exact hs.sequence_of_key (List.mem_filter.1 hd).1 (mem_stepsOf.1 hx).1 he.symm

theorem Shape.forwardsOf_jobs (hs : Shape s) (sagaID : Text) :
    (s.forwardsOf sagaID).map jobOf = (s.effects sagaID).map (·.forward) := by
  rw [effects, List.map_map]
  refine hs.forwardsOf_map sagaID fun d hd x hx he => ?_
  have hd := List.mem_filter.1 hd
  have hdir : d.direction = .forward := by simpa using (by simpa using hd.2 : d.sagaID = sagaID ∧ _).2
  have hof := hs.dispatchOf?_of_mem hd.1 he.symm
  rw [hdir] at hof
  simp [effect, hof]

/-! ### In flight -/

/-- A dispatch in flight says what its saga is doing. -/
theorem inFlight_state (hs : Shape s) (h : Sound s) {saga : SagaInstance} {d : Dispatch} (hsaga : saga ∈ s.sagas)
    (hd : d ∈ s.dispatches) (hid : d.sagaID = saga.sagaID) (hin : d.state = .inFlight) :
    saga.state = match d.direction with | .forward => .running | .compensation => .compensating := by
  obtain ⟨x, hx, hk⟩ := hs.step_of_dispatch hd
  have hxid : x.sagaID = saga.sagaID := (Prod.mk.inj hk).1.trans hid
  have heach := (h.inv _ _ (view_eq (hs.sagas.get?_of_mem hsaga))).each _ (mem_effects.2 ⟨x, hx, hxid, rfl⟩)
  have hof := hs.dispatchOf?_of_mem hd hk
  cases hdir : d.direction with
  | forward => exact heach.inFlight (by simpa [effect, jobOf, hdir ▸ hof] using hin)
  | compensation => exact heach.inverseInFlight (jobOf d) (by simp [effect, hdir ▸ hof]) hin

theorem inFlight_unique (hs : Shape s) (h : Sound s) {saga : SagaInstance} (hsaga : saga ∈ s.sagas) {d d' : Dispatch}
    (hd : d ∈ s.dispatches) (hd' : d' ∈ s.dispatches) (hid : d.sagaID = saga.sagaID) (hid' : d'.sagaID = saga.sagaID)
    (hin : d.state = .inFlight) (hin' : d'.state = .inFlight) : d = d' := by
  obtain ⟨x, hx, hk⟩ := hs.step_of_dispatch hd
  obtain ⟨y, hy, hk'⟩ := hs.step_of_dispatch hd'
  have hof := hs.dispatchOf?_of_mem hd hk
  have hof' := hs.dispatchOf?_of_mem hd' hk'
  have hstate := inFlight_state hs h hsaga hd hid hin
  have hstate' := inFlight_state hs h hsaga hd' hid' hin'
  have hdir : d'.direction = d.direction := by
    rw [hstate] at hstate'
    revert hstate'
    cases d.direction <;> cases d'.direction <;> simp
  rw [hdir] at hof'
  by_cases hxy : x = y
  · rw [hxy, hof'] at hof
    exact (Option.some.inj hof).symm
  -- Two steps in flight at once contradict their order.
  exfalso
  have hpairs := (h.inv _ _ (view_eq (hs.sagas.get?_of_mem hsaga))).pairs
  have hmx : x ∈ s.stepsOf saga.sagaID := mem_stepsOf.2 ⟨hx, (Prod.mk.inj hk).1.trans hid⟩
  have hmy : y ∈ s.stepsOf saga.sagaID := mem_stepsOf.2 ⟨hy, (Prod.mk.inj hk').1.trans hid'⟩
  have hnot : ∀ {a b : SagaStep} {f g : Dispatch}, s.dispatchOf? a d.direction = some f →
      s.dispatchOf? b d.direction = some g → f.state = .inFlight → g.state = .inFlight →
      ¬Pair (s.effect a) (s.effect b) := by
    intro a b f g hf hg hfin hgin hp
    cases hdir : d.direction with
    | forward =>
      rw [hdir] at hf hg
      rcases hp.serial with hd | ⟨-, hq | hq⟩
      · simp [Effect.Done, effect, hf, jobOf, hfin] at hd
      · simp [effect, hg, jobOf, hgin] at hq
      · simp [effect, hg, jobOf, hgin] at hq
    | compensation =>
      rw [hdir] at hf hg
      exact hp.single ⟨jobOf f, by simp [effect, hf], by simp [jobOf, hfin]⟩
        ⟨jobOf g, by simp [effect, hg], by simp [jobOf, hgin]⟩
  rcases pair_or_pair hpairs hmx hmy hxy with hp | hp
  · exact hnot hof hof' hin hin' hp
  · exact hnot hof' hof hin' hin hp

/-! ### Every run -/

/-- In every reachable store the forward dispatches of a saga are numbered from one in the order they stand;
    they have succeeded, up to at most one, and those after it were never claimed. At most one dispatch of the
    saga is in flight, and none once the saga is closed. -/
theorem run_serial (ops : List Op) (hrun : empty.run ops = s) {saga : SagaInstance} (hsaga : saga ∈ s.sagas) :
    (s.forwardsOf saga.sagaID).map (·.sequence) =
        (List.range (s.forwardsOf saga.sagaID).length).map (fun i : Nat => (i : Int) + 1) ∧
      (∃ pre mid post, s.forwardsOf saga.sagaID = pre ++ mid ++ post ∧ (∀ d ∈ pre, d.state = .succeeded) ∧
        mid.length ≤ 1 ∧ (∀ d ∈ mid, d.state ≠ .succeeded) ∧
        ∀ d ∈ post, d.attempt = 0 ∧ (d.state = .queued ∨ d.state = .canceled)) ∧
      (s.inFlightOf saga.sagaID).length ≤ 1 ∧
      (isTerminalSaga saga.state = true → s.inFlightOf saga.sagaID = []) := by
  have hs : Shape s := hrun ▸ run_shape ops
  have h : Sound s := hrun ▸ run_sound ops
  have hinv := h.inv _ _ (view_eq (hs.sagas.get?_of_mem hsaga))
  refine ⟨hs.forwardsOf_sequences _, split_of_pairwise ?_, ?_, fun hterminal => ?_⟩
  · have hjobs := hinv.pairs.imp (S := fun a b : Effect => a.forward.state = .succeeded ∨
      b.forward.attempt = 0 ∧ (b.forward.state = .queued ∨ b.forward.state = .canceled)) fun hp => hp.serial
    rw [← List.pairwise_map (f := fun e : Effect => e.forward) (R := fun a b : Job => a.state = .succeeded ∨
      b.attempt = 0 ∧ (b.state = .queued ∨ b.state = .canceled)), ← hs.forwardsOf_jobs, List.pairwise_map] at hjobs
    exact hjobs
  · refine length_le_one ((List.Nodup.of_map _ hs.dispatches).filter _) fun a ha b hb => ?_
    obtain ⟨ha, haid, hain⟩ := mem_inFlightOf.1 ha
    obtain ⟨hb, hbid, hbin⟩ := mem_inFlightOf.1 hb
    exact inFlight_unique hs h hsaga ha hb haid hbid hain hbin
  · refine List.eq_nil_iff_forall_not_mem.2 fun d hd => ?_
    obtain ⟨hd, hid, hin⟩ := mem_inFlightOf.1 hd
    have hstate := inFlight_state hs h hsaga hd hid hin
    rw [hstate] at hterminal
    cases hdir : d.direction <;> simp [hdir, isTerminalSaga] at hterminal

end

/-! ### A run -/

section

attribute [local instance] reference

def sampleSaga : Text := stableSagaID "execution" "plan"

/-- A step that can be undone. -/
def sampleStep (effectID : Text) (sequence : Int) : EnqueueStepRequest where
  sagaID := sampleSaga
  effectID := effectID
  sequence := sequence
  verb := "verb"
  contractHash := "contract"
  arguments := none
  compensationVerb := "undo"
  compensationContract := "contract"
  compensationArguments := none
  fencing := []

def sampleClaim (now : Time) (token : Text) : Op := .claimDispatch none now (.ok token) ⟨"worker", 10, 0, []⟩

def sampleCompletion (effectID token : Text) (outcome : OutcomeClass) : Completion where
  dispatchID := dispatchIDOf (idempotencyKey "namespace" sampleSaga effectID .forward)
  attempt := 1
  leaseToken := token
  outcome := outcome
  result := "null"
  error := "error"
  nextAttemptAt := 0
  exhausted := false
  now := 0

/-- A saga of two steps, up to the success of the first and the claim of the second. -/
def sampleStart : List Op := [
  .createSaga none 1 ⟨"namespace", sampleSaga, "execution", "plan", "digest", true, false⟩,
  .enqueueStep none 2 (sampleStep "first" 1), .enqueueStep none 3 (sampleStep "second" 2), sampleClaim 4 "one",
  .completeDispatch none 5 5 (sampleCompletion "first" "one" .success), sampleClaim 6 "two"]

/-- The second step fails, and the first is to be undone. -/
def sample : List Op :=
  sampleStart ++ [.completeDispatch none 7 7 (sampleCompletion "second" "two" .permanentFailure)]

theorem run_serial_sample :
    ((empty.run sample).forwardsOf sampleSaga).map (·.state) = [.succeeded, .failedPermanent] ∧
      ((empty.run sample).inFlightOf sampleSaga).length ≤ 1 := by
  have hsaga : ∃ saga ∈ (empty.run sample).sagas, saga.sagaID = sampleSaga := by decide +kernel
  obtain ⟨saga, hmem, hid⟩ := hsaga
  exact ⟨by decide +kernel, hid ▸ (run_serial sample rfl hmem).2.2.1⟩

end

end Store
end Effectus

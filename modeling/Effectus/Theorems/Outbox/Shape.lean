import Effectus.Theorems.Outbox.Cores

/-! How the records of a store hang together: keys are unique, every dispatch carries a step of a saga,
    the forward dispatches stand in the order of the steps, and each saga's steps are numbered without
    gaps. All of it is about cores, so only the transitions that add a record have to be looked at. -/

namespace Effectus
namespace Store

variable {s t : Store}

/-! ### Lists -/

/-- The order of a list by a part of the records is the order of their cores. -/
theorem map_filter_core {α β : Type} {c : α → α} {p : α → Bool} {g : α → β} (hp : ∀ x, p (c x) = p x)
    (hg : ∀ x, g (c x) = g x) (xs : List α) :
    (xs.filter p).map g = ((xs.map c).filter p).map g := by
  rw [List.filter_map, List.map_map]
  have he : p ∘ c = p := funext hp
  rw [he]
  exact List.map_congr_left fun x _ => (hg x).symm

/-! ### Keeping cores -/

theorem mem_of_saga? {id : Text} {saga : SagaInstance} (h : s.saga? id = some saga) : saga ∈ s.sagas :=
  Keyed.mem_of_get? h

theorem id_of_saga? {id : Text} {saga : SagaInstance} (h : s.saga? id = some saga) : saga.sagaID = id :=
  Keyed.key_of_get? h

theorem mem_of_dispatch? {id : Text} {d : Dispatch} (h : s.dispatch? id = some d) : d ∈ s.dispatches :=
  Keyed.mem_of_get? h

theorem id_of_dispatch? {id : Text} {d : Dispatch} (h : s.dispatch? id = some d) : d.id = id :=
  Keyed.key_of_get? h

theorem mem_of_step? {sagaID effectID : Text} {step : SagaStep} (h : s.step? sagaID effectID = some step) :
    step ∈ s.steps :=
  Keyed.mem_of_get? h

theorem key_of_step? {sagaID effectID : Text} {step : SagaStep} (h : s.step? sagaID effectID = some step) :
    stepKey step = (sagaID, effectID) :=
  Keyed.key_of_get? h

/-- Unique keys, which make an update rewrite one record. -/
structure Keys (s : Store) : Prop where
  sagas : Keyed.Unique (·.sagaID) s.sagas
  steps : Keyed.Unique stepKey s.steps
  dispatches : Keyed.Unique (·.id) s.dispatches

theorem sameCores_setSaga (hk : Keys s) {x y : SagaInstance} (hx : x ∈ s.sagas) (h : y.core = x.core) :
    SameCores s (s.setSaga y) := by
  have hid : x.sagaID = y.sagaID := ((SagaInstance.core_eq.1 h).2.1).symm
  refine ⟨Keyed.map_modify fun z hz hzk => ?_, rfl, rfl⟩
  rw [hk.sagas.eq_of_key hz hx (hzk.trans hid.symm)]
  exact h

theorem sameCores_setStep (hk : Keys s) {x y : SagaStep} (hx : x ∈ s.steps) (h : y.core = x.core) :
    SameCores s (s.setStep y) := by
  have hid : stepKey x = stepKey y := by
    obtain ⟨h₁, h₂, -⟩ := SagaStep.core_eq.1 h
    simp [stepKey, h₁, h₂]
  refine ⟨rfl, Keyed.map_modify fun z hz hzk => ?_, rfl⟩
  rw [hk.steps.eq_of_key hz hx (hzk.trans hid.symm)]
  exact h

theorem sameCores_setDispatch (hk : Keys s) {x y : Dispatch} (hx : x ∈ s.dispatches) (h : y.core = x.core) :
    SameCores s (s.setDispatch y) := by
  have hid : x.id = y.id := ((Dispatch.core_eq.1 h).1).symm
  refine ⟨rfl, rfl, Keyed.map_modify fun z hz hzk => ?_⟩
  rw [hk.dispatches.eq_of_key hz hx (hzk.trans hid.symm)]
  exact h

theorem sameCores_setAttempts (id : Text) (as : List DispatchAttempt) : SameCores s (s.setAttempts id as) :=
  ⟨rfl, rfl, rfl⟩

/-- A rewriting of the dispatches that keeps each one's core. -/
theorem sameCores_map {f : Dispatch → Dispatch} (hf : ∀ d, (f d).core = d.core) :
    SameCores s { s with dispatches := s.dispatches.map f } := by
  refine ⟨rfl, rfl, ?_⟩
  simp only [List.map_map]
  exact List.map_congr_left fun d _ => hf d

theorem Keys.of_sameCores (h : SameCores s t) (hk : Keys s) : Keys t where
  sagas := by
    have he : ∀ u : Store, u.sagas.map (·.sagaID) = (u.sagas.map (·.core)).map (·.sagaID) := fun u => by
      rw [List.map_map]; rfl
    rw [Keyed.Unique, he, h.sagas, ← he]
    exact hk.sagas
  steps := by
    have he : ∀ u : Store, u.steps.map stepKey = (u.steps.map (·.core)).map stepKey := fun u => by
      rw [List.map_map]; rfl
    rw [Keyed.Unique, he, h.steps, ← he]
    exact hk.steps
  dispatches := by
    have he : ∀ u : Store, u.dispatches.map (·.id) = (u.dispatches.map (·.core)).map (·.id) := fun u => by
      rw [List.map_map]; rfl
    rw [Keyed.Unique, he, h.dispatches, ← he]
    exact hk.dispatches

theorem moved_core (saga : SagaInstance) (state : SagaState) (now : Time) : (moved saga state now).core = saga.core :=
  rfl

theorem sameCores_moved (hk : Keys s) {saga : SagaInstance} (hm : saga ∈ s.sagas) (state : SagaState) (now : Time) :
    SameCores s (s.setSaga (moved saga state now)) :=
  sameCores_setSaga hk hm (moved_core saga state now)

theorem blockUncertain_core (now : Time) (d : Dispatch) : (s.blockUncertain now d).core = d.core := by
  unfold blockUncertain
  split
  · rfl
  split <;> rfl

theorem cancelWaiting_core (now : Time) (d : Dispatch) : (cancelWaiting now d).core = d.core := by
  unfold cancelWaiting
  split <;> rfl

theorem blockInverse_core (now : Time) (d : Dispatch) : (s.blockInverse now d).core = d.core := by
  unfold blockInverse
  split
  · rfl
  · rfl
  · split <;> rfl
  · rfl

theorem sameCores_close (sagaID : Text) (now : Time) :
    SameCores s { s with dispatches := s.closeDispatches sagaID now } := by
  unfold closeDispatches
  refine SameCores.trans (sameCores_map (f := fun d => if d.sagaID = sagaID then s.blockUncertain now d else d) ?_)
    (sameCores_map (s := { s with dispatches := _ })
      (f := fun d => if d.sagaID = sagaID then cancelWaiting now d else d) ?_)
  · intro d
    split
    · exact blockUncertain_core now d
    · rfl
  · intro d
    split
    · exact cancelWaiting_core now d
    · rfl

theorem sameCores_blockInverses (sagaID : Text) (now : Time) :
    SameCores s { s with dispatches := s.blockInverses sagaID now } := by
  refine sameCores_map fun d => ?_
  split
  · exact blockInverse_core now d
  · rfl

theorem sameCores_stopSaga (hk : Keys s) {saga : SagaInstance} (hm : saga ∈ s.sagas) (now : Time) :
    SameCores s (stopSaga now s saga) := by
  have hclose := sameCores_close (s := s) saga.sagaID now
  have hset : ∀ state, SameCores s ({ s with dispatches := s.closeDispatches saga.sagaID now }.setSaga
      (moved saga state now)) := fun state =>
    hclose.trans (sameCores_moved (hk.of_sameCores hclose) hm state now)
  unfold stopSaga
  dsimp only
  split
  · split
    · exact hset _
    · exact hclose
  · exact hset _

theorem stepsOf_append (step : SagaStep) (sagaID : Text) (ds : List Dispatch) :
    ({ s with steps := s.steps ++ [step], dispatches := ds } : Store).stepsOf sagaID =
      s.stepsOf sagaID ++ if step.sagaID = sagaID then [step] else [] := by
  simp only [stepsOf, List.filter_append, List.filter_cons, List.filter_nil, decide_eq_true_eq]

/-! ### The shape -/

section

variable [Platform]

/-- The dispatch that carries a step in a direction. -/
def dispatchFor (direction : Direction) (saga : SagaInstance) (step : SagaStep) (now : Time) : Dispatch :=
  match direction with
  | .forward => forwardDispatch saga step now
  | .compensation => compensationDispatch saga step now

/-- `d` is what was built from `saga` and `step`, up to what calls may change. -/
def Carries (saga : SagaInstance) (step : SagaStep) (d : Dispatch) : Prop :=
  d.core = (dispatchFor d.direction saga step d.createdAt).core

theorem dispatchFor_congr {x y : SagaInstance} {a b : SagaStep} (hx : x.core = y.core) (ha : a.core = b.core)
    (direction : Direction) (now : Time) : dispatchFor direction x a now = dispatchFor direction y b now := by
  obtain ⟨hns, hid, -⟩ := SagaInstance.core_eq.1 hx
  obtain ⟨-, h₁, h₂, h₃, h₄, h₅, h₆, h₇, h₈, h₉, h₁₀, h₁₁⟩ := SagaStep.core_eq.1 ha
  cases direction <;>
    simp only [dispatchFor, forwardDispatch, compensationDispatch, hns, hid, h₁, h₂, h₃, h₄, h₅, h₆, h₇, h₈, h₉,
      h₁₀, h₁₁]

theorem Carries.congr {x y : SagaInstance} {a b : SagaStep} {d e : Dispatch} (hx : x.core = y.core)
    (ha : a.core = b.core) (hd : d.core = e.core) (h : Carries x a d) : Carries y b e := by
  obtain ⟨-, -, -, -, hdir, -, -, -, -, -, -, hcreated⟩ := Dispatch.core_eq.1 hd
  rw [Carries, ← hd, ← hdir, ← hcreated, ← dispatchFor_congr hx ha]
  exact h

namespace Carries

variable {saga : SagaInstance} {step : SagaStep} {d : Dispatch}

theorem id (h : Carries saga step d) :
    d.id = dispatchIDOf (idempotencyKey saga.ns saga.sagaID step.effectID d.direction) := by
  rw [(Dispatch.core_eq.1 h).1]
  cases d.direction <;> rfl

theorem sagaID (h : Carries saga step d) : d.sagaID = saga.sagaID := by
  rw [(Dispatch.core_eq.1 h).2.1]
  cases d.direction <;> rfl

theorem effectID (h : Carries saga step d) : d.effectID = step.effectID := by
  rw [(Dispatch.core_eq.1 h).2.2.1]
  cases d.direction <;> rfl

theorem sequence (h : Carries saga step d) : d.sequence = step.sequence := by
  rw [(Dispatch.core_eq.1 h).2.2.2.1]
  cases d.direction <;> rfl

end Carries

/-- The forward dispatches. -/
def forwards (s : Store) : List Dispatch := s.dispatches.filter fun d => decide (d.direction = .forward)

/-- The saga and effect a dispatch is for. -/
def effectKey (d : Dispatch) : Text × Text := (d.sagaID, d.effectID)

structure Shape (s : Store) : Prop extends Keys s where
  serial : ∀ saga ∈ s.sagas, saga.serial = true
  stepSaga : ∀ step ∈ s.steps, ∃ saga ∈ s.sagas, saga.sagaID = step.sagaID
  carries : ∀ d ∈ s.dispatches, ∃ saga ∈ s.sagas, ∃ step ∈ s.steps, step.sagaID = saga.sagaID ∧ Carries saga step d
  forwards : s.forwards.map effectKey = s.steps.map stepKey
  dense : ∀ sagaID, (s.stepsOf sagaID).map (·.sequence) =
    (List.range (s.stepsOf sagaID).length).map fun i : Nat => (i : Int) + 1

theorem shape_empty : Shape empty where
  sagas := List.nodup_nil
  steps := List.nodup_nil
  dispatches := List.nodup_nil
  serial := by simp [empty]
  stepSaga := by simp [empty]
  carries := by simp [empty]
  forwards := rfl
  dense := fun _ => rfl

theorem Shape.of_sameCores (h : SameCores s t) (hs : Shape s) : Shape t where
  toKeys := hs.toKeys.of_sameCores h
  serial := by
    intro x hx
    obtain ⟨y, hy, he⟩ := h.saga_mem hx
    rw [← (SagaInstance.core_eq.1 he).2.2.2.2.2.1]
    exact hs.serial y hy
  stepSaga := by
    intro x hx
    obtain ⟨y, hy, he⟩ := h.step_mem hx
    obtain ⟨saga, hsaga, hid⟩ := hs.stepSaga y hy
    obtain ⟨saga', hsaga', he'⟩ := h.symm.saga_mem hsaga
    refine ⟨saga', hsaga', ?_⟩
    rw [(SagaInstance.core_eq.1 he').2.1, hid, (SagaStep.core_eq.1 he).1]
  carries := by
    intro x hx
    obtain ⟨y, hy, he⟩ := h.dispatch_mem hx
    obtain ⟨saga, hsaga, step, hstep, hid, hc⟩ := hs.carries y hy
    obtain ⟨saga', hsaga', he'⟩ := h.symm.saga_mem hsaga
    obtain ⟨step', hstep', he''⟩ := h.symm.step_mem hstep
    refine ⟨saga', hsaga', step', hstep', ?_, hc.congr he'.symm he''.symm he⟩
    rw [(SagaInstance.core_eq.1 he').2.1, (SagaStep.core_eq.1 he'').1, hid]
  forwards := by
    have hf : ∀ u : Store, u.forwards.map effectKey =
        ((u.dispatches.map (·.core)).filter fun d => decide (d.direction = .forward)).map effectKey := fun u =>
      map_filter_core (c := Dispatch.core) (fun _ => rfl) (fun _ => rfl) _
    have hg : ∀ u : Store, u.steps.map stepKey = (u.steps.map (·.core)).map stepKey := fun u => by
      rw [List.map_map]; rfl
    rw [hf t, hg t, h.dispatches, h.steps, ← hf, ← hg]
    exact hs.forwards
  dense := by
    intro sagaID
    have hf : ∀ u : Store, (u.stepsOf sagaID).map (·.sequence) =
        ((u.steps.map (·.core)).filter fun x => decide (x.sagaID = sagaID)).map (·.sequence) := fun u =>
      map_filter_core (c := SagaStep.core) (fun _ => rfl) (fun _ => rfl) _
    have hlen : (t.stepsOf sagaID).length = (s.stepsOf sagaID).length := by
      have := congrArg List.length ((hf t).trans (h.steps ▸ (hf s).symm))
      simpa using this
    rw [hf t, h.steps, ← hf s, hlen]
    exact hs.dense sagaID

/-! ### Adding records -/

theorem Shape.addSaga {saga : SagaInstance} (hs : Shape s) (fresh : s.saga? saga.sagaID = none)
    (serial : saga.serial = true) : Shape { s with sagas := s.sagas ++ [saga] } where
  sagas := hs.sagas.append (Keyed.get?_eq_none.1 fresh)
  steps := hs.steps
  dispatches := hs.dispatches
  serial := by
    intro x hx
    rcases List.mem_append.1 hx with hx | hx
    · exact hs.serial x hx
    · rw [List.mem_singleton.1 hx]
      exact serial
  stepSaga := by
    intro x hx
    obtain ⟨y, hy, he⟩ := hs.stepSaga x hx
    exact ⟨y, List.mem_append_left _ hy, he⟩
  carries := by
    intro d hd
    obtain ⟨y, hy, step, hstep, hid, hc⟩ := hs.carries d hd
    exact ⟨y, List.mem_append_left _ hy, step, hstep, hid, hc⟩
  forwards := hs.forwards
  dense := hs.dense

/-- A forward dispatch is found under its saga's and effect's identity. -/
theorem Shape.id_of_forward (hs : Shape s) {saga : SagaInstance} (hsaga : saga ∈ s.sagas) {d : Dispatch}
    (hd : d ∈ s.dispatches) (hid : d.sagaID = saga.sagaID) :
    d.id = dispatchIDOf (idempotencyKey saga.ns saga.sagaID d.effectID d.direction) := by
  obtain ⟨y, hy, step, -, -, hc⟩ := hs.carries d hd
  have he : y = saga := hs.sagas.eq_of_key hy hsaga (hc.sagaID.symm.trans hid)
  rw [he] at hc
  rw [hc.id, hc.effectID]

/-- Every step has its forward dispatch. -/
theorem Shape.forward_of_step (hs : Shape s) {step : SagaStep} (hstep : step ∈ s.steps) :
    ∃ d ∈ s.dispatches, d.direction = .forward ∧ d.sagaID = step.sagaID ∧ d.effectID = step.effectID := by
  have hm : stepKey step ∈ s.forwards.map effectKey := by
    rw [hs.forwards]
    exact List.mem_map.2 ⟨step, hstep, rfl⟩
  obtain ⟨d, hd, he⟩ := List.mem_map.1 hm
  have hd := List.mem_filter.1 hd
  exact ⟨d, hd.1, by simpa using hd.2, (Prod.mk.inj he).1, (Prod.mk.inj he).2⟩

/-- A step whose forward dispatch is new is new. -/
theorem Shape.newStep_key {saga : SagaInstance} {n : NormalizedStep} {now : Time} (hs : Shape s)
    (found : s.saga? n.request.sagaID = some saga)
    (fresh : s.dispatch? (forwardDispatch saga (newStep n) now).id = none) :
    ∀ step ∈ s.steps, stepKey step ≠ stepKey (newStep n) := by
  intro step hstep hkey
  obtain ⟨d, hd, hdir, hds, hde⟩ := hs.forward_of_step hstep
  have hkey := Prod.mk.inj hkey
  have hdid := hs.id_of_forward (mem_of_saga? found) hd (hds.trans (hkey.1.trans (id_of_saga? found).symm))
  rw [hdir, hde, hkey.2] at hdid
  exact Keyed.get?_eq_none.1 fresh d hd hdid

theorem Shape.addStep {saga : SagaInstance} {n : NormalizedStep} {now : Time} (hs : Shape s)
    (found : s.saga? n.request.sagaID = some saga)
    (fresh : s.dispatch? (forwardDispatch saga (newStep n) now).id = none)
    (dense : n.request.sequence = (s.stepsOf n.request.sagaID).length + 1) : Shape (s.addStep saga n now) := by
  have hsaga := mem_of_saga? found
  have hid := id_of_saga? found
  -- The records are added first; the saga's own update keeps cores.
  have hbase : Shape { s with
      steps := s.steps ++ [newStep n], dispatches := s.dispatches ++ [forwardDispatch saga (newStep n) now] } := {
    sagas := hs.sagas
    steps := hs.steps.append (hs.newStep_key found fresh)
    dispatches := hs.dispatches.append (Keyed.get?_eq_none.1 fresh)
    serial := hs.serial
    stepSaga := by
      intro x hx
      rcases List.mem_append.1 hx with hx | hx
      · exact hs.stepSaga x hx
      · rw [List.mem_singleton.1 hx]
        exact ⟨saga, hsaga, hid⟩
    carries := by
      intro d hd
      rcases List.mem_append.1 hd with hd | hd
      · obtain ⟨y, hy, step, hstep, he, hc⟩ := hs.carries d hd
        exact ⟨y, hy, step, List.mem_append_left _ hstep, he, hc⟩
      · rw [List.mem_singleton.1 hd]
        exact ⟨saga, hsaga, newStep n, List.mem_append_right _ (List.mem_singleton.2 rfl), hid.symm, rfl⟩
    forwards := by
      have hf : (({ s with
          steps := s.steps ++ [newStep n]
          dispatches := s.dispatches ++ [forwardDispatch saga (newStep n) now] } : Store).forwards) =
          s.forwards ++ [forwardDispatch saga (newStep n) now] := by
        simp [Store.forwards, forwardDispatch]
      rw [hf, List.map_append, List.map_append, hs.forwards]
      simp [effectKey, stepKey, forwardDispatch, newStep, hid]
    dense := by
      intro sagaID
      rw [stepsOf_append]
      by_cases h : (newStep n).sagaID = sagaID
      · have hn : n.request.sagaID = sagaID := h
        rw [if_pos h, List.map_append, hs.dense, List.length_append, List.length_singleton, List.range_succ,
          List.map_append]
        simp [newStep, dense, hn]
      · rw [if_neg h, List.append_nil]
        exact hs.dense sagaID }
  exact hbase.of_sameCores (sameCores_setSaga hbase.toKeys hsaga rfl)

theorem Shape.addInverse {saga : SagaInstance} {step : SagaStep} {now : Time} (hs : Shape s)
    (hsaga : saga ∈ s.sagas) (hstep : step ∈ s.steps) (hid : step.sagaID = saga.sagaID)
    (fresh : s.dispatch? (compensationDispatch saga step now).id = none) :
    Shape { s with dispatches := s.dispatches ++ [compensationDispatch saga step now] } where
  sagas := hs.sagas
  steps := hs.steps
  dispatches := hs.dispatches.append (Keyed.get?_eq_none.1 fresh)
  serial := hs.serial
  stepSaga := hs.stepSaga
  carries := by
    intro d hd
    rcases List.mem_append.1 hd with hd | hd
    · exact hs.carries d hd
    · rw [List.mem_singleton.1 hd]
      exact ⟨saga, hsaga, step, hstep, hid, rfl⟩
  forwards := by
    have hf : ({ s with dispatches := s.dispatches ++ [compensationDispatch saga step now] } : Store).forwards =
        s.forwards := by
      simp [Store.forwards, compensationDispatch]
    rw [hf]
    exact hs.forwards
  dense := hs.dense

end

end Store
end Effectus

import Effectus.Outbox.Walk
import Effectus.Theorems.Outbox.Runs

/-! Finalizing a stopped execution, in closed form: which records change and to what, with no loop and no
    order. Every walk over the maps computes it; closing twice is closing once. -/

namespace Effectus.Store

variable {s : Store} {now : Time} {d : Dispatch} {saga : SagaInstance} {ids : List Text}

/-! ### The closed form -/

/-- The dispatches of one saga. -/
def dispatchesOf (s : Store) (sagaID : Text) : List Dispatch := s.dispatches.filter fun d => d.sagaID = sagaID

/-- The state a saga is left in: what may have committed blocks it, then what has. -/
def finalState (s : Store) (saga : SagaInstance) : SagaState :=
  if (s.dispatchesOf saga.sagaID).any s.isUncertain then .blockedUnknown
  else if isTerminalSaga saga.state then saga.state
  else if saga.state = .compensating ∨
      (s.dispatchesOf saga.sagaID).any fun d => decide (d.direction = .forward ∧ d.state = .succeeded) then
    .blockedDependency
  else .failed

/-- A saga that is already in its final state is not touched. -/
def closedSaga (s : Store) (now : Time) (saga : SagaInstance) : SagaInstance :=
  if s.finalState saga = saga.state then saga else moved saga (s.finalState saga) now

/-- The store with the sagas `ids` closed. -/
def closing (s : Store) (now : Time) (ids : List Text) : Store :=
  { s with
    sagas := s.sagas.map fun saga => if saga.sagaID ∈ ids then s.closedSaga now saga else saga
    dispatches := s.dispatches.map fun d => if d.sagaID ∈ ids then s.closed now d else d }

/-! ### One dispatch -/

theorem closed_core_eq (now : Time) (d : Dispatch) : (s.closed now d).core = d.core :=
  (cancelWaiting_core now _).trans (blockUncertain_core now d)

theorem closed_sagaID (now : Time) (d : Dispatch) : (s.closed now d).sagaID = d.sagaID :=
  (Dispatch.core_eq.1 (closed_core_eq now d)).2.1

theorem closed_id (now : Time) (d : Dispatch) : (s.closed now d).id = d.id :=
  (Dispatch.core_eq.1 (closed_core_eq now d)).1

/-- What a closed dispatch can be: it neither runs nor waits, and is blocked exactly if its effect was
uncertain. -/
theorem closed_state (now : Time) (d : Dispatch) :
    (s.closed now d).state ≠ .inFlight ∧ (s.closed now d).state ≠ .queued ∧ (s.closed now d).state ≠ .retryWait ∧
      ((s.closed now d).state = .blockedUnknown ↔ s.isUncertain d) := by
  unfold closed blockUncertain isUncertain
  by_cases hf : d.state = .inFlight
  · simp [hf, blockExpiredDispatch, cancelWaiting]
  by_cases hr : s.isUncertainRetry d = true
  · simp [hf, hr, blockUnknownRetryDispatch, cancelWaiting]
  by_cases hw : d.state = .queued ∨ d.state = .retryWait
  · rcases hw with hw | hw <;> simp [hr, hw, cancelWaiting, cancelDispatch]
  · obtain ⟨hq, hw⟩ := not_or.1 hw
    simp [hf, hr, hq, hw, cancelWaiting]

theorem closed_eq_self (hf : d.state ≠ .inFlight) (hq : d.state ≠ .queued) (hw : d.state ≠ .retryWait) :
    s.closed now d = d := by
  have hr : s.isUncertainRetry d = false := by simp [isUncertainRetry, hw]
  simp [closed, blockUncertain, cancelWaiting, hf, hq, hw, hr]

theorem isUncertain_eq (hf : d.state ≠ .inFlight) (hw : d.state ≠ .retryWait) :
    s.isUncertain d = decide (d.state = .blockedUnknown) := by
  simp [isUncertain, isUncertainRetry, hf, hw]

theorem isUncertain_congr {t : Store} (h : t.attempts = s.attempts) (d : Dispatch) :
    t.isUncertain d = s.isUncertain d := by
  simp [isUncertain, isUncertainRetry, h]

theorem closed_congr {t : Store} (h : t.attempts = s.attempts) (now : Time) (d : Dispatch) :
    t.closed now d = s.closed now d := by
  simp [closed, blockUncertain, isUncertainRetry, h]

theorem closed_result (now : Time) (d : Dispatch) : (s.closed now d).result = d.result := by
  have hcancel : ∀ d : Dispatch, (cancelWaiting now d).result = d.result := by
    intro d
    unfold cancelWaiting
    split <;> rfl
  rw [closed, hcancel, blockUncertain]
  split
  · rfl
  split <;> rfl

/-! ### One saga -/

theorem finalState_terminal (saga : SagaInstance) : isTerminalSaga (s.finalState saga) = true := by
  unfold finalState
  split
  · rfl
  split
  · assumption
  split <;> rfl

theorem closedSaga_state (now : Time) (saga : SagaInstance) : (s.closedSaga now saga).state = s.finalState saga := by
  unfold closedSaga
  split
  · rename_i h
    exact h.symm
  · rfl

theorem closedSaga_core (now : Time) (saga : SagaInstance) : (s.closedSaga now saga).core = saga.core := by
  unfold closedSaga
  split
  · rfl
  · exact moved_core ..

theorem closedSaga_sagaID (now : Time) (saga : SagaInstance) : (s.closedSaga now saga).sagaID = saga.sagaID :=
  (SagaInstance.core_eq.1 (closedSaga_core now saga)).2.1

theorem closedSaga_executionID (now : Time) (saga : SagaInstance) :
    (s.closedSaga now saga).executionID = saga.executionID :=
  (SagaInstance.core_eq.1 (closedSaga_core now saga)).2.2.1

/-- A saga's closing reads its own dispatches only. -/
theorem closedSaga_congr {t : Store} (ha : t.attempts = s.attempts)
    (hd : t.dispatchesOf saga.sagaID = s.dispatchesOf saga.sagaID) : t.closedSaga now saga = s.closedSaga now saga := by
  have hu : t.isUncertain = s.isUncertain := funext (isUncertain_congr ha)
  have hf : t.finalState saga = s.finalState saga := by rw [finalState, finalState, hd, hu]
  rw [closedSaga, closedSaga, hf]

/-- The fold over the dispatches, in any order: what is uncertain overrides what succeeded. -/
theorem foldl_stoppedState (sagaID : Text) (start : SagaState) (ds : List Dispatch) :
    ds.foldl (s.stoppedState sagaID) start =
      if (ds.any fun d => decide (d.sagaID = sagaID) && s.isUncertain d) ∨ start = .blockedUnknown then .blockedUnknown
      else if ds.any fun d =>
          decide (d.sagaID = sagaID) && decide (d.direction = .forward ∧ d.state = .succeeded) then .blockedDependency
      else start := by
  induction ds generalizing start with
  | nil =>
    by_cases h : start = .blockedUnknown <;> simp [h]
  | cons d ds ih =>
    rw [List.foldl_cons, ih]
    unfold stoppedState
    by_cases hid : d.sagaID = sagaID
    · by_cases hu : s.isUncertain d = true
      · simp [hid, hu]
      by_cases hs : d.direction = .forward ∧ d.state = .succeeded
      · by_cases hb : start = .blockedUnknown <;> simp [hid, hu, hs, hb]
      · have hs' : ¬(d.direction = .forward ∧ d.state = .succeeded ∧ start ≠ .blockedUnknown) :=
          fun h => hs ⟨h.1, h.2.1⟩
        simp [hid, hu, hs, hs']
    · simp [hid]

theorem any_dispatchesOf (sagaID : Text) (p : Dispatch → Bool) :
    (s.dispatchesOf sagaID).any p = s.dispatches.any fun d => decide (d.sagaID = sagaID) && p d := by
  rw [dispatchesOf, List.any_filter]

/-- The saga the two branches of the source compute, from what the passes over any list with the saga's
dispatches found. -/
theorem closedSaga_terminal (s : Store) (now : Time) (ht : isTerminalSaga saga.state = true) :
    s.closedSaga now saga =
      if (s.dispatches.any fun d => decide (d.sagaID = saga.sagaID) && s.isUncertain d) ∧ saga.state ≠ .blockedUnknown then
        moved saga .blockedUnknown now
      else saga := by
  rw [closedSaga, finalState, any_dispatchesOf]
  by_cases hu : (s.dispatches.any fun d => decide (d.sagaID = saga.sagaID) && s.isUncertain d) = true
  · by_cases hb : saga.state = .blockedUnknown
    · simp [hu, hb]
    · have hb' : ¬SagaState.blockedUnknown = saga.state := fun h => hb h.symm
      simp [hu, hb, hb']
  · simp [hu, ht]

theorem closedSaga_open (ht : isTerminalSaga saga.state = false) :
    s.closedSaga now saga =
      moved saga (s.dispatches.foldl (s.stoppedState saga.sagaID)
        (if saga.state = .compensating then .blockedDependency else .failed)) now := by
  have hne : s.finalState saga ≠ saga.state := fun h => by
    have := finalState_terminal (s := s) saga
    rw [h, ht] at this
    cases this
  rw [closedSaga, if_neg hne, foldl_stoppedState, finalState, any_dispatchesOf, any_dispatchesOf]
  congr 1
  have hopen : ¬isTerminalSaga saga.state = true := by simp [ht]
  rw [if_neg hopen]
  by_cases hc : saga.state = .compensating <;> simp [hc]

/-! ### Closing some sagas -/

theorem closing_sagas (now : Time) (ids : List Text) : (s.closing now ids).sagas =
    s.sagas.map fun saga => if saga.sagaID ∈ ids then s.closedSaga now saga else saga := rfl

theorem closing_dispatches (now : Time) (ids : List Text) : (s.closing now ids).dispatches =
    s.dispatches.map fun d => if d.sagaID ∈ ids then s.closed now d else d := rfl

theorem closing_attempts (now : Time) (ids : List Text) : (s.closing now ids).attempts = s.attempts := rfl

theorem closing_nil : s.closing now [] = s := by simp [closing]

theorem closing_sagaIDs (now : Time) (ids : List Text) :
    (s.closing now ids).sagas.map (·.sagaID) = s.sagas.map (·.sagaID) := by
  rw [closing, List.map_map]
  refine List.map_congr_left fun saga _ => ?_
  rw [Function.comp_apply]
  split
  · exact closedSaga_sagaID now saga
  · rfl

theorem closing_dispatchIDs (now : Time) (ids : List Text) :
    (s.closing now ids).dispatches.map (·.id) = s.dispatches.map (·.id) := by
  rw [closing, List.map_map]
  refine List.map_congr_left fun d _ => ?_
  rw [Function.comp_apply]
  split
  · exact closed_id now d
  · rfl

theorem closing_keys (hk : Keys s) : Keys (s.closing now ids) where
  sagas := by
    rw [Keyed.Unique, closing_sagaIDs]
    exact hk.sagas
  steps := hk.steps
  dispatches := by
    rw [Keyed.Unique, closing_dispatchIDs]
    exact hk.dispatches

/-- A saga that is not among those closed keeps its dispatches. -/
theorem dispatchesOf_closing {sagaID : Text} (h : sagaID ∉ ids) :
    (s.closing now ids).dispatchesOf sagaID = s.dispatchesOf sagaID := by
  have hown : ∀ d : Dispatch, ((fun d : Dispatch => decide (d.sagaID = sagaID)) ∘
      fun d => if d.sagaID ∈ ids then s.closed now d else d) d = decide (d.sagaID = sagaID) := fun d => by
    rw [Function.comp_apply]
    split
    · rw [closed_sagaID]
    · rfl
  rw [dispatchesOf, dispatchesOf, closing_dispatches, List.filter_map, List.filter_congr fun d _ => hown d]
  refine (List.map_congr_left fun d hd => ?_).trans (List.map_id _)
  have hid : d.sagaID = sagaID := by simpa using (List.mem_filter.1 hd).2
  rw [if_neg (hid ▸ h), id]

/-- Closing one more saga. -/
theorem closing_closing {k : Text} (h : k ∉ ids) : (s.closing now ids).closing now [k] = s.closing now (ids ++ [k]) := by
  have hsagas : ((s.closing now ids).closing now [k]).sagas = (s.closing now (ids ++ [k])).sagas := by
    rw [closing_sagas, closing_sagas, closing_sagas, List.map_map]
    refine List.map_congr_left fun saga _ => ?_
    by_cases hk : saga.sagaID = k
    · have hsame : (s.closing now ids).closedSaga now saga = s.closedSaga now saga :=
        closedSaga_congr rfl (dispatchesOf_closing (hk ▸ h))
      simp [hk, h, hsame]
    · by_cases hm : saga.sagaID ∈ ids
      · simp [hm, hk, closedSaga_sagaID]
      · simp [hm, hk]
  have hdispatches : ((s.closing now ids).closing now [k]).dispatches = (s.closing now (ids ++ [k])).dispatches := by
    rw [closing_dispatches, closing_dispatches, closing_dispatches, List.map_map]
    refine List.map_congr_left fun d _ => ?_
    by_cases hk : d.sagaID = k
    · simp [hk, h, closed_congr (closing_attempts now ids)]
    · by_cases hm : d.sagaID ∈ ids
      · simp [hm, hk, closed_sagaID]
      · simp [hm, hk]
  exact (Store.mk.injEq ..).mpr ⟨hsagas, rfl, hdispatches, rfl⟩

/-! ### One saga after another -/

theorem stopSaga_eq (hk : Keys s) (hm : saga ∈ s.sagas) : stopSaga now s saga = s.closing now [saga.sagaID] := by
  have hdispatches : (stopSaga now s saga).dispatches = (s.closing now [saga.sagaID]).dispatches := by
    rw [stopSaga_dispatches, closeDispatches_eq, closing_dispatches]
    simp
  -- The record is the only one under its key, so writing it back is rewriting that record.
  have hwrite : ∀ saga' : SagaInstance, saga'.sagaID = saga.sagaID → saga' = s.closedSaga now saga →
      (s.sagas.map fun x => if x.sagaID = saga'.sagaID then saga' else x) = (s.closing now [saga.sagaID]).sagas := by
    intro saga' hid hsaga
    rw [closing_sagas]
    refine List.map_congr_left fun x hx => ?_
    by_cases he : x.sagaID = saga.sagaID
    · rw [if_pos (he.trans hid.symm), if_pos (List.mem_singleton.2 he), hk.sagas.eq_of_key hx hm he]
      exact hsaga
    · simp [he, hid]
  have hsagas : (stopSaga now s saga).sagas = (s.closing now [saga.sagaID]).sagas := by
    unfold stopSaga
    dsimp only
    split
    · rename_i ht
      have hclosed := closedSaga_terminal s now ht
      split
      · rename_i hu
        rw [if_pos hu] at hclosed
        exact hwrite _ rfl hclosed.symm
      · rename_i hu
        rw [if_neg hu] at hclosed
        rw [← hwrite saga rfl hclosed.symm]
        refine (List.map_id _).symm.trans (List.map_congr_left fun x hx => ?_)
        by_cases he : x.sagaID = saga.sagaID
        · rw [hk.sagas.eq_of_key hx hm he]
          simp
        · simp [he]
    · rename_i ht
      exact hwrite _ rfl (closedSaga_open (by simpa using ht)).symm
  exact (Store.mk.injEq ..).mpr ⟨hsagas, stopSaga_steps now saga, hdispatches, stopSaga_attempts now saga⟩

theorem mem_closing {x : SagaInstance} (hx : x ∈ s.sagas) (h : x.sagaID ∉ ids) : x ∈ (s.closing now ids).sagas := by
  rw [closing_sagas]
  exact List.mem_map.2 ⟨x, hx, if_neg h⟩

theorem foldl_stopSaga (now : Time) (hk : Keys s) : ∀ (xs : List SagaInstance) (ids : List Text),
    (ids ++ xs.map (·.sagaID)).Nodup → (∀ x ∈ xs, x ∈ s.sagas) →
    xs.foldl (stopSaga now) (s.closing now ids) = s.closing now (ids ++ xs.map (·.sagaID))
  | [], ids, _, _ => by simp
  | x :: xs, ids, hn, hm => by
    have hx : x.sagaID ∉ ids := fun h => List.disjoint_of_nodup_append hn h (List.mem_cons_self ..)
    have hn' : ((ids ++ [x.sagaID]) ++ xs.map (·.sagaID)).Nodup := by simpa using hn
    rw [List.foldl_cons, stopSaga_eq (closing_keys hk) (mem_closing (hm x (List.mem_cons_self ..)) hx),
      closing_closing hx, foldl_stopSaga now hk xs _ hn' fun y hy => hm y (List.mem_cons_of_mem _ hy)]
    simp

/-- The keys of an execution's sagas. -/
def sagaIDsOf (s : Store) (executionID : Text) : List Text := (s.sagasOf executionID).map (·.sagaID)

/-- What the call leaves, in closed form. -/
def finalized (s : Store) (now : Time) (executionID : Text) : Store := s.closing now (s.sagaIDsOf executionID)

theorem foldl_sagasOf (hk : Keys s) (now : Time) (executionID : Text) :
    (s.sagasOf executionID).foldl (stopSaga now) s = s.finalized now executionID := by
  have h := foldl_stopSaga now hk (s.sagasOf executionID) [] (hk.sagas.sublist (List.filter_sublist.map _))
    fun x hx => (List.mem_filter.1 hx).1
  rwa [closing_nil, List.nil_append] at h

/-! ### Every walk -/

theorem foldl_or {α : Type} (p : α → Bool) (xs : List α) (b : Bool) :
    xs.foldl (fun b x => b || p x) b = (b || xs.any p) := by
  induction xs generalizing b with
  | nil => simp
  | cons x xs ih => rw [List.foldl_cons, ih, List.any_cons, Bool.or_assoc]

theorem blockTerminal_eq (sagaID : Text) (uncertain : Bool) (d : Dispatch) :
    s.blockTerminal now sagaID uncertain d =
      (uncertain || (decide (d.sagaID = sagaID) && s.isUncertain d),
        if d.sagaID = sagaID then s.blockUncertain now d else d) := by
  unfold blockTerminal isUncertain blockUncertain
  by_cases hid : d.sagaID = sagaID
  · by_cases hf : d.state = .inFlight
    · simp [hid, hf]
    by_cases hr : s.isUncertainRetry d = true
    · simp [hid, hf, hr]
    by_cases hb : d.state = .blockedUnknown <;> simp [hid, hf, hr, hb]
  · simp [hid]

theorem blockOpen_eq (sagaID : Text) (next : SagaState) (d : Dispatch) :
    s.blockOpen now sagaID next d =
      (s.stoppedState sagaID next d, if d.sagaID = sagaID then s.blockUncertain now d else d) := by
  unfold blockOpen stoppedState isUncertain blockUncertain
  by_cases hid : d.sagaID = sagaID
  · by_cases hf : d.state = .inFlight
    · simp [hid, hf]
    by_cases hr : s.isUncertainRetry d = true
    · simp [hid, hf, hr]
    by_cases hb : d.state = .blockedUnknown
    · simp [hid, hr, hb]
    by_cases hs : d.direction = .forward ∧ d.state = .succeeded ∧ next ≠ .blockedUnknown
    · simp [hid, hr, hs]
    · simp [hid, hf, hr, hb, hs]
  · simp [hid]

theorem cancelTurn_eq (sagaID : Text) (u : Unit) (d : Dispatch) :
    cancelTurn now sagaID u d = ((), if d.sagaID = sagaID then cancelWaiting now d else d) := by
  unfold cancelTurn cancelWaiting
  by_cases hid : d.sagaID = sagaID
  · by_cases hw : d.state = .queued ∨ d.state = .retryWait <;> simp [hid, hw]
  · simp [hid]

theorem firstPass_id (sagaID : Text) (d : Dispatch) :
    (if d.sagaID = sagaID then s.blockUncertain now d else d).id = d.id := by
  split
  · exact (Dispatch.core_eq.1 (blockUncertain_core now d)).1
  · rfl

/-- The second pass ends in what both passes make of the dispatches. -/
theorem range_cancelTurn (hk : Keys s) (sagaID : Text) {order : List Text} (ho : order.Perm (s.dispatches.map (·.id))) :
    (Keyed.range (·.id) (cancelTurn now sagaID) order ()
      (s.dispatches.map fun d => if d.sagaID = sagaID then s.blockUncertain now d else d)).2 =
      s.closeDispatches sagaID now := by
  have hkeys : (s.dispatches.map fun d => if d.sagaID = sagaID then s.blockUncertain now d else d).map (·.id) =
      s.dispatches.map (·.id) := by
    rw [List.map_map]
    exact List.map_congr_left fun d _ => firstPass_id sagaID d
  have hsecond : ∀ d : Dispatch, (if d.sagaID = sagaID then cancelWaiting now d else d).id = d.id := by
    intro d
    split
    · exact (Dispatch.core_eq.1 (cancelWaiting_core now d)).1
    · rfl
  rw [Keyed.range_fold (g := fun _ _ => ()) (by rw [Keyed.Unique, hkeys]; exact hk.dispatches) (fun d _ => hsecond d)
    (by rw [hkeys]; exact ho) (fun u d => cancelTurn_eq sagaID u d)]
  rfl

theorem range_blockTerminal (hk : Keys s) (sagaID : Text) {order : List Text}
    (ho : order.Perm (s.dispatches.map (·.id))) :
    Keyed.range (·.id) (s.blockTerminal now sagaID) order false s.dispatches =
      (s.dispatches.any fun d => decide (d.sagaID = sagaID) && s.isUncertain d,
        s.dispatches.map fun d => if d.sagaID = sagaID then s.blockUncertain now d else d) := by
  rw [Keyed.range_fold hk.dispatches (fun d _ => firstPass_id sagaID d) ho (fun b d => blockTerminal_eq sagaID b d), foldl_or, Bool.false_or,
    (Keyed.perm_filterMap_get? hk.dispatches ho).any_eq]

theorem range_blockOpen (hk : Keys s) (sagaID : Text) {order : List Text} (ho : order.Perm (s.dispatches.map (·.id)))
    (start : SagaState) :
    Keyed.range (·.id) (s.blockOpen now sagaID) order start s.dispatches =
      (s.dispatches.foldl (s.stoppedState sagaID) start,
        s.dispatches.map fun d => if d.sagaID = sagaID then s.blockUncertain now d else d) := by
  have hp := Keyed.perm_filterMap_get? hk.dispatches ho
  rw [Keyed.range_fold hk.dispatches (fun d _ => firstPass_id sagaID d) ho (fun next d => blockOpen_eq sagaID next d), foldl_stoppedState,
    foldl_stoppedState, hp.any_eq, hp.any_eq]

theorem closing_one_dispatches (sagaID : Text) :
    (s.closing now [sagaID]).dispatches = s.closeDispatches sagaID now := by
  rw [closing_dispatches, closeDispatches_eq]
  simp

/-- The sagas of the execution among those a loop has met. -/
def metOf (s : Store) (executionID : Text) (met : List Text) : List Text :=
  met.filter fun id => id ∈ s.sagaIDsOf executionID

theorem mem_sagaIDsOf (hk : Keys s) (hm : saga ∈ s.sagas) (executionID : Text) :
    saga.sagaID ∈ s.sagaIDsOf executionID ↔ saga.executionID = executionID := by
  rw [sagaIDsOf, List.mem_map]
  constructor
  · rintro ⟨x, hx, he⟩
    obtain ⟨hx, hexec⟩ := List.mem_filter.1 hx
    obtain rfl := hk.sagas.eq_of_key hx hm he
    simpa using hexec
  · intro he
    exact ⟨saga, List.mem_filter.2 ⟨hm, by simpa using he⟩, rfl⟩

/-- One turn of the loop over the sagas, after the turns at `met`. -/
theorem closeTurn_eq (w : s.Walk) (hk : Keys s) (executionID : Text) {met : List Text} (hm : saga ∈ s.sagas)
    (hnew : saga.sagaID ∉ met) :
    w.closeTurn now executionID (s.closing now (s.metOf executionID met)).dispatches saga =
      ((s.closing now (s.metOf executionID (met ++ [saga.sagaID]))).dispatches,
        if saga.sagaID ∈ s.sagaIDsOf executionID then s.closedSaga now saga else saga) := by
  set t := s.closing now (s.metOf executionID met) with ht
  have htk : Keys t := closing_keys hk
  have hids : t.dispatches.map (·.id) = s.dispatches.map (·.id) := closing_dispatchIDs ..
  have hfirst : (w.firstPass saga.sagaID).Perm (t.dispatches.map (·.id)) := hids ▸ w.firstPass_perm _
  have hsecond : (w.secondPass saga.sagaID).Perm (t.dispatches.map (·.id)) := hids ▸ w.secondPass_perm _
  have hout : saga.sagaID ∉ s.metOf executionID met := fun h => hnew (List.mem_filter.1 h).1
  by_cases hexec : saga.executionID = executionID
  · have hin : saga.sagaID ∈ s.sagaIDsOf executionID := (mem_sagaIDsOf hk hm executionID).2 hexec
    have hmet : s.metOf executionID (met ++ [saga.sagaID]) = s.metOf executionID met ++ [saga.sagaID] := by
      simp [metOf, hin]
    have hclosed : t.closedSaga now saga = s.closedSaga now saga := closedSaga_congr rfl (dispatchesOf_closing hout)
    rw [hmet, ← closing_closing hout, ← ht, closing_one_dispatches, if_pos hin, ← hclosed, Walk.closeTurn,
      if_neg (not_not.2 hexec)]
    by_cases hterm : isTerminalSaga saga.state = true
    · have hpass : Keyed.range (·.id) (s.blockTerminal now saga.sagaID) (w.firstPass saga.sagaID) false t.dispatches = _ :=
        range_blockTerminal htk saga.sagaID hfirst
      rw [if_pos hterm]
      dsimp only
      rw [hpass, range_cancelTurn htk saga.sagaID hsecond, closedSaga_terminal _ _ hterm]
    · have hopen : saga.state = .running ∨ saga.state = .compensating := by
        revert hterm
        cases saga.state <;> simp [isTerminalSaga]
      have hgo : ¬(saga.state ≠ .running ∧ saga.state ≠ .compensating) := by
        rintro ⟨hr, hc⟩
        exact hopen.elim hr hc
      have hpass : ∀ start, Keyed.range (·.id) (s.blockOpen now saga.sagaID) (w.firstPass saga.sagaID) start
          t.dispatches = _ := range_blockOpen htk saga.sagaID hfirst
      rw [if_neg hterm, if_neg hgo]
      dsimp only
      rw [hpass, range_cancelTurn htk saga.sagaID hsecond, closedSaga_open (by simpa using hterm)]
  · have hnot : saga.sagaID ∉ s.sagaIDsOf executionID := fun h => hexec ((mem_sagaIDsOf hk hm executionID).1 h)
    have hmet : s.metOf executionID (met ++ [saga.sagaID]) = s.metOf executionID met := by simp [metOf, hnot]
    rw [hmet, if_neg hnot, Walk.closeTurn, if_pos hexec]

/-- The loop over the sagas closes them all, in any order. -/
theorem range_closeTurn (w : s.Walk) (hk : Keys s) (executionID : Text) :
    Keyed.range (·.sagaID) (w.closeTurn now executionID) w.sagas s.dispatches s.sagas =
      ((s.finalized now executionID).dispatches, (s.finalized now executionID).sagas) := by
  have hnil : (s.closing now (s.metOf executionID [])).dispatches = s.dispatches := by
    rw [metOf, List.filter_nil, closing_nil]
  have hall : (s.closing now (s.metOf executionID w.sagas)).dispatches = (s.finalized now executionID).dispatches := by
    refine List.map_congr_left fun d _ => ?_
    have hmem : d.sagaID ∈ s.metOf executionID w.sagas ↔ d.sagaID ∈ s.sagaIDsOf executionID := by
      rw [metOf, List.mem_filter, decide_eq_true_iff, and_iff_right_iff_imp]
      intro h
      exact w.sagas_perm.mem_iff.2 ((List.filter_sublist.map _).subset h)
    simp only [hmem]
  have hloop := Keyed.range_eq (F := fun met => (s.closing now (s.metOf executionID met)).dispatches) hk.sagas
    (f := fun saga => if saga.sagaID ∈ s.sagaIDsOf executionID then s.closedSaga now saga else saga)
    (fun saga _ => by
      split
      · exact closedSaga_sagaID now saga
      · rfl)
    w.sagas_perm
    (fun met k saga hsaga hnew => by
      obtain rfl := Keyed.key_of_get? hsaga
      exact closeTurn_eq w hk executionID (Keyed.mem_of_get? hsaga) hnew)
  rw [hnil, hall] at hloop
  exact hloop

/-- A walk finds a live lease exactly if there is one. -/
theorem leased?_cases (w : s.Walk) (hk : Keys s) (executionID : Text) :
    (∃ saga ∈ s.sagasOf executionID, s.hasActiveLease saga.sagaID now = true ∧ w.leased? now executionID = some saga) ∨
      w.leased? now executionID = none ∧ ∀ saga ∈ s.sagasOf executionID, s.hasActiveLease saga.sagaID now = false := by
  have hmem : ∀ saga, saga ∈ w.leaseSagas.filterMap s.saga? ↔ saga ∈ s.sagas := fun saga =>
    (Keyed.perm_filterMap_get? hk.sagas w.leaseSagas_perm).mem_iff
  have hlease : ∀ sagaID, (((w.leaseDispatches sagaID).filterMap s.dispatch?).any fun d =>
      decide (d.sagaID = sagaID ∧ d.state = .inFlight ∧ now < d.leaseDeadline)) = s.hasActiveLease sagaID now :=
    fun sagaID => (Keyed.perm_filterMap_get? hk.dispatches (w.leaseDispatches_perm sagaID)).any_eq
  cases hl : w.leased? now executionID with
  | some saga =>
    rw [Walk.leased?] at hl
    have hp := List.find?_some hl
    rw [hlease, Bool.and_eq_true] at hp
    have hm := (hmem saga).1 (List.mem_of_find?_eq_some hl)
    exact .inl ⟨saga, List.mem_filter.2 ⟨hm, hp.1⟩, hp.2, rfl⟩
  | none =>
    refine .inr ⟨rfl, fun saga hm => ?_⟩
    obtain ⟨hm, hexec⟩ := List.mem_filter.1 hm
    rw [Walk.leased?, List.find?_eq_none] at hl
    have := hl saga ((hmem saga).2 hm)
    rw [hlease, hexec, Bool.true_and, Bool.not_eq_true] at this
    exact this

/-- Along every walk the call leaves the same store, and succeeds on the same ones. -/
theorem walk_eq (w : s.Walk) (hk : Keys s) (ctx : Option Err) (now : Time) (executionID : Text) :
    (∃ err, (w.finalizeStoppedExecution ctx now executionID).1 = .error err) ∧
        (w.finalizeStoppedExecution ctx now executionID).2 = s ∧
        (ctx ≠ none ∨ executionID = [] ∨ ∃ saga ∈ s.sagasOf executionID, s.hasActiveLease saga.sagaID now = true) ∨
      w.finalizeStoppedExecution ctx now executionID = (.ok (), s.finalized now executionID) ∧
        ctx = none ∧ executionID ≠ [] ∧ ∀ saga ∈ s.sagasOf executionID, s.hasActiveLease saga.sagaID now = false := by
  unfold Walk.finalizeStoppedExecution
  cases ctx with
  | some err => exact .inl ⟨⟨err, rfl⟩, rfl, .inl (Option.some_ne_none err)⟩
  | none =>
    dsimp only
    by_cases he : executionID = []
    · rw [if_pos he]
      exact .inl ⟨⟨_, rfl⟩, rfl, .inr (.inl he)⟩
    rw [if_neg he]
    rcases leased?_cases w hk executionID with ⟨saga, hm, hactive, hl⟩ | ⟨hl, hidle⟩
    · rw [hl]
      exact .inl ⟨⟨_, rfl⟩, rfl, .inr (.inr ⟨saga, hm, hactive⟩)⟩
    · rw [hl]
      dsimp only
      rw [range_closeTurn w hk executionID]
      exact .inr ⟨rfl, rfl, he, hidle⟩

theorem finalizeStoppedExecution_eq (w : s.Walk) (hk : Keys s) (ctx : Option Err) (now : Time) (executionID : Text) :
    (w.finalizeStoppedExecution ctx now executionID).2 = (s.finalizeStoppedExecution ctx now executionID).2 := by
  unfold finalizeStoppedExecution
  rcases walk_eq w hk ctx now executionID with ⟨-, hs, hwhy⟩ | ⟨hw, rfl, he, hidle⟩
  · rw [hs]
    cases ctx with
    | some err => rfl
    | none =>
      by_cases he : executionID = []
      · simp [he]
      simp only [if_neg he]
      cases hf : (s.sagasOf executionID).find? fun saga => s.hasActiveLease saga.sagaID now with
      | some saga => rfl
      | none =>
        obtain hc | he' | ⟨saga, hm, hactive⟩ := hwhy
        · exact absurd rfl hc
        · exact absurd he' he
        · exact absurd hactive (List.find?_eq_none.1 hf saga hm)
  · have hf : ((s.sagasOf executionID).find? fun saga => s.hasActiveLease saga.sagaID now) = none :=
      List.find?_eq_none.2 fun saga hm => by simp [hidle saga hm]
    simp only [hw, if_neg he, hf]
    exact (foldl_sagasOf hk now executionID).symm

/-! ### Closing twice -/

theorem any_isUncertain_closing {sagaID : Text} (h : sagaID ∈ ids) :
    ((s.closing now ids).dispatchesOf sagaID).any (s.closing now ids).isUncertain =
      (s.dispatchesOf sagaID).any s.isUncertain := by
  rw [any_dispatchesOf, any_dispatchesOf, closing_dispatches, List.any_map]
  congr 1
  funext d
  by_cases hid : d.sagaID = sagaID
  · obtain ⟨hf, -, hw, hb⟩ := closed_state (s := s) now d
    have hm : d.sagaID ∈ ids := hid ▸ h
    have hu : (s.closing now ids).isUncertain (s.closed now d) = s.isUncertain d := by
      rw [isUncertain_eq hf hw, Bool.eq_iff_iff, decide_eq_true_iff]
      exact hb
    rw [Function.comp_apply, if_pos hm, closed_sagaID, hu]
  · have hne : (if d.sagaID ∈ ids then s.closed now d else d).sagaID ≠ sagaID := by
      split
      · rwa [closed_sagaID]
      · exact hid
    rw [Function.comp_apply, decide_eq_false hne, decide_eq_false hid, Bool.false_and, Bool.false_and]

/-- A closed saga is in its final state. -/
theorem finalState_closing (now : Time) (hm : saga.sagaID ∈ ids) :
    (s.closing now ids).finalState (s.closedSaga now saga) = (s.closedSaga now saga).state := by
  have hterm : isTerminalSaga (s.closedSaga now saga).state = true := by
    rw [closedSaga_state]
    exact finalState_terminal saga
  rw [finalState, closedSaga_sagaID, any_isUncertain_closing hm, if_pos hterm]
  split
  · rename_i hu
    rw [closedSaga_state, finalState, if_pos hu]
  · rfl

theorem closing_twice (now now' : Time) (ids : List Text) :
    (s.closing now ids).closing now' ids = s.closing now ids := by
  have hsagas : ((s.closing now ids).closing now' ids).sagas = (s.closing now ids).sagas := by
    rw [closing_sagas, closing_sagas, List.map_map]
    refine List.map_congr_left fun saga _ => ?_
    by_cases hm : saga.sagaID ∈ ids
    · have hm' : (s.closedSaga now saga).sagaID ∈ ids := by rwa [closedSaga_sagaID]
      rw [Function.comp_apply, if_pos hm, if_pos hm', closedSaga, if_pos (finalState_closing now hm)]
    · simp [hm]
  have hdispatches : ((s.closing now ids).closing now' ids).dispatches = (s.closing now ids).dispatches := by
    rw [closing_dispatches, closing_dispatches, List.map_map]
    refine List.map_congr_left fun d _ => ?_
    by_cases hm : d.sagaID ∈ ids
    · obtain ⟨hf, hq, hw, -⟩ := closed_state (s := s) now d
      have hm' : (s.closed now d).sagaID ∈ ids := by rwa [closed_sagaID]
      rw [Function.comp_apply, if_pos hm, if_pos hm', closed_eq_self hf hq hw]
    · simp [hm]
  exact (Store.mk.injEq ..).mpr ⟨hsagas, rfl, hdispatches, rfl⟩

theorem sagaIDsOf_closing (executionID : Text) : (s.closing now ids).sagaIDsOf executionID = s.sagaIDsOf executionID := by
  have hexec : ∀ saga : SagaInstance, ((fun saga : SagaInstance => decide (saga.executionID = executionID)) ∘
      fun saga => if saga.sagaID ∈ ids then s.closedSaga now saga else saga) saga =
        decide (saga.executionID = executionID) := fun saga => by
    rw [Function.comp_apply]
    split
    · rw [closedSaga_executionID]
    · rfl
  rw [sagaIDsOf, sagaIDsOf, sagasOf, sagasOf, closing_sagas, List.filter_map, List.map_map,
    List.filter_congr fun saga _ => hexec saga]
  refine List.map_congr_left fun saga _ => ?_
  rw [Function.comp_apply]
  split
  · exact closedSaga_sagaID now saga
  · rfl

theorem finalized_twice (now now' : Time) (executionID : Text) :
    (s.finalized now executionID).finalized now' executionID = s.finalized now executionID := by
  rw [finalized, finalized, sagaIDsOf_closing, closing_twice]

/-- Nothing is in flight in a closed saga. -/
theorem finalized_idle (now now' : Time) {executionID : Text}
    (hm : saga ∈ (s.finalized now executionID).sagasOf executionID) :
    (s.finalized now executionID).hasActiveLease saga.sagaID now' = false := by
  have hid : saga.sagaID ∈ s.sagaIDsOf executionID := by
    have hids : (s.finalized now executionID).sagaIDsOf executionID = s.sagaIDsOf executionID := sagaIDsOf_closing executionID
    rw [← hids]
    exact List.mem_map_of_mem hm
  rw [hasActiveLease, List.any_eq_false]
  intro d hd hlive
  obtain ⟨hsaga, hf, -⟩ := of_decide_eq_true hlive
  obtain ⟨d₀, -, rfl⟩ := List.mem_map.1 hd
  by_cases hin : d₀.sagaID ∈ s.sagaIDsOf executionID
  · rw [if_pos hin] at hf
    exact (closed_state now d₀).1 hf
  · rw [if_neg hin] at hsaga
    exact hin (hsaga ▸ hid)

/-! ### What is left alone -/

/-- What finalizing an execution may not change: the records of other executions, every step and attempt,
and what has succeeded or has a result. No record comes or goes. -/
structure Spares (s t : Store) (executionID : Text) : Prop where
  sagas : t.sagas.map (·.sagaID) = s.sagas.map (·.sagaID)
  dispatches : t.dispatches.map (·.id) = s.dispatches.map (·.id)
  steps : t.steps = s.steps
  attempts : t.attempts = s.attempts
  otherSaga : ∀ saga ∈ s.sagas, saga.executionID ≠ executionID → t.saga? saga.sagaID = some saga
  otherDispatch : ∀ saga ∈ s.sagas, saga.executionID ≠ executionID → ∀ d ∈ s.dispatches, d.sagaID = saga.sagaID →
    t.dispatch? d.id = some d
  succeeded : ∀ d ∈ s.dispatches, d.state = .succeeded → t.dispatch? d.id = some d
  results : ∀ d ∈ s.dispatches, (t.dispatch? d.id).map (·.result) = some d.result

theorem Spares.refl (hk : Keys s) (executionID : Text) : Spares s s executionID where
  sagas := rfl
  dispatches := rfl
  steps := rfl
  attempts := rfl
  otherSaga := fun _ hm _ => hk.sagas.get?_of_mem hm
  otherDispatch := fun _ _ _ _ hd _ => hk.dispatches.get?_of_mem hd
  succeeded := fun _ hd _ => hk.dispatches.get?_of_mem hd
  results := fun d hd => by
    have h : s.dispatch? d.id = some d := hk.dispatches.get?_of_mem hd
    rw [h, Option.map_some]

theorem dispatch?_closing (hk : Keys s) (hd : d ∈ s.dispatches) :
    (s.closing now ids).dispatch? d.id = some (if d.sagaID ∈ ids then s.closed now d else d) := by
  have hkeep : ∀ x ∈ s.dispatches, (if x.sagaID ∈ ids then s.closed now x else x).id = x.id := by
    intro x _
    split
    · exact closed_id now x
    · rfl
  have hget : Keyed.get? (·.id) s.dispatches d.id = some d := hk.dispatches.get?_of_mem hd
  rw [dispatch?, closing_dispatches, Keyed.get?_map hkeep, hget, Option.map_some]

theorem finalized_spares (hk : Keys s) (now : Time) (executionID : Text) :
    Spares s (s.finalized now executionID) executionID where
  sagas := closing_sagaIDs ..
  dispatches := closing_dispatchIDs ..
  steps := rfl
  attempts := rfl
  otherSaga := fun saga hm hne => by
    have hout : saga.sagaID ∉ s.sagaIDsOf executionID := fun h => hne ((mem_sagaIDsOf hk hm executionID).1 h)
    exact (closing_keys hk).sagas.get?_of_mem (mem_closing hm hout)
  otherDispatch := fun saga hm hne d hd hid => by
    have hout : d.sagaID ∉ s.sagaIDsOf executionID := fun h =>
      hne ((mem_sagaIDsOf hk hm executionID).1 (hid ▸ h))
    rw [finalized, dispatch?_closing hk hd, if_neg hout]
  succeeded := fun d hd hs => by
    have hself : s.closed now d = d := closed_eq_self (by simp [hs]) (by simp [hs]) (by simp [hs])
    rw [finalized, dispatch?_closing hk hd, hself, ite_self]
  results := fun d hd => by
    rw [finalized, dispatch?_closing hk hd, Option.map_some]
    split
    · rw [closed_result]
    · rfl

/-! ### From every reachable store -/

section

variable [Platform]

/-- Finalizing a stopped execution is order-free, idempotent and local. -/
theorem finalize_stopped (ops : List Op) (ctx : Option Err) (now : Time) (executionID : Text)
    (w : (empty.run ops).Walk) :
    (∀ w' : (empty.run ops).Walk, (w.finalizeStoppedExecution ctx now executionID).2 =
      (w'.finalizeStoppedExecution ctx now executionID).2) ∧
    (w.finalizeStoppedExecution ctx now executionID).2 =
      (empty.run ops).after (.finalizeStoppedExecution ctx now executionID) ∧
    (∀ err, (w.finalizeStoppedExecution ctx now executionID).1 = .error err →
      (w.finalizeStoppedExecution ctx now executionID).2 = empty.run ops) ∧
    ((w.finalizeStoppedExecution ctx now executionID).1 = .ok () →
      ∀ (again : (w.finalizeStoppedExecution ctx now executionID).2.Walk) (ctx' : Option Err) (later : Time),
        (again.finalizeStoppedExecution ctx' later executionID).2 =
            (w.finalizeStoppedExecution ctx now executionID).2 ∧
          (ctx' = none → (again.finalizeStoppedExecution ctx' later executionID).1 = .ok ())) ∧
    Spares (empty.run ops) (w.finalizeStoppedExecution ctx now executionID).2 executionID := by
  have hk : Keys (empty.run ops) := (run_shape ops).toKeys
  have heq := fun w : (empty.run ops).Walk => finalizeStoppedExecution_eq w hk ctx now executionID
  refine ⟨fun w' => (heq w).trans (heq w').symm, heq w, ?_⟩
  rcases walk_eq w hk ctx now executionID with ⟨⟨err, herr⟩, hs, -⟩ | ⟨hw, rfl, he, -⟩
  · rw [hs, herr]
    exact ⟨fun _ _ => rfl, (nomatch ·), Spares.refl hk executionID⟩
  · rw [hw]
    refine ⟨fun _ h => (nomatch h), fun _ again ctx' later => ?_, finalized_spares hk now executionID⟩
    rcases walk_eq again (closing_keys hk) ctx' later executionID with ⟨-, hs, hwhy⟩ | ⟨hagain, rfl, -, -⟩
    · refine ⟨hs, fun hctx => ?_⟩
      obtain hc | he' | ⟨saga, hm, hactive⟩ := hwhy
      · exact absurd hctx hc
      · exact absurd he' he
      · rw [finalized_idle now later hm] at hactive
        cases hactive
    · rw [hagain, finalized_twice]
      exact ⟨rfl, fun _ => rfl⟩

end

end Effectus.Store

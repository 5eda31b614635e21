import Effectus.Theorems.Fencing.Safety
import Effectus.Theorems.Outbox.Arguments
import Effectus.Theorems.Outbox.Leases
import Effectus.Theorems.Outbox.Uncertainty
import Effectus.Theorems.Runtime.Dispatcher
import Effectus.Theorems.Runtime.World

/-!
Whether what an executor returned is recorded. A dispatch that called its executor completes the attempt before it
returns, and the store takes the completion while the lease is current, unless the outcome has an error without a text:
the check of outcomes lets it pass, and the store refuses it.
-/

namespace Effectus

/-! ### Records -/

namespace Store

variable {s t : Store}

/-- The attempt was completed with this outcome. -/
def AttemptRecorded (id : Text) (attempt : Nat) (outcome : OutcomeClass) (s : Store) : Prop :=
  ∃ a ∈ s.attempts id, a.attempt = attempt ∧ a.completedAt ≠ 0 ∧ a.outcome = outcome

/-- While an attempt is in flight it is not recorded. -/
theorem not_recorded_inFlight (hh : Histories s) {d : Dispatch} (hd : d ∈ s.dispatches) (hin : d.state = .inFlight)
    (outcome : OutcomeClass) : ¬AttemptRecorded d.id d.attempt outcome s := by
  rintro ⟨a, ha, hattempt, hdone, -⟩
  have hhist := hh.each d hd
  obtain ⟨prior, last, hsplit, hopen, -⟩ := hhist.lease hin
  rw [hsplit] at ha
  rcases List.mem_append.1 ha with hprior | hlast
  · exact absurd hattempt (hhist.last_attempt hsplit |>.2 a hprior).ne
  · rw [List.mem_singleton.1 hlast] at hdone
    exact hdone hopen.2

section

variable [Platform]

theorem AttemptRecorded.trans {id : Text} {attempt : Nat} {outcome : OutcomeClass} (hs : Shape s)
    (h : Histories s ∧ AttemptRecorded id attempt outcome s) (ht : Trans s t) :
    Histories t ∧ AttemptRecorded id attempt outcome t := by
  obtain ⟨hh, a, ha, hattempt, hdone, hout⟩ := h
  obtain ⟨k, hk⟩ := List.getElem?_of_mem ha
  have hkept := RecordAt.trans (fun hopen => hdone hopen.2) hs ⟨hh, hk⟩ ht
  exact ⟨hkept.1, a, List.mem_of_getElem? hkept.2, hattempt, hdone, hout⟩

theorem settle_recorded (hh : Histories s) {d : Dispatch} (step : SagaStep) (saga : SagaInstance) {c : Completion}
    (hd : d ∈ s.dispatches) (hin : d.state = .inFlight) (hnow : c.now ≠ 0) :
    AttemptRecorded d.id d.attempt c.outcome (s.settle d step saga c) := by
  have hhist := hh.each d hd
  obtain ⟨prior, last, hsplit, -⟩ := hhist.lease hin
  refine ⟨completedAttempt c last, ?_, (hhist.last_attempt hsplit).1, hnow, rfl⟩
  rw [settle_attempts, Function.update_self, hsplit, History.modifyLast_concat]
  exact List.mem_append_right _ (List.mem_singleton_self _)

/-- A dispatch has its saga and its step. -/
theorem dependencies_of_mem (hs : Shape s) {d : Dispatch} (hd : d ∈ s.dispatches) :
    ∃ saga step, s.saga? d.sagaID = some saga ∧ s.step? d.sagaID d.effectID = some step := by
  obtain ⟨saga, hsaga, step, hstep, hkey, hcarries⟩ := hs.carries d hd
  refine ⟨saga, step, ?_, ?_⟩
  · rw [hcarries.sagaID]
    exact hs.sagas.get?_of_mem hsaga
  · have hget := hs.steps.get?_of_mem hstep
    rw [stepKey, hkey, ← hcarries.sagaID, ← hcarries.effectID] at hget
    exact hget

/-- While the lease is current, a completion is recorded exactly if it is valid. -/
theorem completeDispatch_recorded (hs : Shape s) (hh : Histories s) {c : Completion} {d : Dispatch}
    (hd : s.dispatch? c.dispatchID = some d) {readAt checkedAt : Time}
    (hlease : currentLeaseAt d c.attempt c.leaseToken checkedAt = true) (hread : readAt ≠ 0) :
    AttemptRecorded c.dispatchID c.attempt c.outcome (s.completeDispatch none readAt checkedAt c).2 ↔
      validateCompletion c = .ok () := by
  have hmem := mem_of_dispatch? hd
  have hid := id_of_dispatch? hd
  obtain ⟨hin, hattempt, -⟩ := currentLeaseAt_iff.1 hlease
  obtain ⟨saga, step, hsaga, hstep⟩ := dependencies_of_mem hs hmem
  cases hv : validateCompletion c with
  | error err =>
    have heq : s.completeDispatch none readAt checkedAt c = (.error err, s) := by
      unfold completeDispatch
      dsimp only
      rw [show validateCompletion { c with now := if c.now = 0 then readAt else c.now } = .error err from hv]
    rw [heq, ← hid, ← hattempt]
    refine iff_of_false (not_recorded_inFlight hh hmem hin _) ?_
    rintro ⟨⟩
  | ok u =>
    have heq : s.completeDispatch none readAt checkedAt c = (.ok (), s.settle d step saga (stamped c readAt)) := by
      unfold completeDispatch
      dsimp only
      rw [show validateCompletion { c with now := if c.now = 0 then readAt else c.now } = .ok () from hv,
        show s.dispatch? c.dispatchID = some d from hd]
      dsimp only
      rw [if_neg (by simp [hlease]), hsaga, hstep]
      rfl
    rw [heq, ← hid, ← hattempt]
    have hnow : (stamped c readAt).now ≠ 0 := stamped_now fun _ => hread
    have hrecorded := settle_recorded hh step saga hmem hin hnow
    exact iff_of_true hrecorded rfl

end

end Store

/-! ### Outcomes and their completions -/

theorem validateOutcome_cases {outcome : InvocationOutcome} (h : validateOutcome outcome = .ok ()) :
    (outcome.outcomeClass = .success ∧ outcome.err = none) ∨
      ((outcome.outcomeClass = .retryableKnownNotCommitted ∨ outcome.outcomeClass = .permanentFailure ∨
        outcome.outcomeClass = .unknown ∨ outcome.outcomeClass = .staleFence) ∧ ∃ err, outcome.err = some err) := by
  unfold validateOutcome at h
  cases hclass : outcome.outcomeClass <;> simp only [hclass] at h
  case success =>
    split at h
    · cases h
    · simp_all
  case retryableKnownNotCommitted | permanentFailure | unknown | staleFence =>
    split at h
    · cases h
    · simp_all [Option.ne_none_iff_exists']
  all_goals cases h

/-- The completion is for this attempt. -/
structure Completion.For (c : Completion) (dispatch : Dispatch) : Prop where
  dispatchID : c.dispatchID = dispatch.id
  attempt : c.attempt = dispatch.attempt
  leaseToken : c.leaseToken = dispatch.leaseToken

/-- What is asked of a completion whatever its outcome. -/
def Store.Addressed (c : Completion) : Prop := ¬(c.dispatchID = [] ∨ c.attempt = 0 ∨ c.leaseToken = [])

theorem Completion.For.addressed {c : Completion} {dispatch : Dispatch} (hc : c.For dispatch) (hid : dispatch.id ≠ []) (hattempt : dispatch.attempt ≠ 0)
    (htoken : dispatch.leaseToken ≠ []) : Store.Addressed c := by
  rw [Store.Addressed, hc.dispatchID, hc.attempt, hc.leaseToken]
  tauto

section

variable [Platform]

/-- The class an outcome is recorded as: a success with a result that cannot be written is as good as unknown. -/
def InvocationOutcome.recordedClass (outcome : InvocationOutcome) : OutcomeClass :=
  match validateOutcome outcome with
  | .error _ => .unknown
  | .ok () =>
    if outcome.outcomeClass = .success ∧ (canonicalJSON outcome.result).toOption.isNone then .unknown
    else outcome.outcomeClass

/-- The error of an outcome that passes, if it has one, says something. -/
def InvocationOutcome.Described (outcome : InvocationOutcome) : Prop :=
  validateOutcome outcome = .ok () → ∀ err ∈ outcome.err, err.text ≠ []

/-- A completion of the attempt that has the outcome's class, and is valid as far as the outcome goes. -/
structure Completion.Reports (c : Completion) (dispatch : Dispatch) (outcome : InvocationOutcome) : Prop
    extends c.For dispatch where
  reported : c.outcome = outcome.recordedClass
  valid : dispatch.id ≠ [] → dispatch.attempt ≠ 0 → dispatch.leaseToken ≠ [] →
    (Store.validateCompletion c = .ok () ↔ outcome.Described)

namespace Store

variable {c : Completion}

theorem validateCompletion_failure (h : Addressed c) (hclass : c.outcome = .retryableKnownNotCommitted ∨
    c.outcome = .permanentFailure ∨ c.outcome = .unknown ∨ c.outcome = .staleFence) :
    validateCompletion c = .ok () ↔ c.error ≠ [] := by
  unfold validateCompletion
  rw [if_neg h]
  rcases hclass with h | h | h | h
  all_goals
    rw [h]
    dsimp only
    split <;> simp_all

theorem isCanonicalJSON_of_canonical {text hash : Text} (h : CanonicalText text hash) :
    text ≠ [] ∧ (Json.decode text).isNone = false ∧ isCanonicalJSON text = true := by
  obtain ⟨j, hfits, rfl, -⟩ := h
  have hdecode := Json.decode_render hfits
  refine ⟨fun hnil => ?_, by rw [hdecode]; rfl, ?_⟩
  · rw [hnil] at hdecode
    cases hdecode
  · rw [isCanonicalJSON, hdecode]
    simp only [GoValue.marshal_ofJson, beq_self_eq_true]

theorem validateCompletion_success (h : Addressed c) (hclass : c.outcome = .success) {hash : Text}
    (hresult : CanonicalText c.result hash) : validateCompletion c = .ok () := by
  obtain ⟨hne, hdecode, hcanonical⟩ := isCanonicalJSON_of_canonical hresult
  unfold validateCompletion
  rw [if_neg h, hclass]
  dsimp only
  rw [if_neg hne, if_neg (by simp [hdecode]), if_neg (by simp [hcanonical])]

end Store

namespace Completion

variable {c : Completion} {dispatch : Dispatch} {outcome : InvocationOutcome}

/-- A completion as unknown, with a text. -/
theorem reports_unknown (hc : c.For dispatch) (hclass : c.outcome = .unknown) (herror : c.error ≠ [])
    (hrecorded : outcome.recordedClass = .unknown) (hdescribed : outcome.Described) : c.Reports dispatch outcome where
  toFor := hc
  reported := hclass.trans hrecorded.symm
  valid := fun hid hattempt htoken => iff_of_true
    ((Store.validateCompletion_failure (hc.addressed hid hattempt htoken) (by simp [hclass])).2 herror) hdescribed

/-- A completion as a success that can be written. -/
theorem reports_success (hc : c.For dispatch) (hclass : c.outcome = .success) (hvalid : validateOutcome outcome = .ok ())
    (houtcome : outcome.outcomeClass = .success) {hash : Text} (hresult : canonicalJSON outcome.result = .ok (c.result, hash)) :
    c.Reports dispatch outcome := by
  have hnone : outcome.err = none := by
    rcases validateOutcome_cases hvalid with ⟨-, h⟩ | ⟨h, -⟩
    · exact h
    · simp [houtcome] at h
  refine ⟨hc, ?_, fun hid hattempt htoken => iff_of_true ?_ fun _ err herr => ?_⟩
  · simp [InvocationOutcome.recordedClass, hvalid, houtcome, hresult, Except.toOption, hclass]
  · exact Store.validateCompletion_success (hc.addressed hid hattempt htoken) hclass (canonicalJSON_canonical hresult)
  · simp [hnone] at herr

/-- A completion as a failure, with the text of its error. -/
theorem reports_failure (hc : c.For dispatch) (hclass : c.outcome = outcome.outcomeClass)
    (hvalid : validateOutcome outcome = .ok ()) (houtcome : outcome.outcomeClass ≠ .success)
    (herror : c.error = (outcome.err.map (·.text)).getD []) : c.Reports dispatch outcome := by
  obtain ⟨hfailure, err, herr⟩ := (validateOutcome_cases hvalid).resolve_left fun h => houtcome h.1
  refine ⟨hc, ?_, fun hid hattempt htoken => ?_⟩
  · simp [InvocationOutcome.recordedClass, hvalid, houtcome, hclass]
  · rw [Store.validateCompletion_failure (hc.addressed hid hattempt htoken) (hclass ▸ hfailure), herror]
    simp [InvocationOutcome.Described, hvalid, herr]

/-- When the next attempt comes is not part of it. -/
theorem Reports.retry (hc : c.Reports dispatch outcome) (exhausted : Bool) (nextAttemptAt : Time) :
    { c with exhausted := exhausted, nextAttemptAt := nextAttemptAt }.Reports dispatch outcome where
  dispatchID := hc.dispatchID
  attempt := hc.attempt
  leaseToken := hc.leaseToken
  reported := hc.reported
  valid := hc.valid

end Completion

/-! ### Programs -/

variable [FencingProvider]

namespace Dispatcher

/-- What a call that claims gave out. -/
def claimed? : Event world → Option Dispatch
  | ⟨_, .claimDispatch _, _, .ok dispatch, _, _⟩ => some dispatch
  | _ => none

/-- What the executor returned to a call. -/
def returned? : Event world → Option InvocationOutcome
  | ⟨_, .invoke _, _, outcome, _, _⟩ => some outcome
  | _ => none

/-- Calls on the outbox in memory and on everything beside it. -/
def InMemory (_ : Trace world) (e : Event world) : Prop := ∀ admission, e.call ≠ .admitExecutionAtomic admission

/-- A call that neither claims nor calls the executor. -/
def isAside : World.Call → Bool
  | .claimDispatch _ | .invoke _ | .admitExecutionAtomic _ => false
  | _ => true

abbrev Aside (c : World.Call) : Prop := isAside c = true

theorem claimed?_aside : ∀ e : Event world, Aside e.call → claimed? e = none
  | ⟨_, c, _, _, _, _⟩, h => by
    cases c with
    | claimDispatch => cases h
    | _ => rfl

theorem returned?_aside : ∀ e : Event world, Aside e.call → returned? e = none
  | ⟨_, c, _, _, _, _⟩, h => by
    cases c with
    | invoke => cases h
    | _ => rfl

variable {s₀ : World} {h h' : Trace world} {i : Nat} {α : Type}

theorem inMemory_aside {c : World.Call} (hc : Aside c) {thread : Option Nat} {a : Ambient} {r : c.Reply} {s t : World} :
    InMemory h ⟨thread, c, a, r, s, t⟩ := by
  rintro admission rfl
  cases hc

theorem aside_keeps {p : Act α} (hp : p.Calls Aside) : Keeps (S := world) s₀ InMemory i p h fun _ => Extends i Aside h :=
  Keeps.of_calls hp fun _ hc _ _ _ _ _ _ _ _ => inMemory_aside hc

/-- A call beside, and what follows it. -/
theorem aside_act {c : World.Call} {k : c.Reply → Act α} {Q : α → Trace world → Prop} (hc : Aside c)
    (hk : ∀ r h', Extends i Aside h h' → Keeps (S := world) s₀ InMemory i (k r) h' Q) :
    Keeps (S := world) s₀ InMemory i (act c >>= k) h Q :=
  Keeps.bind (Keeps.mono (fun r h' _ hx => hk r h' hx) (aside_keeps (Prog.calls_perform hc)))

theorem settles_aside {p : Act α} (hp : Settles p) : p.Calls Aside := by
  refine hp.mono fun c hc => ?_
  cases c <;> first | rfl | cases hc

/-- The thread completed its attempt as the outcome asks for. -/
def Answered (i : Nat) (dispatch : Dispatch) (outcome : InvocationOutcome) (h : Trace world) : Prop :=
  ∃ e ∈ h, e.thread = some i ∧ ∃ c, e.call = .completeDispatch c ∧ c.Reports dispatch outcome

theorem Answered.extend {dispatch : Dispatch} {outcome : InvocationOutcome} (ha : Answered i dispatch outcome h)
    (hp : h <+: h') : Answered i dispatch outcome h' := by
  obtain ⟨e, he, hrest⟩ := ha
  exact ⟨e, hp.subset he, hrest⟩

/-- A completion that reports the outcome, whatever follows its reply. -/
theorem completes_keeps {dispatch : Dispatch} {outcome : InvocationOutcome} {c : Completion}
    (hc : c.Reports dispatch outcome) {k : Except Err Unit → Act α} (hk : ∀ r, (k r).Calls Aside) :
    Keeps (S := world) s₀ InMemory i (act (.completeDispatch c) >>= k) h fun _ h' =>
      Extends i Aside h h' ∧ Answered i dispatch outcome h' := by
  intro h₁ s ho hv a r t hstep
  refine ⟨inMemory_aside (c := .completeDispatch c) rfl, ?_⟩
  have hext : Extends i Aside h (h₁ ++ [⟨some i, .completeDispatch c, a, r, s, t⟩]) :=
    ((Extends.refl ..).others ho).snoc fun _ => rfl
  refine Keeps.mono (fun _ h' hp hx => ⟨hext.trans hx, ?_⟩) (aside_keeps (hk r))
  exact Answered.extend ⟨_, List.mem_append_right _ (List.mem_singleton_self _), rfl, c, rfl, hc⟩ hp

theorem completeUnknown_keeps {dispatch : Dispatch} {outcome : InvocationOutcome} {label : Text} (hlabel : label ≠ [])
    (err : Err) (hrecorded : outcome.recordedClass = .unknown) (hdescribed : outcome.Described) :
    Keeps (S := world) s₀ InMemory i (completeUnknown dispatch (err.under label)) h fun _ h' =>
      Extends i Aside h h' ∧ Answered i dispatch outcome h' := by
  refine aside_act rfl fun now h₁ hx => ?_
  refine Keeps.mono (fun _ _ _ hq => ⟨hx.trans hq.1, hq.2⟩) (completes_keeps ?_ fun r => trivial)
  exact Completion.reports_unknown ⟨rfl, rfl, rfl⟩ rfl (by simp [Err.under, hlabel]) hrecorded hdescribed

theorem finish_keeps {dispatch : Dispatch} {outcome : InvocationOutcome} {c : Completion} (hc : c.Reports dispatch outcome) :
    Keeps (S := world) s₀ InMemory i (finish dispatch c) h fun _ h' =>
      Extends i Aside h h' ∧ Answered i dispatch outcome h' := by
  refine completes_keeps hc fun r => ?_
  cases r with
  | error err => trivial
  | ok u =>
    refine Prog.Calls.bind (fun r => ?_) (Prog.calls_perform rfl)
    cases r <;> trivial

/-- Whatever the executor returned, the attempt is completed. -/
theorem completeOutcome_keeps (d : Dispatcher) (dispatch : Dispatch) (request : InvocationRequest)
    (outcome : InvocationOutcome) :
    Keeps (S := world) s₀ InMemory i (d.completeOutcome dispatch request outcome) h fun _ h' =>
      Extends i Aside h h' ∧ Answered i dispatch outcome h' := by
  unfold completeOutcome
  split
  · rename_i err hinvalid
    refine completeUnknown_keeps (by decide) err ?_ fun hvalid => ?_
    · simp [InvocationOutcome.recordedClass, hinvalid]
    · rw [hinvalid] at hvalid
      cases hvalid
  · rename_i hvalid
    refine aside_act rfl fun now h₁ hx => ?_
    refine Keeps.mono (fun _ _ _ (hq : Extends i Aside h₁ _ ∧ _) => ⟨hx.trans hq.1, hq.2⟩) ?_
    dsimp only
    split
    · rename_i hsuccess
      split
      · rename_i err hresult
        refine completeUnknown_keeps (by decide) err ?_ fun _ err herr => ?_
        · simp [InvocationOutcome.recordedClass, hvalid, hsuccess, hresult, Except.toOption]
        · rcases validateOutcome_cases hvalid with ⟨-, hnone⟩ | ⟨hfailure, -⟩
          · simp [hnone] at herr
          · simp [hsuccess] at hfailure
      · rename_i result hash hresult
        exact finish_keeps (Completion.reports_success ⟨rfl, rfl, rfl⟩ hsuccess hvalid hsuccess hresult)
    · rename_i hfailure
      have hreports : Completion.Reports { completionOf dispatch outcome.outcomeClass now with
          error := (outcome.err.map (·.text)).getD [] } dispatch outcome :=
        Completion.reports_failure ⟨rfl, rfl, rfl⟩ rfl hvalid hfailure rfl
      split
      · exact finish_keeps (hreports.retry ..)
      · exact finish_keeps hreports

/-! ### A whole dispatch -/

/-- The one claim of the thread, and that the executor has not returned to it. -/
structure Waits (i : Nat) (dispatch : Dispatch) (h : Trace world) : Prop where
  claims : Tells i claimed? (· = dispatch) h
  returns : Tells i returned? (fun _ => False) h

/-- The one claim of the thread, and that whatever the executor returned to it was answered. -/
structure Answers (i : Nat) (dispatch : Dispatch) (h : Trace world) : Prop where
  claims : Tells i claimed? (· = dispatch) h
  returns : Tells i returned? (fun outcome => Answered i dispatch outcome h) h

variable {dispatch : Dispatch}

theorem Waits.extend (hw : Waits i dispatch h) (hx : Extends i Aside h h') : Waits i dispatch h' :=
  ⟨hw.claims.extend claimed?_aside hx, hw.returns.extend returned?_aside hx⟩

theorem Waits.answers (hw : Waits i dispatch h) : Answers i dispatch h := ⟨hw.claims, hw.returns.mono fun _ h => h.elim⟩

theorem Answers.extend (ha : Answers i dispatch h) (hx : Extends i Aside h h') : Answers i dispatch h' :=
  ⟨ha.claims.extend claimed?_aside hx,
    (ha.returns.mono fun _ h => h.extend hx.isPrefix).extend returned?_aside hx⟩

/-- A program that only makes calls beside keeps a thread waiting. -/
theorem waits_keeps {p : Act α} (hp : p.Calls Aside) (hw : Waits i dispatch h) :
    Keeps (S := world) s₀ InMemory i p h fun _ h' => Waits i dispatch h' :=
  Keeps.mono (fun _ _ _ hx => hw.extend hx) (aside_keeps hp)

/-- The executor's call and what is made of its outcome. -/
theorem invoke_keeps {d : Dispatcher} (hw : Waits i dispatch h) (request : InvocationRequest) {grants : List FencingGrant} :
    Keeps (S := world) s₀ InMemory i (act (.invoke request)) h fun outcome h' => Keeps (S := world) s₀ InMemory i
      (d.completeOutcome { dispatch with fencingGrants := grants } request outcome) h' fun _ h'' => Answers i dispatch h'' := by
  intro h₁ s ho hv a outcome t hstep
  refine ⟨nofun, ?_⟩
  show Keeps (S := world) s₀ InMemory i (d.completeOutcome _ request outcome) _ _
  refine Keeps.mono (fun _ h' hp hq => ?_) (completeOutcome_keeps d _ request outcome)
  obtain ⟨hx, e, he, hi, c, hc, hreports⟩ := hq
  have hanswered : Answered i dispatch outcome h' :=
    ⟨e, he, hi, c, hc, ⟨⟨hreports.dispatchID, hreports.attempt, hreports.leaseToken⟩, hreports.reported, hreports.valid⟩⟩
  have hclaims : Tells i claimed? (· = dispatch) (h₁ ++ [⟨some i, .invoke request, a, outcome, s, t⟩]) :=
    (hw.claims.others ho).silent rfl
  have hreturns : Tells i returned? (· = outcome) (h₁ ++ [⟨some i, .invoke request, a, outcome, s, t⟩]) :=
    ((hw.returns.others ho).mono fun _ h => h.elim).snoc fun x hx => (Option.some.inj hx).symm
  refine ⟨hclaims.extend claimed?_aside hx, (hreturns.extend returned?_aside hx).mono fun x hx => ?_⟩
  rw [hx]
  exact hanswered

theorem fences_aside {p : Act α} (hp : Fences p) : p.Calls Aside := by
  refine hp.mono fun c hc => ?_
  cases c <;> first | rfl | cases hc

theorem external_keeps {d : Dispatcher} (hd : d.External) (hw : Waits i dispatch h) (request : InvocationRequest)
    {grants : List FencingGrant} :
    Keeps (S := world) s₀ InMemory i (d.invoke request) h fun outcome h' => Keeps (S := world) s₀ InMemory i
      (d.completeOutcome { dispatch with fencingGrants := grants } request outcome) h' fun _ h'' => Answers i dispatch h'' := by
  -- An executor that is not called is completed as any other, but there is no outcome of its own to answer.
  have hrefused : ∀ {h₁} {outcome}, Waits i dispatch h₁ → Keeps (S := world) s₀ InMemory i
      (d.completeOutcome { dispatch with fencingGrants := grants } request outcome) h₁ fun _ h' => Answers i dispatch h' :=
    fun hw => Keeps.mono (fun _ _ _ hw => hw.answers)
      (waits_keeps (settles_aside (completeOutcome_settles ..)) hw)
  rcases hd request with hcall | ⟨g, planID, hcall⟩
  · rw [hcall]
    exact invoke_keeps hw request
  · rw [hcall]
    refine aside_act rfl fun r h₁ hx => ?_
    have hw₁ := hw.extend hx
    cases r with
    | error err => exact hrefused hw₁
    | ok saga =>
      dsimp only
      split
      · exact hrefused hw₁
      split
      · exact hrefused hw₁
      split
      · exact hrefused hw₁
      split
      · exact hrefused hw₁
      · exact invoke_keeps hw₁ request

theorem invokeBefore_keeps {d : Dispatcher} (hd : d.External) (hw : Waits i dispatch h) (leaseDeadline : Time)
    (grants : List FencingGrant) (arguments : Option FactMap) (saga : SagaInstance) :
    Keeps (S := world) s₀ InMemory i
      (d.invokeBefore leaseDeadline { dispatch with fencingGrants := grants } grants arguments saga) h
      fun _ h' => Answers i dispatch h' := by
  refine aside_act rfl fun now h₁ hx₁ => ?_
  dsimp only
  split
  · exact (hw.extend hx₁).answers
  refine aside_act rfl fun err h₂ hx₂ => ?_
  have hw₂ := hw.extend (hx₁.trans hx₂)
  cases err with
  | some err => exact hw₂.answers
  | none => exact Keeps.bind (external_keeps hd hw₂ _)

theorem underFences_keeps {d : Dispatcher} (hd : d.External) (hw : Waits i dispatch h) (leaseDeadline : Time)
    (grants : List FencingGrant) :
    Keeps (S := world) s₀ InMemory i (d.underFences leaseDeadline dispatch grants) h fun _ h' => Answers i dispatch h' := by
  refine aside_act rfl fun saved h₁ hx₁ => ?_
  cases saved with
  | error err => exact (hw.extend hx₁).answers
  | ok u =>
    dsimp only
    split
    · exact Keeps.mono (fun _ _ _ hw => hw.answers)
        (waits_keeps (settles_aside (completeUnknown_settles ..)) (hw.extend hx₁))
    refine aside_act rfl fun found h₂ hx₂ => ?_
    have hw₂ := hw.extend (hx₁.trans hx₂)
    cases found with
    | error err => exact hw₂.answers
    | ok saga => exact invokeBefore_keeps hd hw₂ leaseDeadline grants _ saga

/-- When a dispatch returns, whatever its executor returned was answered. -/
theorem dispatch_keeps {d : Dispatcher} (hd : d.External) (target : Text) :
    Keeps (S := world) s₀ InMemory i (d.dispatch target) [] fun _ h' => Tells i claimed? (Answers i · h') h' := by
  refine aside_act rfl fun started h₁ hx₁ => ?_
  have hnone : Tells i claimed? (fun _ => False) h₁ := Tells.nil.extend claimed?_aside hx₁
  intro h₂ s ho hv a claimed t hstep
  refine ⟨nofun, ?_⟩
  cases claimed with
  | error err => exact ((hnone.others ho).mono fun _ h => h.elim).silent rfl
  | ok dispatch =>
    have hclaim : ∀ options, Waits i dispatch (h₂ ++ [⟨some i, .claimDispatch options, a, .ok dispatch, s, t⟩]) :=
      fun options => {
        claims := ((hnone.others ho).mono fun _ h => h.elim).snoc fun x hx => (Option.some.inj hx).symm
        returns := ((Tells.nil.extend returned?_aside hx₁).others ho).silent rfl }
    have hw := hclaim ⟨d.options.owner, d.options.leaseDuration, 0, target⟩
    have hend : ∀ {h'}, Answers i dispatch h' → Tells i claimed? (Answers i · h') h' :=
      fun ha => ha.claims.mono fun x (hx : x = dispatch) => hx ▸ ha
    refine Keeps.mono (fun _ _ _ ha => hend ha) ?_
    show Keeps (S := world) s₀ InMemory i (if d.options.maxAttempts < dispatch.attempt then _ else _) _ _
    split
    · exact Keeps.mono (fun _ _ _ hw => hw.answers) (waits_keeps (settles_aside (completeExhaustedClaim_settles ..)) hw)
    · refine Keeps.bind (Keeps.mono ?_ (waits_keeps (fences_aside (acquireFences_fences d dispatch)) hw))
      rintro (err | leases) h₃ - hw₃
      · exact Keeps.mono (fun _ _ _ hw => hw.answers) (waits_keeps (settles_aside (completeUnfenced_settles ..)) hw₃)
      · refine Keeps.bind (Keeps.mono ?_ (underFences_keeps hd hw₃ _ _))
        intro result h₄ _ ha
        refine Keeps.bind (Keeps.mono (fun _ h₅ _ hx => ?_) (aside_keeps (fences_aside (releaseFences_fences leases))))
        exact ha.extend hx

/-! ### Runs -/

/-- Every property of the outbox that its transitions keep holds in every state to come. -/
theorem outbox_stable {P : Store → Prop} (step : ∀ {s t}, Store.Shape s → P s → Store.Trans s t → P t) :
    Stable (S := world) s₀ InMemory fun w => Store.Shape w.outbox ∧ P w.outbox := by
  intro h e _ hstep hmemory hp
  rcases World.step_after hmemory hstep with hsame | ⟨op, hop⟩
  · rw [hsame]
    exact hp
  · rw [hop]
    exact Store.after_keeps step hp.1 hp.2 op

theorem histories_run (hstart : s₀.outbox = .empty) {s : World} (hv : Valid (S := world) s₀ InMemory h s) :
    Store.Shape s.outbox ∧ Store.Histories s.outbox := by
  refine Since.intro (outbox_stable fun hs hp ht => hp.moves (ht.moves hs)) .nil ?_ h s (List.nil_prefix) hv
  rw [hstart]
  exact ⟨Store.shape_empty, Store.histories_empty⟩

/-- The attempt is in flight, and its lease has not run out. -/
def Leased (dispatch : Dispatch) (w : World) (now : Time) : Prop :=
  ∃ current, w.outbox.dispatch? dispatch.id = some current ∧
    Store.currentLeaseAt current dispatch.attempt dispatch.leaseToken now = true

/-- While the lease is current and the context lives, an outcome is recorded exactly if it is described. -/
theorem recorded_iff_described (hstart : s₀.outbox = .empty) {e : Event world}
    (hv : Valid (S := world) s₀ InMemory h e.before)
    (hstep : world.step e.call e.ambient e.before = some (e.reply, e.after)) {outcome : InvocationOutcome} {c : Completion}
    (hcall : e.call = .completeDispatch c) (hc : c.Reports dispatch outcome) (hlive : e.ambient.fault = none)
    (hlease : Leased dispatch e.before e.ambient.later) :
    Store.AttemptRecorded dispatch.id dispatch.attempt outcome.recordedClass e.after.outbox ↔ outcome.Described := by
  obtain ⟨hshape, hhistories⟩ := histories_run hstart hv
  obtain ⟨current, hcurrent, hcurrentLease⟩ := hlease
  obtain ⟨hin, hattempt, htoken, -⟩ := Store.currentLeaseAt_iff.1 hcurrentLease
  have hmem := Store.mem_of_dispatch? hcurrent
  have hid : dispatch.id ≠ [] := by
    obtain ⟨saga, -, step, -, -, hcarries⟩ := hshape.carries current hmem
    rw [← Store.id_of_dispatch? hcurrent, hcarries.id]
    exact nofun
  have hpositive : dispatch.attempt ≠ 0 := by
    have hhist := hhistories.each current hmem
    obtain ⟨prior, last, hsplit, -⟩ := hhist.lease hin
    have hlength := hhist.length_eq
    rw [hsplit, List.length_append, List.length_singleton] at hlength
    omega
  rw [← hc.valid hid hpositive htoken, ← hc.dispatchID, ← hc.attempt, ← hc.reported]
  rw [← hc.dispatchID] at hcurrent
  rw [← hc.attempt, ← hc.leaseToken] at hcurrentLease
  obtain ⟨thread, call, ambient, reply, before, after⟩ := e
  obtain rfl : call = .completeDispatch c := hcall
  have hafter : after.outbox = (before.outbox.completeDispatch none ambient.now ambient.later c).2 := by
    rw [← show ambient.fault = none from hlive]
    exact (congrArg (fun x => World.outbox x.2) (Option.some.inj hstep)).symm
  rw [hafter]
  exact Store.completeDispatch_recorded hshape hhistories hcurrent hcurrentLease ambient.now_set

/-- Everything but an admission to a database. -/
def isInMemory : World.Call → Bool
  | .admitExecutionAtomic _ => false
  | _ => true

/-- A dispatch, with any other calls in between. -/
def attended (d : Dispatcher) (target : Text) (fences : FencingProvider.State) (turns : List (Turn world)) :
    Config world Dispatched :=
  Config.run isInMemory ⟨[d.dispatch target], World.initial fences, []⟩ turns

theorem attended_kept {d : Dispatcher} (hd : d.External) (target : Text) (fences : FencingProvider.State)
    (turns : List (Turn world)) :
    Kept (S := world) (World.initial fences) InMemory (fun i _ h => Tells i claimed? (Answers i · h) h)
      (attended d target fences turns) := by
  refine run_kept (fun h c a r s t _ hc _ => ?_) (fun i p hp => ?_) turns
  · rintro admission rfl
    cases hc
  · obtain rfl : p = d.dispatch target := by simpa using List.mem_of_getElem? hp
    exact dispatch_keeps hd target

/-- Once a dispatch has returned: whatever its executor returned to it, if its completion was made under a context that
lives and a lease that is current, the attempt was recorded with the class of the outcome exactly if the outcome is
described; and what is recorded stays. -/
theorem outcome_recorded {d : Dispatcher} (hd : d.External) (target : Text) (fences : FencingProvider.State)
    (turns : List (Turn world)) {result : Dispatched}
    (hreturned : (attended d target fences turns).threads = [.ret result])
    {k e : Event world} (hk : k ∈ (attended d target fences turns).trace) (hkt : k.thread = some 0)
    (hclaimed : claimed? k = some dispatch)
    (he : e ∈ (attended d target fences turns).trace) (het : e.thread = some 0)
    {outcome : InvocationOutcome} (houtcome : returned? e = some outcome)
    (hlease : ∀ f ∈ (attended d target fences turns).trace, f.thread = some 0 → ∀ c, f.call = .completeDispatch c →
      f.ambient.fault = none ∧ Leased dispatch f.before f.ambient.later) :
    (∃ f ∈ (attended d target fences turns).trace, f.thread = some 0 ∧ (∃ c, f.call = .completeDispatch c) ∧
      (Store.AttemptRecorded dispatch.id dispatch.attempt outcome.recordedClass f.after.outbox ↔ outcome.Described)) ∧
      (outcome.Described → Store.AttemptRecorded dispatch.id dispatch.attempt outcome.recordedClass
        (attended d target fences turns).state.outbox) := by
  have hkept := attended_kept hd target fences turns
  obtain ⟨h, ho, htells⟩ := hkept.result (i := 0) (by rw [hreturned]; rfl)
  obtain ⟨since, htrace, hsince⟩ := ho
  have hmine : ∀ x ∈ (attended d target fences turns).trace, x.thread = some 0 → x ∈ h := by
    intro x hx hxt
    rw [htrace] at hx
    exact (List.mem_append.1 hx).resolve_right fun hx => hsince x hx hxt
  obtain ⟨f, hf, hft, c, hcall, hreports⟩ :=
    (htells k (hmine k hk hkt) hkt dispatch hclaimed).returns e (hmine e he het) het outcome houtcome
  have hmem : f ∈ (attended d target fences turns).trace := htrace ▸ List.mem_append_left _ hf
  obtain ⟨hlive, hleased⟩ := hlease f hmem hft c hcall
  obtain ⟨pre, post, hsplit⟩ := List.append_of_mem hmem
  have hvalid := hkept.1
  rw [hsplit] at hvalid
  obtain ⟨hbefore, hstep, hmemory⟩ := hvalid.split
  have hiff := recorded_iff_described rfl hbefore hstep hcall hreports hlive hleased
  refine ⟨⟨f, hmem, hft, ⟨c, hcall⟩, hiff⟩, fun hdescribed => ?_⟩
  have hafter : Valid (S := world) (World.initial fences) InMemory (pre ++ [f]) f.after := .snoc hbefore hstep hmemory
  obtain ⟨hshape, hhistories⟩ := histories_run rfl hafter
  have hsince := Since.intro (outbox_stable (P := fun s => Store.Histories s ∧
    Store.AttemptRecorded dispatch.id dispatch.attempt outcome.recordedClass s) Store.AttemptRecorded.trans) hafter
    ⟨hshape, hhistories, hiff.2 hdescribed⟩
  exact (hsince _ _ ⟨post, by simp⟩ hvalid).2.2

end Dispatcher

end

section

open Fencing Dispatcher

attribute [local instance] reference memoryFencing

/-- A dispatcher without fences. -/
def plainWorker : Dispatcher where
  options := ⟨"worker", [], 100, 50, 3, 10, 20, false⟩
  hasProvider := false
  invoke := fun request => act (.invoke request)
  retryUnknownOutcome := none

/-- A saga with one step, and a thread that dispatches it. -/
def dispatchTurns (outcome : InvocationOutcome) : List (Turn world) :=
  [.outside (.createSaga ⟨"namespace", fencedSaga, "execution", "plan", "digest", true, false⟩) (plainAmbient 1),
    .outside (.enqueueStep { fencedStep with fencing := [] }) (plainAmbient 2)] ++
    (List.range 10).map fun k => .thread 0 { plainAmbient (3 + k) with outcome := outcome }

/-- One dispatch, whose executor returns this. -/
def dispatchReturning (outcome : InvocationOutcome) : Config world Dispatched :=
  attended plainWorker [] Memory.empty (dispatchTurns outcome)

/-- A failure that says nothing of itself, and one that does. -/
def silentFailure : InvocationOutcome := ⟨.permanentFailure, .nil, some (.new [])⟩

def plainFailure : InvocationOutcome := ⟨.permanentFailure, .nil, some (.new "declined")⟩

/-- What the calls of the thread tell. -/
def told {β : Type} (tell : Event world → Option β) (cfg : Config world Dispatched) : List β :=
  (cfg.trace.filter fun e => e.thread == some 0).filterMap tell

theorem mem_told {β : Type} {tell : Event world → Option β} {cfg : Config world Dispatched} {x : β} (h : x ∈ told tell cfg) :
    ∃ e ∈ cfg.trace, e.thread = some 0 ∧ tell e = some x := by
  obtain ⟨e, he, hx⟩ := List.mem_filterMap.1 h
  obtain ⟨hmem, hthread⟩ := List.mem_filter.1 he
  exact ⟨e, hmem, by simpa using hthread, hx⟩

/-- Whether the thread has returned. -/
def hasReturned (cfg : Config world Dispatched) : Bool :=
  match cfg.threads with
  | [.ret _] => true
  | _ => false

theorem threads_of_hasReturned {cfg : Config world Dispatched} (h : hasReturned cfg = true) :
    ∃ result, cfg.threads = [.ret result] := by
  unfold hasReturned at h
  split at h
  · exact ⟨_, ‹_›⟩
  · cases h

/-- Whether a completion was made under a context that lives and a lease that is current. -/
def isTimely (dispatch : Dispatch) (e : Event world) : Bool :=
  match e.call with
  | .completeDispatch _ => e.ambient.fault.isNone && (e.before.outbox.dispatch? dispatch.id).any fun current =>
      Store.currentLeaseAt current dispatch.attempt dispatch.leaseToken e.ambient.later
  | _ => true

theorem isTimely_spec {dispatch : Dispatch} {e : Event world} (h : isTimely dispatch e = true) {c : Completion}
    (hc : e.call = .completeDispatch c) : e.ambient.fault = none ∧ Leased dispatch e.before e.ambient.later := by
  rw [isTimely, hc] at h
  simpa [Leased, Option.any_eq_true] using h

/-- The executor returned a failure whose error has no text. The outcome passed, the lease was current, the dispatch has
returned, and the attempt has no outcome. -/
theorem silent_failure_unrecorded : hasReturned (dispatchReturning silentFailure) = true ∧
    ∃ dispatch ∈ told claimed? (dispatchReturning silentFailure),
    ∃ outcome ∈ told returned? (dispatchReturning silentFailure), validateOutcome outcome = .ok () ∧
      (∀ e ∈ (dispatchReturning silentFailure).trace, isTimely dispatch e = true) ∧
      ∀ recorded, ¬Store.AttemptRecorded dispatch.id dispatch.attempt recorded (dispatchReturning silentFailure).state.outbox := by
  refine ⟨by decide +kernel, (told claimed? (dispatchReturning silentFailure)).get ⟨0, by decide +kernel⟩,
    List.get_mem .., (told returned? (dispatchReturning silentFailure)).get ⟨0, by decide +kernel⟩, List.get_mem .., ?_⟩
  refine ⟨by decide +kernel, by decide +kernel, ?_⟩
  rintro recorded ⟨a, ha, -, hdone, -⟩
  have hopen : ∀ a ∈ (dispatchReturning silentFailure).state.outbox.attempts
      ((told claimed? (dispatchReturning silentFailure)).get ⟨0, by decide +kernel⟩).id, a.completedAt = 0 := by
    decide +kernel
  exact hdone (hopen a ha)

/-- A failure that says why is recorded. -/
theorem outcome_recorded_failure : ∃ dispatch ∈ told claimed? (dispatchReturning plainFailure),
    Store.AttemptRecorded dispatch.id dispatch.attempt .permanentFailure (dispatchReturning plainFailure).state.outbox := by
  obtain ⟨dispatch, hdispatch, htimely⟩ : ∃ dispatch ∈ told claimed? (dispatchReturning plainFailure),
      ∀ e ∈ (dispatchReturning plainFailure).trace, isTimely dispatch e = true :=
    ⟨_, List.get_mem _ ⟨0, by decide +kernel⟩, by decide +kernel⟩
  obtain ⟨outcome, houtcome, hclass, herr⟩ : ∃ outcome ∈ told returned? (dispatchReturning plainFailure),
      outcome.recordedClass = .permanentFailure ∧ outcome.err = some (.new "declined") :=
    ⟨_, List.get_mem _ ⟨0, by decide +kernel⟩, by decide +kernel, by decide +kernel⟩
  obtain ⟨result, hreturned⟩ := threads_of_hasReturned (show hasReturned (dispatchReturning plainFailure) = true by decide +kernel)
  obtain ⟨k, hk, hkt, hclaimed⟩ := mem_told hdispatch
  obtain ⟨e, he, het, hreturn⟩ := mem_told houtcome
  have h := (outcome_recorded (fun request => .inl rfl) [] Memory.empty _ hreturned hk hkt hclaimed he het hreturn
    fun f hf _ c hc => isTimely_spec (htimely f hf) hc).2
  rw [hclass] at h
  have hdescribed : outcome.Described := by
    rintro - err hsome
    rw [herr] at hsome
    cases hsome
    decide
  refine ⟨dispatch, hdispatch, ?_⟩
  unfold dispatchReturning
  exact h hdescribed

end

end Effectus

import Effectus.Theorems.Fencing.Safety
import Effectus.Theorems.Invocation.RoundTrip
import Effectus.Theorems.Runtime.Dispatcher
import Effectus.Theorems.Runtime.World

/-!
What dispatchers hand to their executors. Over any run of an outbox in memory and any number of dispatches, an executor is
called with arguments as they were enqueued, under their digest, and before a deadline that is not far off.
-/

namespace Effectus

namespace Invocation

section

variable [Platform] [FencingProvider]

/-- The longest duration there is. -/
def maxDuration : Int := 2 ^ 63

/-- A request as dispatchers make them: its attempt is counted, its arguments are canonical, and its deadline comes after
a time the clock has shown, by no more than a duration. -/
structure Sendable (h : Trace world) (request : InvocationRequest) : Prop where
  attempt : 0 < request.attempt
  arguments : CanonicalArguments request
  deadline : ∃ e ∈ h, e.ambient.now < request.deadline ∧ request.deadline < e.ambient.now + maxDuration

/-- What every call keeps to: executors are called by dispatchers, and no admission writes to the outbox in memory. -/
def Sound (h : Trace world) (e : Event world) : Prop :=
  (∀ admission, e.call ≠ .admitExecutionAtomic admission) ∧ ∀ request, e.call = .invoke request → Sendable h request

/-- A call that is sound whenever it is made. -/
def Other (c : World.Call) : Prop := (∀ admission, c ≠ .admitExecutionAtomic admission) ∧ ∀ request, c ≠ .invoke request

variable {s₀ s : World} {h : Trace world} {i : Nat} {α : Type}

theorem sound_other {c : World.Call} (hc : Other c) {a : Ambient} {r : c.Reply} {s t : World} {thread : Option Nat} :
    Sound h ⟨thread, c, a, r, s, t⟩ :=
  ⟨hc.1, fun request hcall => absurd hcall (hc.2 request)⟩

/-- The steps of the outbox are canonical in every state of a run. -/
theorem written_run (hstart : s₀.outbox = .empty) (hv : Valid (S := world) s₀ Sound h s) :
    Store.Shape s.outbox ∧ Store.Written s.outbox := by
  refine hv.invariant (P := fun _ (s : World) => Store.Shape s.outbox ∧ Store.Written s.outbox) ?_
    fun h e _ hstep hsound hp => ?_
  · rw [hstart]
    exact ⟨Store.shape_empty, Store.written_empty⟩
  · rcases World.step_after hsound.1 hstep with hsame | ⟨op, hop⟩
    · rw [hsame]
      exact hp
    · rw [hop]
      exact Store.after_keeps (fun hs hw ht => ht.written hs hw) hp.1 hp.2 op

/-- What a claim returns. -/
structure Claimed (dispatch : Dispatch) : Prop where
  attempt : 0 < dispatch.attempt
  arguments : dispatch.arguments = [] ∨ CanonicalText dispatch.arguments dispatch.argumentHash

theorem claimed_run (hstart : s₀.outbox = .empty) (hv : Valid (S := world) s₀ Sound h s) {options : ClaimOptions}
    {a : Ambient} {dispatch : Dispatch} {t : World}
    (hstep : world.step (.claimDispatch options) a s = some (.ok dispatch, t)) : Claimed dispatch := by
  obtain ⟨hshape, hwritten⟩ := written_run hstart hv
  have hclaim : s.outbox.claimDispatch a.fault a.now a.token options = (.ok dispatch, t.outbox) := by
    obtain ⟨hreply, hafter⟩ := Prod.mk.inj (Option.some.inj hstep)
    exact Prod.ext hreply (congrArg World.outbox hafter)
  rcases Store.claimDispatch_inv hclaim with ⟨-, err, herr⟩ | ⟨d, token, -, hd, hreply, -⟩
  · cases herr
  · cases hreply
    exact ⟨Nat.succ_pos _, Store.Written.dispatch hshape hwritten (d := d) (Store.mem_of_candidate? hd).1⟩

theorem Sendable.extend {h' : Trace world} {request : InvocationRequest} (hs : Sendable h request) (hp : h <+: h') :
    Sendable h' request := by
  obtain ⟨e, he, htimes⟩ := hs.deadline
  exact ⟨hs.attempt, hs.arguments, e, hp.subset he, htimes⟩

/-! ### Programs -/

theorem other_keeps {p : Act α} (hp : p.Calls Other) : Keeps (S := world) s₀ Sound i p h fun _ h' => h <+: h' :=
  Keeps.mono (fun _ _ _ hx => hx.isPrefix) (Keeps.of_calls hp fun _ hc _ _ _ _ _ _ _ _ => sound_other hc)

/-- A call and what follows it. -/
theorem other_act {c : World.Call} {k : c.Reply → Act α} {Q : α → Trace world → Prop} (hc : Other c)
    (hk : ∀ r h', h <+: h' → Keeps (S := world) s₀ Sound i (k r) h' Q) : Keeps (S := world) s₀ Sound i (act c >>= k) h Q :=
  Keeps.bind (Keeps.mono (fun r h' _ hp => hk r h' hp) (other_keeps (Prog.calls_perform hc)))

theorem settles_other {p : Act α} (hp : Dispatcher.Settles p) : p.Calls Other := by
  refine hp.mono fun c hc => ⟨fun admission hcall => ?_, fun request hcall => ?_⟩
  · rw [hcall] at hc
    cases hc
  · rw [hcall] at hc
    cases hc

theorem fences_other {p : Act α} (hp : Dispatcher.Fences p) : p.Calls Other := by
  refine hp.mono fun c hc => ⟨fun admission hcall => ?_, fun request hcall => ?_⟩
  · rw [hcall] at hc
    cases hc
  · rw [hcall] at hc
    cases hc

/-- The executor is called with what can be sent. -/
theorem invoke_keeps {request : InvocationRequest} (hs : Sendable h request) :
    Keeps (S := world) s₀ Sound i (act (.invoke request)) h fun _ _ => True := by
  intro h' s ho _ a r t _
  refine ⟨⟨nofun, fun request' hcall => ?_⟩, trivial⟩
  cases hcall
  exact hs.extend ho.isPrefix

theorem external_keeps {d : Dispatcher} (hd : d.External) {request : InvocationRequest} (hs : Sendable h request) :
    Keeps (S := world) s₀ Sound i (d.invoke request) h fun _ _ => True := by
  rcases hd request with hcall | ⟨g, planID, hcall⟩
  · rw [hcall]
    exact invoke_keeps hs
  · rw [hcall]
    refine other_act ⟨nofun, nofun⟩ fun r h' hp => ?_
    cases r with
    | error err => trivial
    | ok saga =>
      dsimp only
      split
      · trivial
      split
      · trivial
      split
      · trivial
      split
      · trivial
      · exact invoke_keeps (hs.extend hp)

theorem invokeBefore_keeps {d : Dispatcher} (hd : d.External) (htimeout : d.options.invocationTimeout < maxDuration)
    (leaseDeadline : Time) (dispatch : Dispatch) {arguments : Option FactMap} (hattempt : 0 < dispatch.attempt)
    (hcanonical : ∃ text, CanonicalText text dispatch.argumentHash ∧ decodeArguments text = some arguments)
    (grants : List FencingGrant) (saga : SagaInstance) :
    Keeps (S := world) s₀ Sound i (d.invokeBefore leaseDeadline dispatch grants arguments saga) h fun _ _ => True := by
  -- The deadline is set after the clock was read, and the event of that call stays in the trace.
  intro h₁ s₁ ho hv a now t hstep
  have hsound : Sound h₁ ⟨some i, .clock, a, now, s₁, t⟩ := sound_other (c := .clock) ⟨nofun, nofun⟩
  refine ⟨hsound, ?_⟩
  obtain rfl : a.now = now := (Prod.mk.inj (Option.some.inj hstep)).1
  show Keeps (S := world) s₀ Sound i (if min (a.now + d.options.invocationTimeout)
    (leaseDeadline - d.options.leaseDuration.tdiv 10) ≤ a.now then _ else _) _ _
  split
  · trivial
  · rename_i hafter
    refine other_act ⟨nofun, nofun⟩ fun err h₂ hp₂ => ?_
    cases err with
    | some err => trivial
    | none =>
      refine Keeps.bind (Keeps.mono (fun outcome h' _ _ => ?_) (external_keeps hd ⟨hattempt, hcanonical, ?_⟩))
      · exact Keeps.mono (fun _ _ _ _ => trivial) (other_keeps (settles_other (Dispatcher.completeOutcome_settles ..)))
      · refine ⟨⟨some i, .clock, a, a.now, s₁, t⟩, hp₂.subset (List.mem_append_right _ (List.mem_singleton_self _)), ?_⟩
        show a.now < min _ _ ∧ min _ _ < a.now + maxDuration
        exact ⟨not_le.1 hafter, (min_le_left _ _).trans_lt (Int.add_lt_add_left htimeout _)⟩

theorem underFences_keeps {d : Dispatcher} (hd : d.External) (htimeout : d.options.invocationTimeout < maxDuration)
    (leaseDeadline : Time) {dispatch : Dispatch} (hclaimed : Claimed dispatch) (grants : List FencingGrant) :
    Keeps (S := world) s₀ Sound i (d.underFences leaseDeadline dispatch grants) h fun _ _ => True := by
  refine other_act ⟨nofun, nofun⟩ fun saved h₁ _ => ?_
  cases saved with
  | error err => trivial
  | ok u =>
    dsimp only
    split
    · exact Keeps.mono (fun _ _ _ _ => trivial) (other_keeps (settles_other (Dispatcher.completeUnknown_settles ..)))
    · rename_i arguments hdecode
      refine other_act ⟨nofun, nofun⟩ fun found h₂ _ => ?_
      cases found with
      | error err => trivial
      | ok saga =>
        have hcanonical : CanonicalText dispatch.arguments dispatch.argumentHash := by
          rcases hclaimed.arguments with hnil | hcanonical
          · rw [show _ = _ from congrArg decodeArguments hnil] at hdecode
            cases hdecode
          · exact hcanonical
        exact invokeBefore_keeps hd htimeout leaseDeadline { dispatch with fencingGrants := grants } hclaimed.attempt
          ⟨_, hcanonical, hdecode⟩ grants saga

/-- A dispatch calls its executor with what can be sent. -/
theorem dispatch_keeps (hstart : s₀.outbox = .empty) {d : Dispatcher} (hd : d.External)
    (htimeout : d.options.invocationTimeout < maxDuration) (target : Text) :
    Keeps (S := world) s₀ Sound i (d.dispatch target) h fun _ _ => True := by
  refine other_act ⟨nofun, nofun⟩ fun started h₁ _ => ?_
  intro h₂ s ho hv a claimed t hstep
  have hother : Other (.claimDispatch ⟨d.options.owner, d.options.leaseDuration, 0, target⟩) := ⟨nofun, nofun⟩
  refine ⟨sound_other hother, ?_⟩
  cases claimed with
  | error err => trivial
  | ok dispatch =>
    have hclaimed := claimed_run hstart hv hstep
    show Keeps (S := world) s₀ Sound i (if d.options.maxAttempts < dispatch.attempt then _ else _) _ _
    split
    · exact Keeps.mono (fun _ _ _ _ => trivial)
        (other_keeps (settles_other (Dispatcher.completeExhaustedClaim_settles ..)))
    · refine Keeps.bind (Keeps.mono ?_ (other_keeps (fences_other (Dispatcher.acquireFences_fences d dispatch))))
      rintro (err | leases) h₃ - -
      · exact Keeps.mono (fun _ _ _ _ => trivial) (other_keeps (settles_other (Dispatcher.completeUnfenced_settles ..)))
      · refine Keeps.bind (Keeps.mono ?_ (underFences_keeps hd htimeout _ hclaimed _))
        intro result h₄ _ _
        exact Keeps.bind (Keeps.mono (fun _ _ _ _ => trivial) (other_keeps (fences_other (Dispatcher.releaseFences_fences leases))))

/-! ### Runs -/

/-- Everything but a call of an executor and an admission to a database. -/
def isBeside : World.Call → Bool
  | .invoke _ | .admitExecutionAtomic _ => false
  | _ => true

/-- A run of dispatches, with any other calls in between. -/
def deliveries (threads : List (Act Dispatched)) (fences : FencingProvider.State) (turns : List (Turn world)) :
    Config world Dispatched :=
  Config.run isBeside ⟨threads, World.initial fences, []⟩ turns

theorem deliveries_sendable {threads : List (Act Dispatched)}
    (hthreads : ∀ p ∈ threads, ∃ (d : Dispatcher) (target : Text), d.External ∧
      d.options.invocationTimeout < maxDuration ∧ p = d.dispatch target)
    {fences : FencingProvider.State} {turns : List (Turn world)} {e : Event world}
    (he : e ∈ (deliveries threads fences turns).trace) {request : InvocationRequest} (hcall : e.call = .invoke request) :
    Sendable (deliveries threads fences turns).trace request := by
  have hkept : Kept (S := world) (World.initial fences) Sound (fun _ _ _ => True) (deliveries threads fences turns) := by
    refine run_kept (fun h c a r s t _ hc _ => ?_) (fun i p hp => ?_) turns
    · refine sound_other ⟨fun admission hadmits => ?_, fun request hinvoke => ?_⟩
      · rw [hadmits] at hc
        cases hc
      · rw [hinvoke] at hc
        cases hc
    · obtain ⟨d, target, hd, htimeout, rfl⟩ := hthreads p (List.mem_of_getElem? hp)
      exact dispatch_keeps rfl hd htimeout target
  obtain ⟨h, rest, htrace⟩ := List.append_of_mem he
  have hv := hkept.1
  rw [htrace] at hv ⊢
  exact (hv.split.2.2.2 request hcall).extend (List.prefix_append ..)

/-- What is asked of a request beside what dispatchers see to: its names are legal values of header fields, and its
attempt fits a machine word. -/
structure Named (request : InvocationRequest) : Prop where
  verb : Plain request.verb
  requestID : Plain request.requestID
  executionID : Plain request.executionID
  sagaID : Plain request.sagaID
  effectID : Plain request.effectID
  idempotencyKey : Plain request.idempotencyKey
  contractHash : Plain request.contractHash
  attempt : request.attempt < 2 ^ 64
  fencingGrants : ∀ grant ∈ request.fencingGrants, Grantable grant

/-- The clock shows times of the years 1 to 9999, early enough for a deadline to be one too. -/
def ClockPrintable (h : Trace world) : Prop :=
  ∀ e ∈ h, 0 ≤ e.ambient.now ∧ e.ambient.now + maxDuration ≤ Rfc3339.unprintable

theorem Sendable.deliverable {request : InvocationRequest} (hs : Sendable h request) (hclock : ClockPrintable h)
    (hn : Named request) : Deliverable request := by
  obtain ⟨e, he, hafter, hbefore⟩ := hs.deadline
  obtain ⟨hlow, hhigh⟩ := hclock e he
  have hpositive : 0 < request.deadline := hlow.trans_lt hafter
  exact ⟨hn.verb, hn.requestID, hn.executionID, hn.sagaID, hn.effectID, hn.idempotencyKey, hn.contractHash,
    ⟨hs.attempt, hn.attempt⟩, hn.fencingGrants, hpositive.ne',
    Rfc3339.printable_of_lt hpositive.le (hbefore.trans_le hhigh)⟩

/-- Whatever a dispatcher hands to its executor, the handler decodes from what is sent, under any static headers. -/
theorem handler_decodes_invocation [Network] (hsize : ∀ t, (Platform.sha256 t).length = sha256Size)
    {threads : List (Act Dispatched)}
    (hthreads : ∀ p ∈ threads, ∃ (d : Dispatcher) (target : Text), d.External ∧
      d.options.invocationTimeout < maxDuration ∧ p = d.dispatch target)
    (fences : FencingProvider.State) (turns : List (Turn world))
    (hclock : ClockPrintable (deliveries threads fences turns).trace)
    {e : Event world} (he : e ∈ (deliveries threads fences turns).trace) {request : InvocationRequest}
    (hcall : e.call = .invoke request) (hnamed : Named request) (harguments : request.arguments ≠ none)
    {executor : HTTPExecutor} {sent : Http.Request} (hsent : executor.httpRequest request = .ok sent) {maxBytes : Int}
    (hlimit : ((sent.body.getD []).length : Int) ≤ maxBytes) : decodeRequest sent maxBytes = .ok request := by
  have hsendable := deliveries_sendable hthreads he hcall
  exact decodeRequest_httpRequest hsize (hsendable.deliverable hclock hnamed) hsendable.arguments harguments hsent hlimit

end

section

open Fencing

attribute [local instance] reference memoryFencing plainNetwork

def plainDispatcher : Dispatcher where
  options := ⟨"worker", "request", 100, 50, 3, 10, 20, false⟩
  hasProvider := true
  invoke := fun request => act (.invoke request)
  retryUnknownOutcome := none

def chargeStep : EnqueueStepRequest :=
  { fencedStep with arguments := some [("amount", .ofInt64 5)], fencing := [⟨"store", "left"⟩] }

def chargeTurns : List (Turn world) :=
  [.outside (.createSaga ⟨"namespace", fencedSaga, "execution", "plan", "digest", true, false⟩) (plainAmbient 1),
    .outside (.enqueueStep chargeStep) (plainAmbient 2)] ++ (List.range 12).map fun k => .thread 0 (plainAmbient (3 + k))

def chargeRun : Config world Dispatched := deliveries [plainDispatcher.dispatch []] Memory.empty chargeTurns

def World.Call.invoked? : World.Call → Option InvocationRequest
  | .invoke request => some request
  | _ => none

def plainExecutor : HTTPExecutor := ⟨"https://example.test/charge", Http.methodPost, .empty, none, 0⟩

/-- What the executor and the handler ask of a request. -/
def isPlain (request : InvocationRequest) : Bool :=
  [request.verb, request.requestID, request.executionID, request.sagaID, request.effectID, request.idempotencyKey,
    request.contractHash].all (fun name => decide (name ≠ [] ∧ Text.trimSpace name = name)) &&
  decide (request.attempt = 1 ∧ request.fencingGrants = [⟨"store", "left", 1⟩]) && request.arguments.isSome &&
  (plainExecutor.httpRequest request).toOption.any fun sent => decide ((sent.body.getD []).length ≤ 1000)

theorem handler_decodes_invocation_charge : ∃ e ∈ chargeRun.trace, ∃ request sent, e.call = .invoke request ∧
    request.attempt = 1 ∧ request.fencingGrants = [⟨"store", "left", 1⟩] ∧
    plainExecutor.httpRequest request = .ok sent ∧ decodeRequest sent 1000 = .ok request := by
  have hfound : chargeRun.trace.any (fun e => (World.Call.invoked? e.call).any isPlain) = true := by decide +kernel
  obtain ⟨e, he, hplain⟩ := List.any_eq_true.1 hfound
  obtain ⟨request, hrequest, hplain⟩ := (Option.any_eq_true ..).1 hplain
  have hcall : e.call = .invoke request := by
    cases hc : e.call <;> rw [hc] at hrequest <;> cases hrequest
    rfl
  simp only [isPlain, Bool.and_eq_true, List.all_cons, List.all_nil, decide_eq_true_eq, Bool.and_true,
    Option.any_eq_true] at hplain
  obtain ⟨⟨⟨⟨hverb, hrequestID, hexecutionID, hsagaID, heffectID, hkey, hcontract⟩, hattempt, hgrants⟩, hsome⟩, sent, hsent,
    hlength⟩ := hplain
  have hsent : plainExecutor.httpRequest request = .ok sent := by
    cases hs : plainExecutor.httpRequest request <;> rw [hs] at hsent <;> cases hsent
    rfl
  have hthreads : ∀ p ∈ [plainDispatcher.dispatch []], ∃ (d : Dispatcher) (target : Text), d.External ∧
      d.options.invocationTimeout < maxDuration ∧ p = d.dispatch target := by
    intro p hp
    exact ⟨plainDispatcher, [], fun _ => .inl rfl, by decide, List.mem_singleton.1 hp⟩
  have hnamed : Named request := by
    refine ⟨hverb, hrequestID, hexecutionID, hsagaID, heffectID, hkey, hcontract, by omega, ?_⟩
    rw [hgrants]
    intro grant hm
    rw [List.mem_singleton.1 hm]
    exact ⟨by decide, by decide, by decide⟩
  have hclock : ClockPrintable chargeRun.trace := by
    have hall : chargeRun.trace.all (fun e => decide (0 ≤ e.ambient.now ∧ e.ambient.now ≤ 100)) = true := by decide +kernel
    intro e he
    obtain ⟨hlow, hhigh⟩ := of_decide_eq_true (List.all_eq_true.1 hall e he)
    exact ⟨hlow, (Int.add_le_add_right hhigh maxDuration).trans (by decide)⟩
  exact ⟨e, he, request, sent, hcall, hattempt, hgrants, hsent,
    handler_decodes_invocation Sha256.length_sum256 hthreads Memory.empty chargeTurns hclock he hcall hnamed
      (fun hnone => by simp [hnone] at hsome) hsent (by omega)⟩

end

end Invocation

end Effectus

import Effectus.Theorems.Runtime.Compensation

/-!
Retry policies and dispatchers. A contract's policy is normalized in milliseconds, where no maximum means that there
is no bound to compare with; the dispatcher then puts a minute in its place, so a longer first backoff without a
maximum passes the checker and no dispatcher takes it.
-/

namespace Effectus

open Fallible

/-! ### Options -/

namespace DispatcherOptions

/-- The checks on the lease and on the timeout under it. -/
structure Leased (options : DispatcherOptions) : Prop where
  owner : options.owner ≠ []
  lease : 0 ≤ options.leaseDuration
  timeout : 0 ≤ options.invocationTimeout
  shorter : options.withLease.invocationTimeout < options.withLease.leaseDuration
  positive : 0 < options.withLease.invocationTimeout

/-- The checks on the backoffs. -/
structure Backed (initialBackoff maxBackoff : Int) : Prop where
  initial : 0 ≤ initialBackoff
  most : 0 ≤ maxBackoff
  bounded : initialBackoff ≤ if maxBackoff = 0 then minute else maxBackoff

/-- An initial backoff that is not set never exceeds the maximum. -/
theorem withBackoff_bounded (options : DispatcherOptions) (hi : 0 ≤ options.initialBackoff) (hm : 0 ≤ options.maxBackoff) :
    options.withBackoff.initialBackoff ≤ options.withBackoff.maxBackoff ↔
      options.initialBackoff ≤ if options.maxBackoff = 0 then minute else options.maxBackoff := by
  have hminute : 0 < minute := by decide
  have hmost : (if options.maxBackoff ≤ 0 then minute else options.maxBackoff) =
      if options.maxBackoff = 0 then minute else options.maxBackoff := by
    by_cases h : options.maxBackoff = 0
    · rw [if_pos h.le, if_pos h]
    · rw [if_neg (by omega), if_neg h]
  have hpos : 0 < if options.maxBackoff = 0 then minute else options.maxBackoff := by
    split <;> omega
  unfold withBackoff
  dsimp only
  rw [hmost]
  by_cases hzero : options.initialBackoff ≤ 0
  · rw [if_pos hzero]
    exact iff_of_true (min_le_right ..) (by omega)
  · rw [if_neg hzero]

theorem validated_ok {options : DispatcherOptions} {provider : Option FencingGuarantee} :
    (∃ full, options.validated provider = .ok full) ↔ options.Leased ∧
      Backed options.initialBackoff options.maxBackoff ∧
      (options.requireDurableFencing = true → provider = some .durableMonotonic) := by
  unfold validated
  constructor
  · rintro ⟨full, h⟩
    obtain ⟨howner, h⟩ := ite_error_ok.1 h
    obtain ⟨hnegative, h⟩ := ite_error_ok.1 h
    obtain ⟨hshorter, h⟩ := ite_error_ok.1 h
    obtain ⟨hpositive, h⟩ := ite_error_ok.1 h
    obtain ⟨hbounded, h⟩ := ite_error_ok.1 h
    obtain ⟨hdurable, -⟩ := ite_error_ok.1 h
    simp only [not_or, not_lt] at hnegative
    obtain ⟨hlease, htimeout, hinitial, hmost⟩ := hnegative
    refine ⟨⟨howner, hlease, htimeout, not_le.1 hshorter, not_le.1 hpositive⟩, ⟨hinitial, hmost, ?_⟩, fun hrequired => ?_⟩
    · exact (withBackoff_bounded options.withLease hinitial hmost).1 (not_lt.1 hbounded)
    · by_contra hprovider
      exact hdurable ⟨hrequired, hprovider⟩
  · rintro ⟨hleased, hbacked, hdurable⟩
    have hbounded := (withBackoff_bounded options.withLease hbacked.initial hbacked.most).2 hbacked.bounded
    refine ⟨options.withLease.withBackoff, ite_error_ok.2 ⟨hleased.owner, ite_error_ok.2 ⟨?_, ite_error_ok.2 ⟨?_,
      ite_error_ok.2 ⟨?_, ite_error_ok.2 ⟨?_, ite_error_ok.2 ⟨?_, rfl⟩⟩⟩⟩⟩⟩⟩
    · simp only [not_or, not_lt]
      exact ⟨hleased.lease, hleased.timeout, hbacked.initial, hbacked.most⟩
    · exact not_le.2 hleased.shorter
    · exact not_le.2 hleased.positive
    · exact not_lt.2 hbounded
    · exact fun h => h.2 (hdurable h.1)

end DispatcherOptions

/-! ### Policies -/

/-- The policies a dispatcher can be built from: without a maximum the first backoff is at most the minute the
dispatcher takes for it. -/
def RetryPolicy.Dispatchable (policy : RetryPolicy) : Prop :=
  ¬(policy.maxBackoffMillis = 0 ∧ 60000 < policy.initialBackoffMillis)

instance (policy : RetryPolicy) : Decidable policy.Dispatchable := inferInstanceAs (Decidable ¬_)

/-- Within the supported range the product does not overflow. -/
theorem millis_eq {n : UInt64} (h : n.toNat ≤ maxBackoffMillis) : millis n = n.toNat * 1000000 := by
  have hmost : maxBackoffMillis = 9223372036854 := by decide
  have hwrap : (n.toNat : Int).bmod (2 ^ 64) = n.toNat := Int.bmod_eq_of_le (by omega) (by omega)
  unfold millis
  rw [hwrap, Int.bmod_eq_of_le (by omega) (by omega)]

theorem checkRetryPolicy_ok {policy : RetryPolicy} :
    checkRetryPolicy policy = .ok () ↔
      (policy.maxBackoffMillis = 0 ∨ policy.initialBackoffMillis ≤ policy.maxBackoffMillis) ∧
      policy.initialBackoffMillis.toNat ≤ maxBackoffMillis ∧ policy.maxBackoffMillis.toNat ≤ maxBackoffMillis := by
  unfold checkRetryPolicy
  rw [ite_error_ok, ite_error_ok]
  simp only [not_and_or, not_not, not_or, gt_iff_lt, not_lt, UInt64.not_lt]
  tauto

/-- The backoffs of a policy that passed the checker. -/
theorem backed_policy {policy : RetryPolicy} (hpolicy : checkRetryPolicy policy = .ok ()) :
    DispatcherOptions.Backed (millis policy.initialBackoffMillis) (millis policy.maxBackoffMillis) ↔
      policy.Dispatchable := by
  obtain ⟨hbound, hi, hm⟩ := checkRetryPolicy_ok.1 hpolicy
  rw [millis_eq hi, millis_eq hm]
  have hminute : DispatcherOptions.minute = 60000000000 := by decide
  have hzero : policy.maxBackoffMillis = 0 ↔ policy.maxBackoffMillis.toNat = 0 := by
    rw [← UInt64.toNat_inj]
    rfl
  have hlong : 60000 < policy.initialBackoffMillis ↔ 60000 < policy.initialBackoffMillis.toNat := UInt64.lt_iff_toNat_lt
  rw [hzero, UInt64.le_iff_toNat_le] at hbound
  unfold RetryPolicy.Dispatchable
  rw [hzero, hlong]
  constructor
  · rintro hbacked ⟨hnone, hover⟩
    have hle := hbacked.bounded
    rw [if_pos (by omega)] at hle
    omega
  · intro hshort
    refine ⟨by omega, by omega, ?_⟩
    split <;> omega

/-- The options a retry policy is put into. -/
structure DispatcherOptions.Configured (options : DispatcherOptions) (provider : Option FencingGuarantee) : Prop where
  owner : options.owner ≠ []
  fencing : options.requireDurableFencing = false
  lease : ∃ full, { options with initialBackoff := 0, maxBackoff := 0 }.validated provider = .ok full

theorem validated_policy {options : DispatcherOptions} {provider : Option FencingGuarantee}
    (h : options.Configured provider) {policy : RetryPolicy} (hpolicy : checkRetryPolicy policy = .ok ()) (attempts : Nat) :
    (∃ full, { options with
      maxAttempts := attempts, initialBackoff := millis policy.initialBackoffMillis
      maxBackoff := millis policy.maxBackoffMillis }.validated provider = .ok full) ↔ policy.Dispatchable := by
  obtain ⟨hleased, -, -⟩ := DispatcherOptions.validated_ok.1 h.lease
  rw [DispatcherOptions.validated_ok, ← backed_policy hpolicy]
  generalize millis policy.initialBackoffMillis = initial, millis policy.maxBackoffMillis = most
  refine ⟨fun hall => hall.2.1, fun hbacked => ⟨?_, hbacked, fun hrequired => ?_⟩⟩
  · exact ⟨hleased.owner, hleased.lease, hleased.timeout, hleased.shorter, hleased.positive⟩
  · exact absurd (h.fencing.symm.trans hrequired) (by decide)

/-! ### Contracts -/

/-- A contract of an environment that has a digest passed the checks of normalization. -/
theorem environmentDigest_contract [Platform] {environment : Environment} {digest : Text}
    (henv : environmentDigest environment = .ok digest) {verb : Text} {contract : VerbContract}
    (hverb : environment.verbs.get? verb = some contract) : contract.Normalizes := by
  obtain ⟨env, hnormal, -⟩ := map_ok.1 henv
  obtain ⟨-, -, hverbs, -⟩ := normalizeEnvironment_ok.1 hnormal
  obtain ⟨normal, hcontract, -⟩ := Assoc.exists_mem_mapM (Dict.entries_mapM hverbs) (Assoc.mem_of_get? hverb)
  exact (normalizeVerbContract_ok.1 (normalizeVerb_ok.1 hcontract)).1

/-- Normalization looks at no backoff but to check it. -/
theorem VerbContract.Normalizes.checked {contract : VerbContract} (h : contract.Normalizes) :
    checkRetryPolicy contract.retryPolicy = .ok () :=
  checkRetryPolicy_ok.2 (checkRetryPolicy_ok.1 h.retry)

/-- A step of an accepted plan froze the backoffs of its verb. -/
theorem frozen_backoff [Platform] [Protobuf] {artifact : RuleArtifact} {environment : Environment} {limits : Limits}
    {checked : Checked} (hcheck : checkArtifact artifact environment limits = .ok checked) {plan : Plan}
    (hplan : plan ∈ checked.artifact.plans) {step : Step} (hstep : step ∈ plan.steps) {contract : VerbContract}
    (hverb : environment.verbs.get? step.verb = some contract) :
    ∃ attempts, step.retryPolicy =
      some ⟨attempts, contract.retryPolicy.initialBackoffMillis, contract.retryPolicy.maxBackoffMillis⟩ := by
  obtain ⟨env, full, henv, -, haccepted⟩ := checkArtifact_inv hcheck
  obtain ⟨source, -, hsource⟩ := haccepted.plan hplan
  have hfrozen := hsource.steps.forall_checked (P := fun checked => ∃ normal, env.verbs.get? checked.verb = some normal ∧
    checked.retryPolicy = some ⟨normal.retryPolicy.maxAttempts, normal.retryPolicy.initialBackoffMillis,
      normal.retryPolicy.maxBackoffMillis⟩) fun {_ _ _ _ normal _ _} haccepted => by
    have hretry := Checker.checkStepPolicies_retry haccepted.policies
    obtain ⟨_, _, _, _, -, rfl⟩ := Checker.checkStepPolicies_inv haccepted.policies
    exact ⟨normal, haccepted.verb, hretry⟩
  obtain ⟨normal, hnormal, hretry⟩ := hfrozen step hstep
  obtain ⟨declared, hdeclared, hnormalizes⟩ := normalizeEnvironment_verbs henv hnormal
  cases hverb.symm.trans hdeclared
  obtain ⟨-, rfl⟩ := normalizeVerbContract_ok.1 hnormalizes
  exact ⟨_, hretry⟩

/-- A compensation contract has the backoffs the environment declares. -/
theorem compensation_backoff [Platform] {config : GenerationConfig} {g : Generation} (hg : newGeneration config = .ok g)
    {planID effectID verb hash : Text} {inverse contract : VerbContract}
    (hinverse : g.checkedCompensationContract planID effectID verb hash = some inverse)
    (hverb : config.environment.verbs.get? verb = some contract) : inverse.retryPolicy = contract.retryPolicy := by
  obtain ⟨digest, -, rfl⟩ := newGeneration_ok.1 hg
  have hcopy : (config.generation digest).environment.verbs.get? verb = some contract.cloned := by
    show (cloneGenerationEnvironment config.environment).verbs.get? verb = _
    rw [cloneGenerationEnvironment, Dict.get?_map, hverb]
    rfl
  unfold Generation.checkedCompensationContract at hinverse
  rw [hcopy] at hinverse
  split at hinverse
  · cases hinverse
  dsimp only at hinverse
  split at hinverse
  · cases hinverse
  split at hinverse
  · cases hinverse
  split at hinverse
  · cases hinverse
    rfl
  · cases hinverse

/-! ### Dispatchers -/

section

variable [Platform] [FencingProvider]

theorem newDispatcher_ok {hasProvider : Bool} {invoke : InvocationRequest → Act InvocationOutcome}
    {retryUnknownOutcome : Option (InvocationRequest → Bool)} {options : DispatcherOptions} :
    (∃ d, newDispatcher hasProvider invoke retryUnknownOutcome options = .ok d) ↔
      ∃ full, options.validated (if hasProvider then some FencingProvider.guarantee else none) = .ok full := by
  constructor
  · rintro ⟨d, h⟩
    obtain ⟨full, hfull, -⟩ := map_ok.1 h
    exact ⟨full, hfull⟩
  · rintro ⟨full, hfull⟩
    exact ⟨_, map_ok.2 ⟨full, hfull, rfl⟩⟩

/-- A retry policy yields a dispatcher, for the step that froze it and for the inverse that has it, exactly if it does
not ask for a first backoff of over a minute and leave the maximum open. -/
theorem retry_policies_dispatch [Protobuf] {environment : Environment} {digest : Text}
    (henv : environmentDigest environment = .ok digest) {verb : Text} {contract : VerbContract}
    (hverb : environment.verbs.get? verb = some contract) {options : DispatcherOptions} {hasProvider : Bool}
    (hoptions : options.Configured (if hasProvider then some FencingProvider.guarantee else none))
    (invoke : InvocationRequest → Act InvocationOutcome) (retryUnknownOutcome : Option (InvocationRequest → Bool)) :
    (∀ artifact limits checked, checkArtifact artifact environment limits = .ok checked →
      ∀ plan ∈ checked.artifact.plans, ∀ step ∈ plan.steps, step.verb = verb →
        ((∃ d, newDispatcher hasProvider invoke retryUnknownOutcome (options.forStep step) = .ok d) ↔
          contract.retryPolicy.Dispatchable)) ∧
    ∀ config g, newGeneration config = .ok g → config.environment = environment →
      ∀ planID effectID hash inverse, g.checkedCompensationContract planID effectID verb hash = some inverse →
        ((∃ d, newDispatcher hasProvider invoke retryUnknownOutcome (options.forInverse inverse) = .ok d) ↔
          contract.retryPolicy.Dispatchable) := by
  have hpolicy := (environmentDigest_contract henv hverb).checked
  constructor
  · rintro artifact limits checked hcheck plan hplan step hstep rfl
    obtain ⟨attempts, hretry⟩ := frozen_backoff hcheck hplan hstep hverb
    rw [newDispatcher_ok, DispatcherOptions.forStep, hretry]
    exact validated_policy hoptions hpolicy attempts.toNat
  · rintro config g hg rfl planID effectID hash inverse hinverse
    have hretry := compensation_backoff hg hinverse hverb
    rw [newDispatcher_ok, DispatcherOptions.forInverse, hretry]
    exact validated_policy hoptions hpolicy _

end

section

attribute [local instance] reference wireFormat memoryFencing

/-- A verb that is undone, both tried again after a first backoff and with no maximum. -/
def waitingEnvironment (initialBackoffMillis : UInt64) : Environment where
  facts := .empty
  verbs := ⟨[("apply", ⟨.empty, none, "void", "undo", ⟨3, initialBackoffMillis, 0⟩, idempotencyNone, false⟩),
    ("undo", ⟨.empty, none, "void", [], ⟨3, initialBackoffMillis, 0⟩, idempotencyNone, false⟩)],
    (by decide : Assoc.Ordered [(("apply" : Text), ()), (("undo" : Text), ())]).of_keys rfl⟩
  functions := .empty
  types := .empty

/-- An engine's options with everything left to the defaults. -/
def plainOptions : DispatcherOptions := ⟨"engine", [], 0, 0, 0, 0, 0, false⟩

theorem plainOptions_configured (provider : Option FencingGuarantee) : plainOptions.Configured provider where
  owner := by decide
  fencing := rfl
  lease := DispatcherOptions.validated_ok.2 ⟨⟨by decide, by decide, by decide, by decide, by decide⟩,
    ⟨by decide, by decide, by decide⟩, nofun⟩

/-- The step and its inverse, as the dispatcher takes them. -/
def waitingDispatch (g : Generation) (accepted : Bool) : Bool :=
  g.plans.any fun plan => plan.steps.any fun step => decide (step.verb = ("apply" : Text)) &&
    ((plainOptions.forStep step).validated none).toOption.isSome == accepted &&
    step.compensation.any fun compensation => decide (compensation.inverseVerb = ("undo" : Text)) &&
      (g.checkedCompensationContract plan.id step.id compensation.inverseVerb compensation.inverseContractHash).any
        fun inverse => ((plainOptions.forInverse inverse).validated none).toOption.isSome == accepted

theorem validated_toOption {options : DispatcherOptions} {provider : Option FencingGuarantee} :
    (options.validated provider).toOption.isSome = true ↔ ∃ full, options.validated provider = .ok full := by
  cases options.validated provider <;> simp [Except.toOption]

/-- What a run of the checker and of the dispatcher's checks says about the plan of the two verbs. -/
theorem waitingGeneration_dispatch {millis : UInt64} {accepted : Bool}
    (h : (undoGeneration (waitingEnvironment millis)).toOption.any (fun x => waitingDispatch x.2 accepted) = true) :
    ∃ checked g, checkArtifact (undoArtifact (waitingEnvironment millis)) (waitingEnvironment millis) .zero = .ok checked ∧
      newGeneration (undoConfig (waitingEnvironment millis) checked) = .ok g ∧
      ∃ plan ∈ g.plans, ∃ step ∈ plan.steps, step.verb = ("apply" : Text) ∧ ∃ compensation inverse,
        step.compensation = some compensation ∧ compensation.inverseVerb = ("undo" : Text) ∧
        g.checkedCompensationContract plan.id step.id compensation.inverseVerb compensation.inverseContractHash =
          some inverse ∧
        ((∃ full, (plainOptions.forStep step).validated none = .ok full) ↔ accepted = true) ∧
        ((∃ full, (plainOptions.forInverse inverse).validated none = .ok full) ↔ accepted = true) := by
  obtain ⟨⟨checked, g⟩, hrun, hfound⟩ := (Option.any_eq_true ..).1 h
  have hok : undoGeneration (waitingEnvironment millis) = .ok (checked, g) := by
    cases hu : undoGeneration (waitingEnvironment millis) with
    | error err => simp [hu, Except.toOption] at hrun
    | ok x => simpa [hu, Except.toOption] using hrun
  obtain ⟨checked', hcheck, hok⟩ := bind_ok.1 hok
  obtain ⟨g', hg, hok⟩ := bind_ok.1 hok
  cases pure_ok.1 hok
  simp only [waitingDispatch, List.any_eq_true, Bool.and_eq_true, decide_eq_true_eq, Option.any_eq_true, beq_iff_eq]
    at hfound
  obtain ⟨plan, hplan, step, hstep, ⟨hverb, hforward⟩, compensation, hc, hinverse, inverse, hfound, hbackward⟩ := hfound
  refine ⟨checked, g, hcheck, hg, plan, hplan, step, hstep, hverb, compensation, inverse, hc, hinverse, hfound, ?_, ?_⟩
  · rw [← validated_toOption, hforward]
  · rw [← validated_toOption, hbackward]

/-- A first backoff of a minute is within what the dispatcher takes for an open maximum. -/
theorem retry_policies_dispatch_minute : ∃ checked g,
    checkArtifact (undoArtifact (waitingEnvironment 60000)) (waitingEnvironment 60000) .zero = .ok checked ∧
    newGeneration (undoConfig (waitingEnvironment 60000) checked) = .ok g ∧
    ∃ plan ∈ g.plans, ∃ step ∈ plan.steps, step.verb = ("apply" : Text) ∧
      ∃ d, newDispatcher false (fun request => act (.invoke request)) none (plainOptions.forStep step) = .ok d := by
  have hrun : (undoGeneration (waitingEnvironment 60000)).toOption.any (fun x => waitingDispatch x.2 true) = true := by
    decide +kernel
  obtain ⟨checked, g, hcheck, hg, plan, hplan, step, hstep, hverb, -⟩ := waitingGeneration_dispatch hrun
  obtain ⟨digest, haccepted, rfl⟩ := newGeneration_ok.1 hg
  have hconfigured : plainOptions.Configured (if false then some FencingProvider.guarantee else none) :=
    plainOptions_configured none
  have hdispatch := retry_policies_dispatch haccepted.environment
    (show (waitingEnvironment 60000).verbs.get? ("apply" : Text) = some _ from rfl) hconfigured
    (fun request => act (.invoke request)) none
  have hstepDispatch := hdispatch.1 _ _ _ hcheck plan hplan step hstep hverb
  exact ⟨checked, _, hcheck, hg, plan, hplan, step, hstep, hverb, hstepDispatch.2 (by decide)⟩

/-- Two minutes pass the checker, and neither the step nor its inverse gets a dispatcher. -/
theorem retry_policy_undispatched : ∃ digest checked g,
    environmentDigest (waitingEnvironment 120000) = .ok digest ∧ plainOptions.Configured none ∧
    checkArtifact (undoArtifact (waitingEnvironment 120000)) (waitingEnvironment 120000) .zero = .ok checked ∧
    newGeneration (undoConfig (waitingEnvironment 120000) checked) = .ok g ∧
    ∃ plan ∈ g.plans, ∃ step ∈ plan.steps, step.verb = ("apply" : Text) ∧ ∃ compensation inverse,
      step.compensation = some compensation ∧ compensation.inverseVerb = ("undo" : Text) ∧
      g.checkedCompensationContract plan.id step.id compensation.inverseVerb compensation.inverseContractHash =
        some inverse ∧
      ∀ invoke retryUnknownOutcome,
        (¬∃ d, newDispatcher false invoke retryUnknownOutcome (plainOptions.forStep step) = .ok d) ∧
        ¬∃ d, newDispatcher false invoke retryUnknownOutcome (plainOptions.forInverse inverse) = .ok d := by
  have hrun : (undoGeneration (waitingEnvironment 120000)).toOption.any (fun x => waitingDispatch x.2 false) = true := by
    decide +kernel
  obtain ⟨checked, g, hcheck, hg, plan, hplan, step, hstep, hverb, compensation, inverse, hc, hinverse, hfound, hforward,
    hbackward⟩ := waitingGeneration_dispatch hrun
  obtain ⟨digest, haccepted, -⟩ := newGeneration_ok.1 hg
  refine ⟨digest, checked, g, haccepted.environment, plainOptions_configured none, hcheck, hg, plan, hplan, step, hstep,
    hverb, compensation, inverse, hc, hinverse, hfound, fun invoke retryUnknownOutcome => ⟨?_, ?_⟩⟩
  · rw [newDispatcher_ok]
    exact fun h => absurd (hforward.1 h) (by decide)
  · rw [newDispatcher_ok]
    exact fun h => absurd (hbackward.1 h) (by decide)

end

end Effectus

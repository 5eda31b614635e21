import Effectus.Theorems.IR.Checked

/-!
Checking again. The checker reads of an accepted artifact what it read of the original, and the policies it filled in
are those it would fill in, so an accepted artifact is accepted as it is.
-/

namespace Effectus

open Fallible

theorem frozenPolicy_ok {α : Type} [DecidableEq α] {isOpen : Bool} {actual expected frozen : α} {message : Text}
    (h : Checker.frozenPolicy isOpen actual expected message = .ok frozen) : frozen = expected := by
  unfold Checker.frozenPolicy at h
  split at h
  · cases h
    rfl
  · split at h
    · cases h
    · rename_i hsame
      cases h
      exact not_not.1 hsame

theorem frozenPolicy_self {α : Type} [DecidableEq α] {isOpen : Bool} {expected : α} {message : Text} :
    Checker.frozenPolicy isOpen expected expected message = .ok expected := by
  unfold Checker.frozenPolicy
  split
  · rfl
  · rw [if_neg (by simp)]

namespace Checker

variable [Platform] {c : Checker}

theorem stepCompensation_again {location : Text} {step checked : Step} {contract : VerbContract} {policy : ExecutionPolicy}
    {compensation : Option CompensationContract}
    (h : c.stepCompensation location step contract policy = .ok compensation) (hc : checked.compensation = compensation) :
    c.stepCompensation location checked contract policy = .ok compensation := by
  subst hc
  unfold stepCompensation at h ⊢
  by_cases hinverse : contract.inverseVerb = []
  · rw [if_pos hinverse] at h ⊢
    split at h
    · cases h
    · rw [← Except.ok.inj h]
      rfl
  · rw [if_neg hinverse] at h ⊢
    cases hget : c.env.verbs.get? contract.inverseVerb with
    | none => simp [hget] at h
    | some inverse =>
    simp only [hget] at h ⊢
    cases hhash : contractHash inverse with
    | error err => simp [hhash] at h
    | ok hash =>
    simp only [hhash] at h ⊢
    cases hgiven : step.compensation with
    | none =>
      simp only [hgiven] at h
      by_cases hpolicy : policy = .durableCompensating
      · rw [if_pos hpolicy] at h
        rw [← Except.ok.inj h]
        simp
      · rw [if_neg hpolicy] at h
        rw [← Except.ok.inj h, if_neg hpolicy]
    | some compensation =>
      simp only [hgiven] at h
      split at h
      · cases h
      · rename_i hsame
        rw [← Except.ok.inj h]
        simp only
        rw [if_neg hsame]

theorem checkStepPolicies_again {location : Text} {step checked : Step} {contract : VerbContract} {policy : ExecutionPolicy}
    (h : c.checkStepPolicies location step contract policy = .ok checked) :
    c.checkStepPolicies location checked contract policy = .ok checked := by
  unfold checkStepPolicies at h
  obtain ⟨retry, hretry, h⟩ := bind_ok.1 h
  obtain ⟨idempotency, hidempotency, h⟩ := bind_ok.1 h
  obtain ⟨fencing, hfencing, h⟩ := bind_ok.1 h
  obtain ⟨compensation, hcompensation, h⟩ := bind_ok.1 h
  cases pure_ok.1 h
  cases frozenPolicy_ok hretry
  cases frozenPolicy_ok hidempotency
  cases frozenPolicy_ok hfencing
  unfold checkStepPolicies
  refine bind_ok.2 ⟨_, frozenPolicy_self, bind_ok.2 ⟨_, frozenPolicy_self, bind_ok.2 ⟨_, frozenPolicy_self, ?_⟩⟩⟩
  exact bind_ok.2 ⟨_, stepCompensation_again hcompensation rfl, rfl⟩

/-- A step is read the same before and after its policies are filled in. -/
theorem checkStep_again {planLocation : Text} {index : Nat} {step checked : Step} {slots slots' : List TypeRef}
    {policy : ExecutionPolicy} {s s' : CheckState}
    (h : c.checkStep planLocation index step slots policy s = .ok ((checked, slots'), s')) :
    c.checkStep planLocation index checked slots policy s = .ok ((checked, slots'), s') := by
  obtain ⟨retry, idempotency, fencing, compensation, hpolicied⟩ : ∃ retry idempotency fencing compensation,
      checked = { step with
        retryPolicy := retry, idempotencyPolicy := idempotency, fencingRequirement := fencing,
        compensation := compensation } := by
    obtain ⟨_, _, _, haccepted⟩ := checkStep_inv h
    obtain ⟨retry, idempotency, fencing, compensation, -, he⟩ := checkStepPolicies_inv haccepted.policies
    exact ⟨retry, idempotency, fencing, compensation, he⟩
  subst hpolicied
  unfold checkStep at h ⊢
  generalize planLocation ++ (".step[" : Text) ++ Text.ofInt index ++ ("]" : Text) = location at h ⊢
  obtain ⟨hordinal, h⟩ := run_guard_ok.1 h
  obtain ⟨_, s₁, h₁, h⟩ := run_bind_ok.1 h
  obtain ⟨ids, s₂, h₂, h⟩ := run_bind_ok.1 h
  obtain ⟨hfresh, h⟩ := run_guard_ok.1 h
  obtain ⟨_, s₃, h₃, h⟩ := run_bind_ok.1 h
  obtain ⟨_, s₄, h₄, h⟩ := run_bind_ok.1 h
  refine run_guard_ok.2 ⟨hordinal, run_bind_ok.2 ⟨_, _, h₁, run_bind_ok.2 ⟨_, _, h₂, run_guard_ok.2 ⟨hfresh,
    run_bind_ok.2 ⟨_, _, h₃, run_bind_ok.2 ⟨_, _, h₄, ?_⟩⟩⟩⟩⟩⟩
  cases hverb : c.env.verbs.get? step.verb with
  | none =>
    rw [hverb] at h
    exact absurd h run_throw_ok
  | some contract =>
  simp only [hverb] at h ⊢
  cases hhash : contractHash contract with
  | error err =>
    simp only [hhash] at h
    exact absurd h run_throw_bind
  | ok hash =>
  simp only [hhash] at h ⊢
  obtain ⟨hstep, h⟩ := run_guard_ok.1 h
  obtain ⟨_, s₅, h₅, h⟩ := run_bind_ok.1 h
  obtain ⟨policied, s₆, hlift, h⟩ := run_bind_ok.1 h
  obtain ⟨a, hpolicies, ha⟩ := run_lift_ok.1 hlift
  obtain ⟨_, s₇, h₇, h⟩ := run_bind_ok.1 h
  obtain ⟨_, s₈, h₈, h⟩ := run_bind_ok.1 h
  cases hrequired : (contract.requiredArgs.getD []).find? fun required =>
      !(step.arguments.map (·.name)).contains required with
  | some required =>
    rw [hrequired] at h
    exact absurd h run_throw_ok
  | none =>
  rw [hrequired] at h
  cases hresult : c.env.parse contract.resultType true with
  | error err =>
    rw [hresult] at h
    exact absurd h run_throw_ok
  | ok resultType =>
  rw [hresult] at h
  obtain ⟨bound, s₉, h₉, h⟩ := run_bind_ok.1 h
  obtain ⟨hout, hs'⟩ := Prod.mk.inj (run_pure_ok.1 h)
  obtain ⟨hchecked, hslots⟩ := Prod.mk.inj hout
  obtain ⟨hpolicied, hs₆⟩ := Prod.mk.inj ha
  rw [← hpolicied, ← hchecked] at hpolicies
  subst hs₆ hs' hslots
  refine run_guard_ok.2 ⟨hstep, run_bind_ok.2 ⟨_, _, h₅, run_bind_ok.2 ⟨_, _,
    run_lift_ok.2 ⟨_, checkStepPolicies_again hpolicies, rfl⟩, run_bind_ok.2 ⟨_, _, h₇, run_bind_ok.2 ⟨_, _, h₈, ?_⟩⟩⟩⟩⟩
  exact run_bind_ok.2 ⟨_, _, h₉, rfl⟩

theorem checkSteps_again {location : Text} {policy : ExecutionPolicy} : ∀ {steps : List Step} {index : Nat}
    {slots : List TypeRef} {s s' : CheckState} {checked : List Step},
    c.checkSteps location policy index steps slots s = .ok (checked, s') →
      c.checkSteps location policy index checked slots s = .ok (checked, s')
  | [], _, slots, s, s', checked, h => by
    obtain ⟨rfl, rfl⟩ := Prod.mk.inj (run_pure_ok.1 h)
    rfl
  | step :: rest, _, slots, s, s', checked, h => by
    obtain ⟨⟨head, slots'⟩, s₁, hstep, h⟩ := run_bind_ok.1 h
    obtain ⟨tail, s₂, hrest, h⟩ := run_bind_ok.1 h
    obtain ⟨rfl, rfl⟩ := Prod.mk.inj (run_pure_ok.1 h)
    exact run_bind_ok.2 ⟨_, _, checkStep_again hstep, run_bind_ok.2 ⟨_, _, checkSteps_again hrest, rfl⟩⟩

theorem length_checkSteps {policy : ExecutionPolicy} {slots : List TypeRef} {steps checked : List Step}
    (h : StepsAccepted c policy slots steps checked) : checked.length = steps.length := by
  induction h with
  | nil => rfl
  | cons head tail ih => rw [List.length_cons, List.length_cons, ih]

theorem checkPlan_again {index : Nat} {plan checked : Plan} {s s' : CheckState}
    (h : c.checkPlan index plan s = .ok (checked, s')) : c.checkPlan index checked s = .ok (checked, s') := by
  unfold checkPlan at h ⊢
  generalize ("plan[" : Text) ++ Text.ofInt index ++ ("]" : Text) = location at h ⊢
  obtain ⟨_, s₁, h₁, h⟩ := run_bind_ok.1 h
  obtain ⟨_, s₂, h₂, h⟩ := run_bind_ok.1 h
  obtain ⟨_, s₃, h₃, h⟩ := run_bind_ok.1 h
  obtain ⟨_, s₄, h₄, h⟩ := run_bind_ok.1 h
  obtain ⟨_, s₅, h₅, h⟩ := run_bind_ok.1 h
  obtain ⟨_, s₆, h₆, h⟩ := run_bind_ok.1 h
  obtain ⟨steps, s₇, h₇, h⟩ := run_bind_ok.1 h
  obtain ⟨rfl, rfl⟩ := Prod.mk.inj (run_pure_ok.1 h)
  have hlength : steps.length = plan.steps.length := length_checkSteps (checkSteps_inv h₇)
  rw [← hlength] at h₃ h₄
  exact run_bind_ok.2 ⟨_, _, h₁, run_bind_ok.2 ⟨_, _, h₂, run_bind_ok.2 ⟨_, _, h₃, run_bind_ok.2 ⟨_, _, h₄,
    run_bind_ok.2 ⟨_, _, h₅, run_bind_ok.2 ⟨_, _, h₆, run_bind_ok.2 ⟨_, _, checkSteps_again h₇, rfl⟩⟩⟩⟩⟩⟩⟩

theorem checkPlans_again : ∀ {plans checked : List Plan} {previous previous' : Option Plan} {index : Nat} {s s' : CheckState},
    (∀ plan, (previous'.any fun p => decide (0 ≤ comparePlans p plan)) = previous.any fun p => decide (0 ≤ comparePlans p plan)) →
    c.checkPlans previous index plans s = .ok (checked, s') → c.checkPlans previous' index checked s = .ok (checked, s')
  | [], checked, _, _, _, s, s', _, h => by
    obtain ⟨rfl, rfl⟩ := Prod.mk.inj (run_pure_ok.1 h)
    rfl
  | plan :: rest, checked, previous, previous', index, s, s', hprevious, h => by
    unfold checkPlans at h
    obtain ⟨horder, h⟩ := run_guard_ok.1 h
    obtain ⟨head, s₁, hplan, h⟩ := run_bind_ok.1 h
    obtain ⟨tail, s₂, hrest, h⟩ := run_bind_ok.1 h
    obtain ⟨rfl, rfl⟩ := Prod.mk.inj (run_pure_ok.1 h)
    -- The order of plans does not look at their steps.
    have hsame : ∀ p, comparePlans p head = comparePlans p plan ∧ comparePlans head p = comparePlans plan p := by
      rw [(checkPlan_inv hplan).same]
      exact fun p => ⟨rfl, rfl⟩
    refine run_guard_ok.2 ⟨?_, run_bind_ok.2 ⟨_, _, checkPlan_again hplan, run_bind_ok.2 ⟨_, _, checkPlans_again ?_ hrest, rfl⟩⟩⟩
    · rw [hprevious]
      simpa only [(hsame _).1] using horder
    · intro p
      simp only [Option.any_some, (hsame p).2]

theorem check_again {artifact checked : RuleArtifact} {s s' : CheckState} (h : c.check artifact s = .ok (checked, s')) :
    c.check checked s = .ok (checked, s') := by
  unfold check at h
  obtain ⟨hformat, h⟩ := run_guard_ok.1 h
  cases hcompiler : artifact.compiler with
  | none =>
    simp only [hcompiler] at h
    exact absurd h run_throw_bind
  | some compiler =>
  simp only [hcompiler] at h
  obtain ⟨_, s₁, h₁, h⟩ := run_bind_ok.1 h
  obtain ⟨_, s₂, h₂, h⟩ := run_bind_ok.1 h
  obtain ⟨hbuild, h⟩ := run_guard_ok.1 h
  obtain ⟨_, s₃, h₃, h⟩ := run_bind_ok.1 h
  cases hdigest : environmentDigest c.env with
  | error err =>
    simp only [hdigest] at h
    exact absurd h run_throw_bind
  | ok expected =>
  simp only [hdigest] at h
  obtain ⟨hexpected, h⟩ := run_guard_ok.1 h
  obtain ⟨_, s₄, h₄, h⟩ := run_bind_ok.1 h
  obtain ⟨_, s₅, h₅, h⟩ := run_bind_ok.1 h
  obtain ⟨plans, s₆, h₆, h⟩ := run_bind_ok.1 h
  obtain ⟨rfl, rfl⟩ := Prod.mk.inj (run_pure_ok.1 h)
  rw [(checkPlans_inv h₆).length_eq] at h₅
  unfold check
  refine run_guard_ok.2 ⟨hformat, ?_⟩
  simp only [hdigest]
  exact run_bind_ok.2 ⟨_, _, h₁, run_bind_ok.2 ⟨_, _, h₂, run_guard_ok.2 ⟨hbuild, run_bind_ok.2 ⟨_, _, h₃,
    run_guard_ok.2 ⟨hexpected, run_bind_ok.2 ⟨_, _, h₄, run_bind_ok.2 ⟨_, _, h₅, run_bind_ok.2 ⟨_, _,
      checkPlans_again (fun _ => rfl) h₆, rfl⟩⟩⟩⟩⟩⟩⟩⟩

end Checker

theorem limitOrDefault_self {name : Text} {limit default full : Int} (hdefault : 0 < default)
    (h : limitOrDefault name limit default = .ok full) : limitOrDefault name full default = .ok full := by
  unfold limitOrDefault at h
  split at h
  · cases h
  · rename_i hnegative
    have hpositive : 0 < full := by
      rw [← Except.ok.inj h]
      split <;> omega
    rw [limitOrDefault, if_neg (by omega), if_neg (by omega)]

theorem Limits.withDefaults_self {limits full : Limits} (h : limits.withDefaults = .ok full) :
    full.withDefaults = .ok full := by
  unfold withDefaults at h
  simp only [bind_ok, pure_ok] at h
  obtain ⟨_, h₁, _, h₂, _, h₃, _, h₄, _, h₅, _, h₆, _, h₇, _, h₈, _, h₉, _, h₁₀, _, h₁₁, _, h₁₂, _, h₁₃, rfl⟩ := h
  unfold withDefaults
  simp only [limitOrDefault_self (by decide) h₁, limitOrDefault_self (by decide) h₂, limitOrDefault_self (by decide) h₃,
    limitOrDefault_self (by decide) h₄, limitOrDefault_self (by decide) h₅, limitOrDefault_self (by decide) h₆,
    limitOrDefault_self (by decide) h₇, limitOrDefault_self (by decide) h₈, limitOrDefault_self (by decide) h₉,
    limitOrDefault_self (by decide) h₁₀, limitOrDefault_self (by decide) h₁₁, limitOrDefault_self (by decide) h₁₂,
    limitOrDefault_self (by decide) h₁₃]
  rfl

/-- The defaults of the limits are filled in once. -/
theorem checkArtifact_limits [Platform] [Protobuf] {artifact : RuleArtifact} {environment : Environment} {limits full : Limits}
    (h : limits.withDefaults = .ok full) :
    checkArtifact artifact environment limits = checkArtifact artifact environment full := by
  unfold checkArtifact
  rw [h, Limits.withDefaults_self h]

/-- An accepted artifact is accepted again, against any environment of the same normal form, and stays as it is. -/
theorem checkArtifact_again [Platform] [Protobuf] {artifact : RuleArtifact} {environment environment' : Environment}
    {limits full : Limits} {checked : Checked} (h : checkArtifact artifact environment limits = .ok checked)
    (henv : normalizeEnvironment environment' = normalizeEnvironment environment) (hfull : limits.withDefaults = .ok full)
    (hsize : Protobuf.size checked.artifact = checked.wire.length) :
    checkArtifact checked.artifact environment' full = .ok checked := by
  obtain ⟨full', env, s, hfull', -, hunknown, hnormal, hcheck, hwire, hlimit, hdigest⟩ := checkArtifact_ok.1 h
  cases hfull.symm.trans hfull'
  refine checkArtifact_ok.2 ⟨full, env, s, Limits.withDefaults_self hfull, hsize ▸ hlimit, ?_, henv.trans hnormal,
    Checker.check_again hcheck, hwire, hlimit, hdigest⟩
  rw [(Checker.check_inv hcheck).2.2]
  exact hunknown

end Effectus

import Effectus.IR.Check
import Effectus.Lib.Fallible
import Mathlib.Data.List.Forall2

/-!
What an accepted artifact is like. The checker's counts do not matter afterwards; for each plan and each step
remain the contract its verb has, the checks its arguments passed, and what was filled in.
-/

namespace Effectus

open Fallible

namespace Checker

section

variable [Platform] {c : Checker}

/-- A step that was accepted where the results `slots` are bound, and what it became. -/
structure StepAccepted (c : Checker) (policy : ExecutionPolicy) (location : Text) (slots : List TypeRef) (step checked : Step)
    (contract : VerbContract) (resultType : TypeRef) (slots' : List TypeRef) : Prop where
  verb : c.env.verbs.get? step.verb = some contract
  hash : contractHash contract = .ok step.contractHash
  policies : c.checkStepPolicies location step contract policy = .ok checked
  arguments : ∃ s s', c.checkStepArguments location step.verb contract slots none 0 step.arguments s = .ok ((), s')
  required : ∀ name ∈ contract.requiredArgs.getD [], name ∈ step.arguments.map (·.name)
  result : c.env.parse contract.resultType true = .ok resultType
  binds : bindResult location step resultType slots = .ok slots'

theorem checkStep_inv {planLocation : Text} {index : Nat} {step : Step} {slots : List TypeRef} {policy : ExecutionPolicy}
    {s s' : CheckState} {checked : Step} {slots' : List TypeRef}
    (h : c.checkStep planLocation index step slots policy s = .ok ((checked, slots'), s')) :
    ∃ location contract resultType, StepAccepted c policy location slots step checked contract resultType slots' := by
  unfold checkStep at h
  generalize planLocation ++ (".step[" : Text) ++ Text.ofInt index ++ ("]" : Text) = location at h
  obtain ⟨-, h⟩ := run_guard_ok.1 h
  obtain ⟨_, s₁, -, h⟩ := run_bind_ok.1 h
  obtain ⟨_, s₂, -, h⟩ := run_bind_ok.1 h
  obtain ⟨-, h⟩ := run_guard_ok.1 h
  obtain ⟨_, s₃, -, h⟩ := run_bind_ok.1 h
  obtain ⟨_, s₄, -, h⟩ := run_bind_ok.1 h
  cases hverb : c.env.verbs.get? step.verb with
  | none =>
    rw [hverb] at h
    exact absurd h run_throw_ok
  | some contract =>
  rw [hverb] at h
  cases hhash : contractHash contract with
  | error err =>
    simp only [hhash] at h
    exact absurd h run_throw_bind
  | ok hash =>
  simp only [hhash] at h
  obtain ⟨hstep, h⟩ := run_guard_ok.1 h
  obtain ⟨_, s₅, -, h⟩ := run_bind_ok.1 h
  obtain ⟨policied, s₆, hlift, h⟩ := run_bind_ok.1 h
  obtain ⟨a, hpolicies, ha⟩ := run_lift_ok.1 hlift
  obtain ⟨_, s₇, -, h⟩ := run_bind_ok.1 h
  obtain ⟨_, s₈, harguments, h⟩ := run_bind_ok.1 h
  cases hrequired : (contract.requiredArgs.getD []).find? fun required =>
      !(step.arguments.map (·.name)).contains required with
  | some required =>
    rw [hrequired] at h
    exact absurd h run_throw_ok
  | none =>
  rw [hrequired] at h
  cases hresult : c.env.parse contract.resultType true with
  | error err =>
    rw [hresult] at h
    exact absurd h run_throw_ok
  | ok resultType =>
  rw [hresult] at h
  obtain ⟨bound, s₉, hlift', h⟩ := run_bind_ok.1 h
  obtain ⟨b, hbinds, hb⟩ := run_lift_ok.1 hlift'
  obtain ⟨rfl, -⟩ := Prod.mk.inj ha
  obtain ⟨rfl, -⟩ := Prod.mk.inj hb
  obtain ⟨hout, -⟩ := Prod.mk.inj (run_pure_ok.1 h)
  obtain ⟨rfl, rfl⟩ := Prod.mk.inj hout
  refine ⟨location, contract, resultType, hverb, ?_, hpolicies, ⟨_, _, harguments⟩, fun name hname => ?_, hresult, hbinds⟩
  · rw [hhash, not_not.1 hstep]
  · have := List.find?_eq_none.1 hrequired name hname
    simpa using this

/-- The steps of a plan, one after another, each where the results before it are bound. -/
inductive StepsAccepted (c : Checker) (policy : ExecutionPolicy) : List TypeRef → List Step → List Step → Prop
  | nil (slots : List TypeRef) : StepsAccepted c policy slots [] []
  | cons {location : Text} {slots slots' : List TypeRef} {step checked : Step} {contract : VerbContract}
      {resultType : TypeRef} {rest checkedRest : List Step}
      (head : StepAccepted c policy location slots step checked contract resultType slots')
      (tail : StepsAccepted c policy slots' rest checkedRest) :
      StepsAccepted c policy slots (step :: rest) (checked :: checkedRest)

theorem checkSteps_inv {location : Text} {policy : ExecutionPolicy} : ∀ {steps : List Step} {index : Nat}
    {slots : List TypeRef} {s s' : CheckState} {checked : List Step},
    c.checkSteps location policy index steps slots s = .ok (checked, s') → StepsAccepted c policy slots steps checked
  | [], _, slots, s, s', checked, h => by
    obtain ⟨rfl, -⟩ := Prod.mk.inj (run_pure_ok.1 h)
    exact .nil slots
  | step :: rest, _, slots, s, s', checked, h => by
    obtain ⟨⟨head, slots'⟩, s₁, hstep, h⟩ := run_bind_ok.1 h
    obtain ⟨tail, s₂, hrest, h⟩ := run_bind_ok.1 h
    obtain ⟨rfl, -⟩ := Prod.mk.inj (run_pure_ok.1 h)
    obtain ⟨_, _, _, haccepted⟩ := checkStep_inv hstep
    exact .cons haccepted (checkSteps_inv hrest)

/-- A plan that was accepted, and what it became: its predicate is of type bool, and its steps are accepted. -/
structure PlanAccepted (c : Checker) (plan checked : Plan) : Prop where
  id : plan.id ≠ []
  predicate : ∃ s s' t, c.checkExpression 1 plan.predicate s = .ok (t, s') ∧ t.kind = .bool
  policy : plan.executionPolicy = .durableFailFast ∨ plan.executionPolicy = .durableCompensating
  steps : StepsAccepted c plan.executionPolicy [] plan.steps checked.steps
  same : checked = { plan with steps := checked.steps }

omit [Platform] in
theorem checkPredicate_inv {location : Text} {predicate : Expression} {s s' : CheckState}
    (h : c.checkPredicate location predicate s = .ok ((), s')) :
    ∃ s s' t, c.checkExpression 1 predicate s = .ok (t, s') ∧ t.kind = .bool := by
  unfold checkPredicate at h
  split at h
  · exact absurd h run_throw_ok
  · obtain ⟨-, s₁, -, h⟩ := run_bind_ok.1 h
    obtain ⟨t, s₂, hcheck, h⟩ := run_bind_ok.1 h
    rw [run_tryCatch_ok fun _ _ => run_throw_ok] at hcheck
    by_cases hkind : t.kind ≠ .bool
    · rw [if_pos hkind] at h
      exact absurd h run_throw_ok
    · exact ⟨s₁, s₂, t, hcheck, not_not.1 hkind⟩

omit [Platform] in
/-- A required text is not empty. -/
theorem text_inv {location value : Text} {s s' : CheckState} (h : c.text location value true s = .ok ((), s')) :
    value ≠ [] := by
  unfold text at h
  obtain ⟨hblank, -⟩ := run_guard_ok.1 h
  rintro rfl
  exact hblank ⟨rfl, rfl⟩

omit [Platform] in
theorem checkPlanIdentity_inv {location : Text} {plan : Plan} {s s' : CheckState}
    (h : c.checkPlanIdentity location plan s = .ok ((), s')) :
    plan.id ≠ [] ∧ (plan.executionPolicy = .durableFailFast ∨ plan.executionPolicy = .durableCompensating) := by
  unfold checkPlanIdentity at h
  obtain ⟨_, s₁, hid, h⟩ := run_bind_ok.1 h
  obtain ⟨_, s₂, -, h⟩ := run_bind_ok.1 h
  obtain ⟨-, h⟩ := run_guard_ok.1 h
  obtain ⟨_, s₃, -, h⟩ := run_bind_ok.1 h
  obtain ⟨-, h⟩ := run_guard_ok.1 h
  obtain ⟨_, s₄, -, h⟩ := run_bind_ok.1 h
  obtain ⟨-, h⟩ := run_guard_ok.1 h
  obtain ⟨_, s₅, -, h⟩ := run_bind_ok.1 h
  refine ⟨text_inv hid, ?_⟩
  by_contra hno
  rw [if_pos (not_or.1 hno)] at h
  exact absurd h run_throw_ok

theorem checkPlan_inv {index : Nat} {plan checked : Plan} {s s' : CheckState}
    (h : c.checkPlan index plan s = .ok (checked, s')) : PlanAccepted c plan checked := by
  unfold checkPlan at h
  obtain ⟨_, s₁, hidentity, h⟩ := run_bind_ok.1 h
  obtain ⟨_, s₂, hpredicate, h⟩ := run_bind_ok.1 h
  obtain ⟨-, s₃, -, h⟩ := run_bind_ok.1 h
  obtain ⟨-, s₄, -, h⟩ := run_bind_ok.1 h
  obtain ⟨_, s₅, -, h⟩ := run_bind_ok.1 h
  obtain ⟨-, s₆, -, h⟩ := run_bind_ok.1 h
  obtain ⟨steps, s₇, hsteps, h⟩ := run_bind_ok.1 h
  obtain ⟨rfl, -⟩ := Prod.mk.inj (run_pure_ok.1 h)
  obtain ⟨hid, hpolicy⟩ := checkPlanIdentity_inv hidentity
  exact ⟨hid, checkPredicate_inv hpredicate, hpolicy, checkSteps_inv hsteps, rfl⟩

theorem checkPlans_inv : ∀ {plans checked : List Plan} {previous : Option Plan} {index : Nat} {s s' : CheckState},
    c.checkPlans previous index plans s = .ok (checked, s') → List.Forall₂ (PlanAccepted c) plans checked
  | [], checked, _, _, s, s', h => by
    obtain ⟨rfl, -⟩ := Prod.mk.inj (run_pure_ok.1 h)
    exact .nil
  | plan :: rest, checked, previous, index, s, s', h => by
    unfold checkPlans at h
    obtain ⟨-, h⟩ := run_guard_ok.1 h
    obtain ⟨head, s₁, hplan, h⟩ := run_bind_ok.1 h
    obtain ⟨tail, s₂, hrest, h⟩ := run_bind_ok.1 h
    obtain ⟨rfl, -⟩ := Prod.mk.inj (run_pure_ok.1 h)
    exact .cons (checkPlan_inv hplan) (checkPlans_inv hrest)

/-- The inverse a step freezes is its verb's, under the hash of that verb's own contract. -/
theorem stepCompensation_inv {location : Text} {step : Step} {contract : VerbContract} {policy : ExecutionPolicy}
    {compensation : CompensationContract} (h : c.stepCompensation location step contract policy = .ok (some compensation)) :
    compensation.inverseVerb = contract.inverseVerb ∧
      ∃ inverse, c.env.verbs.get? compensation.inverseVerb = some inverse ∧
        contractHash inverse = .ok compensation.inverseContractHash := by
  unfold stepCompensation at h
  split at h
  · split at h <;> cases h
  split at h
  · cases h
  rename_i inverse hinverse
  split at h
  · cases h
  rename_i hash hhash
  split at h
  · split at h
    · cases h
      exact ⟨rfl, inverse, hinverse, hhash⟩
    · cases h
  · split at h
    · cases h
    · rename_i hsame
      cases h
      obtain ⟨hverb, he⟩ := not_or.1 hsame
      rw [not_not.1 hverb, not_not.1 he]
      exact ⟨rfl, inverse, hinverse, hhash⟩

/-- What the policies fill in, and nothing else. -/
theorem checkStepPolicies_inv {location : Text} {step checked : Step} {contract : VerbContract} {policy : ExecutionPolicy}
    (h : c.checkStepPolicies location step contract policy = .ok checked) :
    ∃ retry idempotency fencing compensation, c.stepCompensation location step contract policy = .ok compensation ∧
      checked = { step with
        retryPolicy := retry, idempotencyPolicy := idempotency, fencingRequirement := fencing,
        compensation := compensation } := by
  unfold checkStepPolicies at h
  obtain ⟨retry, -, h⟩ := bind_ok.1 h
  obtain ⟨idempotency, -, h⟩ := bind_ok.1 h
  obtain ⟨fencing, -, h⟩ := bind_ok.1 h
  obtain ⟨compensation, hcompensation, h⟩ := bind_ok.1 h
  exact ⟨retry, idempotency, fencing, compensation, hcompensation, (pure_ok.1 h).symm⟩

/-- The retry policy a step freezes is its verb's. -/
theorem checkStepPolicies_retry {location : Text} {step checked : Step} {contract : VerbContract} {policy : ExecutionPolicy}
    (h : c.checkStepPolicies location step contract policy = .ok checked) :
    checked.retryPolicy = some ⟨contract.retryPolicy.maxAttempts, contract.retryPolicy.initialBackoffMillis,
      contract.retryPolicy.maxBackoffMillis⟩ := by
  unfold checkStepPolicies at h
  obtain ⟨retry, hretry, h⟩ := bind_ok.1 h
  obtain ⟨idempotency, -, h⟩ := bind_ok.1 h
  obtain ⟨fencing, -, h⟩ := bind_ok.1 h
  obtain ⟨compensation, -, h⟩ := bind_ok.1 h
  rw [← pure_ok.1 h]
  unfold frozenPolicy at hretry
  split at hretry
  · cases hretry
    rfl
  split at hretry
  · cases hretry
  · rename_i hsame
    cases hretry
    exact not_not.1 hsame

theorem StepsAccepted.forall_checked {policy : ExecutionPolicy} {slots : List TypeRef} {steps checked : List Step}
    {P : Step → Prop} (h : StepsAccepted c policy slots steps checked)
    (hP : ∀ {location slots step checked contract resultType slots'},
      StepAccepted c policy location slots step checked contract resultType slots' → P checked) : ∀ x ∈ checked, P x := by
  induction h with
  | nil slots => exact nofun
  | cons head tail ih =>
    intro x hx
    rcases List.mem_cons.1 hx with rfl | hx
    · exact hP head
    · exact ih x hx

end

end Checker

/-- An accepted artifact: the environment it was checked against, and the plans it became. -/
structure Accepted [Platform] (artifact : RuleArtifact) (env : Environment) (limits : Limits) (checked : Checked) : Prop where
  digest : environmentDigest env = .ok checked.artifact.environmentDigest
  plans : List.Forall₂ (Checker.PlanAccepted ⟨env, limits⟩) artifact.plans checked.artifact.plans
  same : checked.artifact = { artifact with plans := checked.artifact.plans }

/-- Each plan of the outcome comes from one that was accepted. -/
theorem Accepted.plan [Platform] {artifact : RuleArtifact} {env : Environment} {limits : Limits} {checked : Checked}
    (h : Accepted artifact env limits checked) {plan : Plan} (hplan : plan ∈ checked.artifact.plans) :
    ∃ source ∈ artifact.plans, Checker.PlanAccepted ⟨env, limits⟩ source plan := by
  obtain ⟨i, hi, rfl⟩ := List.getElem_of_mem hplan
  have hlength := h.plans.length_eq
  exact ⟨artifact.plans[i], List.getElem_mem _, h.plans.get (hlength ▸ hi) hi⟩

theorem Checker.check_plans [Platform] {c : Checker} {artifact checked : RuleArtifact} {s s' : CheckState}
    (h : c.check artifact s = .ok (checked, s')) :
    environmentDigest c.env = .ok checked.environmentDigest ∧
      (∃ s₁ s₂, c.checkPlans none 0 artifact.plans s₁ = .ok (checked.plans, s₂)) ∧
      checked = { artifact with plans := checked.plans } := by
  unfold Checker.check at h
  obtain ⟨-, h⟩ := run_guard_ok.1 h
  cases hcompiler : artifact.compiler with
  | none =>
    simp only [hcompiler] at h
    exact absurd h run_throw_bind
  | some compiler =>
  simp only [hcompiler] at h
  obtain ⟨_, s₁, -, h⟩ := run_bind_ok.1 h
  obtain ⟨_, s₂, -, h⟩ := run_bind_ok.1 h
  obtain ⟨-, h⟩ := run_guard_ok.1 h
  obtain ⟨_, s₃, -, h⟩ := run_bind_ok.1 h
  cases hdigest : environmentDigest c.env with
  | error err =>
    simp only [hdigest] at h
    exact absurd h run_throw_bind
  | ok expected =>
  simp only [hdigest] at h
  obtain ⟨hexpected, h⟩ := run_guard_ok.1 h
  obtain ⟨_, s₄, -, h⟩ := run_bind_ok.1 h
  obtain ⟨_, s₅, -, h⟩ := run_bind_ok.1 h
  obtain ⟨plans, s₆, hplans, h⟩ := run_bind_ok.1 h
  obtain ⟨rfl, -⟩ := Prod.mk.inj (run_pure_ok.1 h)
  exact ⟨by rw [not_not.1 hexpected], ⟨_, _, hplans⟩, rfl⟩

theorem Checker.check_inv [Platform] {c : Checker} {artifact checked : RuleArtifact} {s s' : CheckState}
    (h : c.check artifact s = .ok (checked, s')) :
    environmentDigest c.env = .ok checked.environmentDigest ∧
      List.Forall₂ (Checker.PlanAccepted c) artifact.plans checked.plans ∧
      checked = { artifact with plans := checked.plans } := by
  obtain ⟨hdigest, ⟨_, _, hplans⟩, hsame⟩ := check_plans h
  exact ⟨hdigest, checkPlans_inv hplans, hsame⟩

theorem checkArtifact_ok [Platform] [Protobuf] {artifact : RuleArtifact} {environment : Environment} {limits : Limits}
    {checked : Checked} :
    checkArtifact artifact environment limits = .ok checked ↔
      ∃ full env s, limits.withDefaults = .ok full ∧ Protobuf.size artifact ≤ full.maxArtifactBytes ∧
        artifact.unknownFields = none ∧ normalizeEnvironment environment = .ok env ∧
        Checker.check ⟨env, full⟩ artifact {} = .ok (checked.artifact, s) ∧
        Protobuf.marshal checked.artifact = some checked.wire ∧ checked.wire.length ≤ full.maxArtifactBytes ∧
        checked.digest = hexEncode (Platform.sha256 checked.wire) ∧
        checked.planCount = checked.artifact.plans.length ∧ checked.stepCount = s.stepCount := by
  unfold checkArtifact
  constructor
  · intro h
    obtain ⟨full, hfull, h⟩ := bind_ok.1 h
    obtain ⟨hsize, h⟩ := guard_ok.1 h
    cases hunknown : artifact.unknownFields with
    | some message =>
      simp only [hunknown] at h
      exact absurd h throw_ok
    | none =>
    simp only [hunknown] at h
    cases henv : normalizeEnvironment environment with
    | error err =>
      simp only [henv] at h
      exact absurd h throw_ok
    | ok env =>
    simp only [henv] at h
    obtain ⟨⟨accepted, s⟩, hcheck, h⟩ := bind_ok.1 h
    dsimp only at h
    split at h
    · exact absurd h throw_ok
    rename_i wire hwire
    obtain ⟨hlimit, h⟩ := guard_ok.1 h
    cases pure_ok.1 h
    exact ⟨full, env, s, hfull, not_lt.1 hsize, rfl, rfl, hcheck, hwire, not_lt.1 hlimit, rfl, rfl, rfl⟩
  · rintro ⟨full, env, s, hfull, hsize, hunknown, henv, hcheck, hwire, hlimit, hdigest, hplans, hsteps⟩
    refine bind_ok.2 ⟨full, hfull, guard_ok.2 ⟨not_lt.2 hsize, ?_⟩⟩
    simp only [hunknown, henv]
    refine bind_ok.2 ⟨_, hcheck, ?_⟩
    simp only [hwire]
    refine guard_ok.2 ⟨not_lt.2 hlimit, ?_⟩
    rw [← hdigest, ← hplans, ← hsteps]
    rfl

theorem checkArtifact_inv [Platform] [Protobuf] {artifact : RuleArtifact} {environment : Environment} {limits : Limits}
    {checked : Checked} (h : checkArtifact artifact environment limits = .ok checked) :
    ∃ env full, normalizeEnvironment environment = .ok env ∧ limits.withDefaults = .ok full ∧
      Accepted artifact env full checked := by
  obtain ⟨full, env, s, hfull, -, -, henv, hcheck, -⟩ := checkArtifact_ok.1 h
  obtain ⟨hdigest, hplans, hsame⟩ := Checker.check_inv hcheck
  exact ⟨env, full, henv, hfull, hdigest, hplans, hsame⟩

end Effectus

import Effectus.Go.Reference
import Effectus.IR.Wire
import Effectus.Runtime.Workflow
import Effectus.Theorems.IR.Checked
import Effectus.Theorems.Runtime.Clone

/-!
Compensation contracts at run time. The checker freezes the hash of an inverse contract, and the generation derives
it again from its own copy of the environment, so a compensation is found unless the copy requires more than its
original.
-/

namespace Effectus

open Fallible

section

variable [Platform]

/-- The first step that froze a verb and hash is found as soon as there is one. -/
theorem checkedCompensationContract_eq {g : Generation} {plan : Plan} {step : Step} {compensation : CompensationContract}
    (hplan : plan ∈ g.plans) (hid : plan.id ≠ []) (hstep : step ∈ plan.steps) (hc : step.compensation = some compensation) :
    g.checkedCompensationContract plan.id step.id compensation.inverseVerb compensation.inverseContractHash =
      (g.environment.verbs.get? compensation.inverseVerb).filter fun contract =>
        (contractHash contract).toOption = some compensation.inverseContractHash := by
  unfold Generation.checkedCompensationContract
  rw [if_neg hid]
  dsimp only
  cases hfind : ((g.plans.filter fun p => p.id = plan.id).flatMap Plan.steps).find? fun s =>
      s.id = step.id ∧ s.compensation = some ⟨compensation.inverseVerb, compensation.inverseContractHash⟩ with
  | none =>
    have hmem : step ∈ (g.plans.filter fun p => p.id = plan.id).flatMap Plan.steps :=
      List.mem_flatMap.2 ⟨plan, List.mem_filter.2 ⟨hplan, by simp⟩, hstep⟩
    exact absurd (List.find?_eq_none.1 hfind step hmem) (by simp [hc])
  | some found =>
    cases hverb : g.environment.verbs.get? compensation.inverseVerb with
    | none => rfl
    | some contract =>
      cases hhash : contractHash contract with
      | error err => simp [Option.filter, hhash, Except.toOption]
      | ok hash => simp [Option.filter, hhash, Except.toOption]

/-- What a step of an accepted plan froze is the hash of the contract the environment declares. -/
theorem frozen_compensation [Protobuf] {artifact : RuleArtifact} {environment : Environment} {limits : Limits}
    {checked : Checked} (hcheck : checkArtifact artifact environment limits = .ok checked) {plan : Plan}
    (hplan : plan ∈ checked.artifact.plans) {step : Step} (hstep : step ∈ plan.steps) {compensation : CompensationContract}
    (hc : step.compensation = some compensation) :
    plan.id ≠ [] ∧ ∃ env declared, normalizeEnvironment environment = .ok env ∧
      environmentDigest environment = .ok checked.artifact.environmentDigest ∧ env.verbs.get? compensation.inverseVerb = some declared ∧
      contractHash declared = .ok compensation.inverseContractHash := by
  obtain ⟨env, full, henv, -, haccepted⟩ := checkArtifact_inv hcheck
  obtain ⟨source, -, hsource⟩ := haccepted.plan hplan
  have hplanID : plan.id = source.id := by rw [hsource.same]
  refine ⟨hplanID ▸ hsource.id, env, ?_⟩
  have hfrozen := hsource.steps.forall_checked (P := fun checked => ∀ compensation, checked.compensation = some compensation →
    ∃ declared, env.verbs.get? compensation.inverseVerb = some declared ∧
      contractHash declared = .ok compensation.inverseContractHash) fun haccepted compensation hc => by
    obtain ⟨_, _, _, found, hfound, rfl⟩ := Checker.checkStepPolicies_inv haccepted.policies
    cases hc
    exact (Checker.stepCompensation_inv hfound).2
  obtain ⟨declared, hdeclared, hhash⟩ := hfrozen step hstep compensation hc
  exact ⟨declared, henv, environmentDigest_self henv ▸ haccepted.digest, hdeclared, hhash⟩

/-- Every checked compensation of a compensating plan can be driven, with the policies its environment declares, exactly
if the inverse verb does not list as required none of the arguments it has. -/
theorem compensation_driven [Protobuf] {artifact : RuleArtifact} {environment : Environment} {limits : Limits}
    {config : GenerationConfig} {g : Generation} {plan : Plan} {step : Step} {compensation : CompensationContract}
    (hcheck : checkArtifact artifact environment limits = .ok config.checked) (hg : newGeneration config = .ok g)
    (hdigest : environmentDigest environment = environmentDigest config.environment →
      normalizeEnvironment environment = normalizeEnvironment config.environment)
    (hsha : ∀ declared, config.environment.verbs.get? compensation.inverseVerb = some declared → declared.Separated)
    (hplan : plan ∈ g.plans) (hstep : step ∈ plan.steps) (hc : step.compensation = some compensation) :
    (∃ declared contract, config.environment.verbs.get? compensation.inverseVerb = some declared ∧
      g.checkedCompensationContract plan.id step.id compensation.inverseVerb compensation.inverseContractHash =
        some contract ∧
      contract.retryPolicy = declared.retryPolicy ∧ contract.idempotencyPolicy = declared.idempotencyPolicy) ↔
      ∀ declared, config.environment.verbs.get? compensation.inverseVerb = some declared →
        declared.requiredArgs = some [] → declared.arguments.entries = [] := by
  obtain ⟨digest, haccepted, rfl⟩ := newGeneration_ok.1 hg
  obtain ⟨hid, env, normal, henv, hfrom, hnormal, hfrozen⟩ := frozen_compensation hcheck hplan hstep hc
  -- The environment given to the generation has the digest the checker froze, so it declares the same contract.
  have hsame : normalizeEnvironment config.environment = .ok env := by
    rw [← hdigest (by rw [hfrom, haccepted.environment, haccepted.same]), henv]
  obtain ⟨declared, hdeclared, hnormalizes⟩ := normalizeEnvironment_verbs hsame hnormal
  have hhash : contractHash declared = .ok compensation.inverseContractHash := by
    rw [← contractHash_normalized hnormalizes, hfrozen]
  have hcopy : (cloneGenerationEnvironment config.environment).verbs.get? compensation.inverseVerb =
      some declared.cloned := by
    rw [cloneGenerationEnvironment, Dict.get?_map, hdeclared]
    rfl
  have hkept := contractHash_cloned hhash (hsha declared hdeclared)
  rw [checkedCompensationContract_eq hplan hid hstep hc, show (config.generation digest).environment.verbs.get? _ = _ from hcopy,
    Option.filter_some]
  constructor
  · rintro ⟨_, contract, -, hfound, -⟩ declared' hdeclared'
    cases hdeclared.symm.trans hdeclared'
    refine hkept.1 ?_
    split at hfound
    · rename_i hactual
      cases hactual' : contractHash declared.cloned with
      | error err => simp [hactual', Except.toOption] at hactual
      | ok hash =>
        have : hash = compensation.inverseContractHash := by simpa [hactual', Except.toOption] using hactual
        rw [this]
    · cases hfound
  · intro h
    have hactual := hkept.2 (h declared hdeclared)
    refine ⟨declared, declared.cloned, hdeclared, ?_, rfl, rfl⟩
    rw [hactual]
    simp [Except.toOption]

end

section

attribute [local instance] reference wireFormat

/-- What undoing takes: a key, required or not. -/
def undoContract (required : Option (List Text)) : VerbContract where
  arguments := ⟨[("key", "string")], by decide⟩
  requiredArgs := required
  resultType := "void"
  inverseVerb := []
  retryPolicy := ⟨3, 10, 20⟩
  idempotencyPolicy := idempotencySinkGuaranteed
  fencingRequired := false

/-- One verb that can be undone. -/
def undoEnvironment (required : Option (List Text)) : Environment where
  facts := .empty
  verbs := ⟨[("apply", ⟨.empty, none, "void", "undo", ⟨1, 0, 0⟩, idempotencyNone, false⟩), ("undo", undoContract required)],
    (by decide : Assoc.Ordered [(("apply" : Text), ()), (("undo" : Text), ())]).of_keys rfl⟩
  functions := .empty
  types := .empty

/-- One plan of one step, compensated by undoing it. -/
def undoArtifact (environment : Environment) : RuleArtifact where
  formatVersion := 1
  compiler := some ⟨"effectus", "1", List.replicate 64 0x30⟩
  environmentDigest := (environmentDigest environment).toOption.getD []
  plans := [⟨"plan", .list, 0, 0, .literal (.bool true), .durableCompensating, [⟨"step", 0, "apply",
    ((environment.verbs.get? "apply").bind fun contract => (contractHash contract).toOption).getD [], [], none, none, none,
    .unspecified, .unspecified⟩]⟩]
  unknownFields := none

def undoConfig (environment : Environment) (checked : Checked) : GenerationConfig where
  checked := checked
  environment := environment
  ruleset := "rules"
  version := "1"
  executorDescriptors := .empty
  functionIDs := .empty
  sourceDigest := []
  executors := []
  production := false

def undoGeneration (environment : Environment) : Except Err (Checked × Generation) := do
  let checked ← checkArtifact (undoArtifact environment) environment .zero
  let g ← newGeneration (undoConfig environment checked)
  return (checked, g)

/-- Some step of a compensating plan froze undoing, and finds it again or not. -/
def undoFound (g : Generation) (found : Bool) : Bool :=
  g.plans.any fun plan => decide (plan.executionPolicy = .durableCompensating) && plan.steps.any fun step =>
    step.compensation.any fun compensation => decide (compensation.inverseVerb = ("undo" : Text)) &&
      (g.checkedCompensationContract plan.id step.id compensation.inverseVerb compensation.inverseContractHash).isSome == found

theorem undoGeneration_found {environment : Environment} {found : Bool}
    (h : (undoGeneration environment).toOption.any (fun x => undoFound x.2 found) = true) :
    ∃ checked g, checkArtifact (undoArtifact environment) environment .zero = .ok checked ∧
      newGeneration (undoConfig environment checked) = .ok g ∧
      ∃ plan ∈ g.plans, plan.executionPolicy = .durableCompensating ∧ ∃ step ∈ plan.steps, ∃ compensation,
        step.compensation = some compensation ∧ compensation.inverseVerb = ("undo" : Text) ∧
        (g.checkedCompensationContract plan.id step.id compensation.inverseVerb compensation.inverseContractHash).isSome =
          found := by
  obtain ⟨⟨checked, g⟩, hrun, hfound⟩ := (Option.any_eq_true ..).1 h
  have hok : undoGeneration environment = .ok (checked, g) := by
    cases hu : undoGeneration environment with
    | error err => simp [hu, Except.toOption] at hrun
    | ok x => simpa [hu, Except.toOption] using hrun
  obtain ⟨checked', hcheck, hok⟩ := bind_ok.1 hok
  obtain ⟨g', hg, hok⟩ := bind_ok.1 hok
  cases pure_ok.1 hok
  simp only [undoFound, List.any_eq_true, Bool.and_eq_true, decide_eq_true_eq, Option.any_eq_true, beq_iff_eq] at hfound
  obtain ⟨plan, hplan, hpolicy, step, hstep, compensation, hc, hverb, hfound⟩ := hfound
  exact ⟨checked, g, hcheck, hg, plan, hplan, hpolicy, step, hstep, compensation, hc, hverb, hfound⟩

theorem compensation_driven_undo : ∃ checked g,
    checkArtifact (undoArtifact (undoEnvironment none)) (undoEnvironment none) .zero = .ok checked ∧
    newGeneration (undoConfig (undoEnvironment none) checked) = .ok g ∧
    ∃ plan ∈ g.plans, plan.executionPolicy = .durableCompensating ∧ ∃ step ∈ plan.steps, ∃ compensation contract,
      step.compensation = some compensation ∧
      g.checkedCompensationContract plan.id step.id compensation.inverseVerb compensation.inverseContractHash =
        some contract ∧
      contract.retryPolicy = ⟨3, 10, 20⟩ ∧ contract.idempotencyPolicy = idempotencySinkGuaranteed := by
  have hrun : (undoGeneration (undoEnvironment none)).toOption.any (fun x => undoFound x.2 true) = true := by decide +kernel
  obtain ⟨checked, g, hcheck, hg, plan, hplan, hpolicy, step, hstep, compensation, hc, hverb, -⟩ := undoGeneration_found hrun
  have hdeclared : (undoEnvironment none).verbs.get? compensation.inverseVerb = some (undoContract none) := by
    rw [hverb]
    rfl
  obtain ⟨declared, contract, hget, hfound, hretry, hidempotency⟩ :=
    (compensation_driven
      (show checkArtifact _ _ _ = .ok (undoConfig (undoEnvironment none) checked).checked from hcheck) hg (fun _ => rfl)
      (fun declared hget => by cases hdeclared.symm.trans hget; exact fun _ => rfl) hplan hstep hc).2
      (fun declared hget => by cases hdeclared.symm.trans hget; exact nofun)
  cases hdeclared.symm.trans hget
  exact ⟨checked, g, hcheck, hg, plan, hplan, hpolicy, step, hstep, compensation, contract, hc, hfound, hretry, hidempotency⟩

/-- Undoing that requires none of its arguments is checked and then not found. -/
theorem compensation_lost : ∃ checked g,
    checkArtifact (undoArtifact (undoEnvironment (some []))) (undoEnvironment (some [])) .zero = .ok checked ∧
    newGeneration (undoConfig (undoEnvironment (some [])) checked) = .ok g ∧
    ∃ plan ∈ g.plans, plan.executionPolicy = .durableCompensating ∧ ∃ step ∈ plan.steps, ∃ compensation,
      step.compensation = some compensation ∧ compensation.inverseVerb = ("undo" : Text) ∧
      (g.checkedCompensationContract plan.id step.id compensation.inverseVerb compensation.inverseContractHash).isSome =
        false :=
  undoGeneration_found (by decide +kernel)

end

end Effectus

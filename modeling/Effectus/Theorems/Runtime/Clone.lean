import Effectus.Runtime.Generation
import Effectus.Theorems.IR.Environment
import Effectus.Theorems.Outbox.Advance

/-!
The copy of an environment that a generation keeps. The copy drops an empty list of required arguments, which then
stands for all of them, so a contract keeps its normal form and its hash unless it has arguments and requires none.
-/

namespace Effectus

open Fallible

/-! ### Contracts -/

/-- The copy of a contract in a generation. -/
def VerbContract.cloned (contract : VerbContract) : VerbContract :=
  { contract with requiredArgs := contract.requiredArgs.filter (· ≠ []) }

/-- The copy of the contract requires what the contract does. -/
def VerbContract.KeptByClone (contract : VerbContract) : Prop :=
  contract.requiredArgs = some [] → contract.arguments.entries = []

theorem requiredArguments_cloned {contract : VerbContract} :
    requiredArguments contract.cloned = requiredArguments contract ↔ contract.KeptByClone := by
  unfold VerbContract.KeptByClone requiredArguments VerbContract.cloned
  cases hr : contract.requiredArgs with
  | none => simp
  | some required =>
    by_cases hempty : required = []
    · subst hempty
      rw [show sortedStrings ((some []).getD _) = [] from rfl, show Option.filter _ (some ([] : List Text)) = none from rfl,
        Option.getD_none, sortedStrings_eq_nil, List.map_eq_nil_iff]
      simp
    · simp [Option.filter, hempty]

/-- A contract is normalized by what it requires, listed or not. -/
theorem normalized_cloned {contract : VerbContract} (h : contract.KeptByClone) :
    contract.cloned.normalized = contract.normalized := by
  have hrequired := requiredArguments_cloned.2 h
  simp only [VerbContract.normalized, hrequired]
  rfl

theorem Normalizes.cloned {contract : VerbContract} (hn : contract.Normalizes) (h : contract.KeptByClone) :
    contract.cloned.Normalizes := by
  have hrequired := requiredArguments_cloned.2 h
  refine ⟨hn.names, ?_, fun name hname => hn.declared name (hrequired ▸ hname), ?_, ?_⟩
  · rw [hrequired]
    exact hn.distinct
  · exact hn.retry
  · exact hn.policy

/-- The texts of two contracts that differ in what they list as required differ in the length of that list. -/
theorem render_json_required {contract : VerbContract} {required required' : List Text}
    (h : { contract with requiredArgs := some required }.json.render =
      { contract with requiredArgs := some required' }.json.render) :
    (Json.ofTexts required).render.length = (Json.ofTexts required').render.length := by
  have hlength := congrArg List.length h
  simp only [VerbContract.json, jsonMember, List.cons_append, List.nil_append, Json.render, Json.renderMembers,
    Option.getD_some, List.length_cons, List.length_append] at hlength
  omega

theorem render_ofTexts_cons (name : Text) (names : List Text) : 2 < (Json.ofTexts (name :: names)).render.length := by
  cases names with
  | nil => simp [Json.ofTexts, Json.ofText, Json.render, Json.renderString, Json.renderItems]
  | cons => simp [Json.ofTexts, Json.ofText, Json.render, Json.renderString, Json.renderItems]

/-- The copy of a contract that requires none of its arguments has another text. -/
theorem render_cloned {contract : VerbContract}
    (h : contract.cloned.normalized.json.render = contract.normalized.json.render) : contract.KeptByClone := by
  have hrequired : (Json.ofTexts (requiredArguments contract.cloned)).render.length =
      (Json.ofTexts (requiredArguments contract)).render.length :=
    @render_json_required contract.normalized _ _ h
  intro hempty
  have hnone : requiredArguments contract = [] := by
    rw [requiredArguments, hempty]
    rfl
  have hall : requiredArguments contract.cloned = sortedStrings (contract.arguments.entries.map Prod.fst) := by
    rw [requiredArguments, VerbContract.cloned, hempty]
    rfl
  rw [hnone] at hrequired
  cases hnames : requiredArguments contract.cloned with
  | nil =>
    rw [hall, sortedStrings_eq_nil, List.map_eq_nil_iff] at hnames
    exact hnames
  | cons name names =>
    rw [hnames] at hrequired
    exact absurd (render_ofTexts_cons name names) (by rw [hrequired]; decide)

section

variable [Platform]

/-- The digest tells the text of a contract from that of its copy. -/
def VerbContract.Separated (contract : VerbContract) : Prop :=
  Platform.sha256 contract.cloned.normalized.json.render = Platform.sha256 contract.normalized.json.render →
    contract.cloned.normalized.json.render = contract.normalized.json.render

theorem contractHash_cloned {contract : VerbContract} {hash : Text} (hhash : contractHash contract = .ok hash)
    (hsha : contract.Separated) : contractHash contract.cloned = .ok hash ↔ contract.KeptByClone := by
  obtain ⟨hn, rfl⟩ := contractHash_ok.1 hhash
  constructor
  · intro h
    obtain ⟨-, h⟩ := contractHash_ok.1 h
    exact render_cloned (hsha (hexEncode_injective h))
  · intro hkept
    rw [contractHash_ok, normalized_cloned hkept]
    exact ⟨Normalizes.cloned hn hkept, rfl⟩

end

/-! ### Environments -/

section

variable [Platform]

/-- What a generation is made of. -/
def GenerationConfig.generation (config : GenerationConfig) (digest : Text) : Generation where
  checked := config.checked
  environment := cloneGenerationEnvironment config.environment
  ruleset := config.ruleset
  version := config.version
  executorDescriptors := config.executorDescriptors
  functionIDs := config.functionIDs
  sourceDigest := config.sourceDigest
  executors := config.executors
  digest := hexEncode (Platform.sha256 (generationDigestManifest config digest).render)

/-- The checks on a configuration whose environment has this digest. -/
structure GenerationConfig.Accepted (config : GenerationConfig) (digest : Text) : Prop where
  checked : config.checked.digest ≠ []
  labels : Text.trimSpace config.ruleset ≠ [] ∧ Text.trimSpace config.version ≠ []
  environment : environmentDigest config.environment = .ok digest
  same : config.checked.artifact.environmentDigest = digest
  predicates : ∀ plan ∈ config.checked.artifact.plans, validateGenerationExpression plan.predicate = .ok ()
  source : config.production = true → Text.trimSpace config.sourceDigest ≠ []
  executors : checkExecutors config = .ok ()
  verbs : config.production = true → checkProductionVerbs config = .ok ()

theorem newGeneration_ok {config : GenerationConfig} {g : Generation} :
    newGeneration config = .ok g ↔ ∃ digest, config.Accepted digest ∧ g = config.generation digest := by
  unfold newGeneration
  constructor
  · intro h
    split at h
    · cases h
    rename_i hchecked
    split at h
    · cases h
    rename_i hlabels
    split at h
    · cases h
    rename_i digest hdigest
    split at h
    · cases h
    rename_i hsame
    obtain ⟨_, hpredicates, h⟩ := bind_ok.1 h
    obtain ⟨hsource, h⟩ := guard_ok.1 h
    obtain ⟨_, hexecutors, h⟩ := bind_ok.1 h
    have hpredicates := fun plan hplan => mapError_ok.1 (forM_ok.1 hpredicates plan hplan)
    refine ⟨digest, ⟨hchecked, not_or.1 hlabels, hdigest, not_not.1 hsame, hpredicates, fun hp hs => hsource ⟨hp, hs⟩,
      hexecutors, fun hp => ?_⟩, ?_⟩
    · rw [if_pos hp] at h
      obtain ⟨_, hverbs, -⟩ := bind_ok.1 h
      exact hverbs
    · split at h
      · obtain ⟨_, -, h⟩ := bind_ok.1 h
        exact (pure_ok.1 h).symm
      · exact (pure_ok.1 h).symm
  · rintro ⟨digest, ha, rfl⟩
    rw [if_neg ha.checked, if_neg (not_or.2 ha.labels), ha.environment]
    dsimp only
    rw [if_neg (not_not.2 ha.same)]
    refine bind_ok.2 ⟨(), forM_ok.2 fun plan hplan => mapError_ok.2 (ha.predicates plan hplan), guard_ok.2
      ⟨fun h => ha.source h.1 h.2, bind_ok.2 ⟨(), ha.executors, ?_⟩⟩⟩
    split
    · rename_i hp
      exact bind_ok.2 ⟨(), ha.verbs hp, rfl⟩
    · rfl

end

end Effectus

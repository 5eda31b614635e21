import Effectus.IR.Environment
import Effectus.Lib.Fallible
import Effectus.Lib.SortBy

/-!
Normal forms of declarations. Normalizing twice is normalizing once, so the hash of a contract is that of its
normal form, and a contract enters its hash only through that form.
-/

namespace Effectus

open Fallible

/-! ### Sorted names -/

theorem sortedStrings_sortedStrings (names : List Text) : sortedStrings (sortedStrings names) = sortedStrings names :=
  (List.pairwise_insertionSort _ names).insertionSort_eq

theorem mem_sortedStrings {name : Text} {names : List Text} : name ∈ sortedStrings names ↔ name ∈ names :=
  List.mem_insertionSort _

theorem sortedStrings_eq_nil {names : List Text} : sortedStrings names = [] ↔ names = [] := by
  rw [← List.length_eq_zero_iff, sortedStrings, List.length_insertionSort, List.length_eq_zero_iff]

/-! ### Verb contracts -/

namespace VerbContract

/-- What a contract is normalized to. -/
def normalized (contract : VerbContract) : VerbContract where
  arguments := contract.arguments.map Text.trimSpace
  requiredArgs := some (requiredArguments contract)
  resultType := Text.trimSpace contract.resultType
  inverseVerb := Text.trimSpace contract.inverseVerb
  retryPolicy := { contract.retryPolicy with
    maxAttempts := if contract.retryPolicy.maxAttempts = 0 then 1 else contract.retryPolicy.maxAttempts }
  idempotencyPolicy := if contract.idempotencyPolicy = [] then idempotencyNone else contract.idempotencyPolicy
  fencingRequired := contract.fencingRequired

/-- The checks normalization makes. -/
structure Normalizes (contract : VerbContract) : Prop where
  names : ∀ entry ∈ contract.arguments.entries, Text.trimSpace entry.1 ≠ [] ∧ Text.trimSpace entry.1 = entry.1
  distinct : duplicate? (requiredArguments contract) = none
  declared : ∀ name ∈ requiredArguments contract, (contract.arguments.get? name).isSome
  retry : checkRetryPolicy contract.normalized.retryPolicy = .ok ()
  policy : contract.normalized.idempotencyPolicy ∈ [idempotencyNone, idempotencyKeyRequired, idempotencySinkGuaranteed]

end VerbContract

theorem normalizeVerbContract_ok {contract normal : VerbContract} :
    normalizeVerbContract contract = .ok normal ↔ contract.Normalizes ∧ normal = contract.normalized := by
  constructor
  · intro h
    unfold normalizeVerbContract at h
    split at h
    · cases h
    rename_i hnames
    dsimp only at h
    split at h
    · cases h
    · cases h
    rename_i hdistinct hdeclared
    split at h
    · cases h
    rename_i hretry
    generalize hp : (if contract.idempotencyPolicy = [] then idempotencyNone else contract.idempotencyPolicy) = policy at h
    by_cases hpolicy : policy ≠ idempotencyNone ∧ policy ≠ idempotencyKeyRequired ∧ policy ≠ idempotencySinkGuaranteed
    · rw [if_pos hpolicy] at h
      cases h
    rw [if_neg hpolicy] at h
    subst hp
    cases h
    refine ⟨⟨fun entry hentry => ?_, hdistinct, fun name hname => ?_, hretry, ?_⟩, rfl⟩
    · simpa using List.find?_eq_none.1 hnames entry hentry
    · simpa [Option.isSome_iff_ne_none] using List.find?_eq_none.1 hdeclared name hname
    · show (if contract.idempotencyPolicy = [] then idempotencyNone else contract.idempotencyPolicy) ∈ _
      rw [List.mem_cons, List.mem_cons, List.mem_singleton]
      by_contra hno
      exact hpolicy (by simpa only [not_or] using hno)
  · rintro ⟨hn, rfl⟩
    unfold normalizeVerbContract
    rw [List.find?_eq_none.2 fun entry hentry => by simpa using hn.names entry hentry]
    dsimp only
    rw [hn.distinct, List.find?_eq_none.2 fun name hname => by simpa [Option.isSome_iff_ne_none] using hn.declared name hname]
    have hretry := hn.retry
    have hpolicy := hn.policy
    simp only [VerbContract.normalized] at hretry hpolicy
    simp only [hretry]
    rw [if_neg]
    · rfl
    · rw [List.mem_cons, List.mem_cons, List.mem_singleton] at hpolicy
      rintro ⟨h₁, h₂, h₃⟩
      exact hpolicy.elim h₁ fun h => h.elim h₂ h₃

theorem requiredArguments_normalized (contract : VerbContract) :
    requiredArguments contract.normalized = requiredArguments contract :=
  sortedStrings_sortedStrings _

/-- A normal form is its own. -/
theorem VerbContract.normalized_normalized (contract : VerbContract) :
    contract.normalized.normalized = contract.normalized := by
  have harguments : (contract.arguments.map Text.trimSpace).map Text.trimSpace = contract.arguments.map Text.trimSpace := by
    simp [Dict.map, Text.trimSpace_trimSpace]
  rw [normalized, requiredArguments_normalized]
  by_cases hattempts : contract.retryPolicy.maxAttempts = 0 <;> by_cases hpolicy : contract.idempotencyPolicy = [] <;>
    simp [normalized, harguments, Text.trimSpace_trimSpace, hattempts, hpolicy]

theorem VerbContract.Normalizes.normalized {contract : VerbContract} (h : contract.Normalizes) :
    contract.normalized.Normalizes := by
  refine ⟨fun entry hentry => ?_, ?_, fun name hname => ?_, ?_, ?_⟩
  · obtain ⟨x, hx, rfl⟩ := List.mem_map.1 hentry
    exact h.names x hx
  · rw [requiredArguments_normalized]
    exact h.distinct
  · rw [requiredArguments_normalized] at hname
    show ((contract.arguments.map Text.trimSpace).get? name).isSome
    rw [Dict.get?_map, Option.isSome_map]
    exact h.declared name hname
  · rw [contract.normalized_normalized]
    exact h.retry
  · rw [contract.normalized_normalized]
    exact h.policy

section

variable [Platform]

theorem contractHash_ok {contract : VerbContract} {hash : Text} :
    contractHash contract = .ok hash ↔
      contract.Normalizes ∧ hexEncode (Platform.sha256 contract.normalized.json.render) = hash := by
  simp only [contractHash, map_ok, normalizeVerbContract_ok]
  constructor
  · rintro ⟨_, ⟨hn, rfl⟩, h⟩
    exact ⟨hn, h⟩
  · rintro ⟨hn, h⟩
    exact ⟨_, ⟨hn, rfl⟩, h⟩

/-- The hash of a contract is that of its normal form. -/
theorem contractHash_normalized {contract normal : VerbContract} (h : normalizeVerbContract contract = .ok normal) :
    contractHash normal = contractHash contract := by
  obtain ⟨hn, rfl⟩ := normalizeVerbContract_ok.1 h
  rw [contractHash_ok.2 ⟨hn.normalized, rfl⟩, contractHash_ok.2 ⟨hn, rfl⟩, contract.normalized_normalized]

end

/-! ### Environments -/

/-- The names an environment declares are fit to be declared. -/
structure Environment.Named (environment : Environment) : Prop where
  types : ∀ entry ∈ environment.types.entries, checkTypeName entry.1 = .ok ()
  facts : ∀ entry ∈ environment.facts.entries, checkDeclaredName "fact path" entry.1 = .ok ()
  verbs : ∀ entry ∈ environment.verbs.entries, checkDeclaredName "verb name" entry.1 = .ok ()
  functions : ∀ entry ∈ environment.functions.entries, checkDeclaredName "function name" entry.1 = .ok ()

/-- The types an environment mentions are types of it. -/
structure Environment.Typed (env : Environment) : Prop where
  types : ∀ entry ∈ env.types.entries, env.checkTypeDefinition entry.1 entry.2 = .ok ()
  facts : ∀ entry ∈ env.facts.entries, env.checkParses (("fact " : Text) ++ Text.quote entry.1) entry.2 false = .ok ()
  verbs : ∀ entry ∈ env.verbs.entries, env.checkVerb entry.1 entry.2 = .ok ()
  functions : ∀ entry ∈ env.functions.entries, env.checkFunction entry.1 entry.2 = .ok ()

/-- One verb of an environment, its error under its name. -/
def normalizeVerb (name : Text) (contract : VerbContract) : Except Err VerbContract :=
  match normalizeVerbContract contract with
  | .error err => .error (err.under (("verb " : Text) ++ Text.quote name))
  | .ok normalized => .ok normalized

theorem normalizeVerb_ok {name : Text} {contract normal : VerbContract} :
    normalizeVerb name contract = .ok normal ↔ normalizeVerbContract contract = .ok normal := by
  unfold normalizeVerb
  cases normalizeVerbContract contract <;> simp

theorem normalizeEnvironment_ok {environment env : Environment} :
    normalizeEnvironment environment = .ok env ↔ environment.Named ∧ env.Typed ∧
      environment.verbs.mapM normalizeVerb = .ok env.verbs ∧ env.facts = environment.facts.map Text.trimSpace ∧
      env.functions = environment.functions.map normalizeFunction ∧
      env.types = environment.types.map normalizeTypeDefinition := by
  unfold normalizeEnvironment
  simp only [bind_ok, pure_ok]
  constructor
  · rintro ⟨_, htypes, _, hfacts, _, hverbs, verbs, hmap, _, hfunctions, _, h₁, _, h₂, _, h₃, _, h₄, rfl⟩
    exact ⟨⟨forM_ok.1 htypes, forM_ok.1 hfacts, forM_ok.1 hverbs, forM_ok.1 hfunctions⟩,
      ⟨forM_ok.1 h₁, forM_ok.1 h₂, forM_ok.1 h₃, forM_ok.1 h₄⟩, hmap, rfl, rfl, rfl⟩
  · rintro ⟨hnamed, htyped, hmap, hfacts, hfunctions, htypes⟩
    obtain ⟨facts, verbs, functions, types⟩ := env
    subst hfacts hfunctions htypes
    exact ⟨(), forM_ok.2 hnamed.types, (), forM_ok.2 hnamed.facts, (), forM_ok.2 hnamed.verbs, verbs, hmap, (),
      forM_ok.2 hnamed.functions, (), forM_ok.2 htyped.types, (), forM_ok.2 htyped.facts, (), forM_ok.2 htyped.verbs, (),
      forM_ok.2 htyped.functions, rfl⟩

theorem normalizeEnvironment_verbs {environment env : Environment} (h : normalizeEnvironment environment = .ok env)
    {verb : Text} {normal : VerbContract} (hverb : env.verbs.get? verb = some normal) :
    ∃ contract, environment.verbs.get? verb = some contract ∧ normalizeVerbContract contract = .ok normal := by
  obtain ⟨-, -, hverbs, -⟩ := normalizeEnvironment_ok.1 h
  obtain ⟨contract, hcontract, hnormal⟩ := Dict.get?_mapM hverbs hverb
  exact ⟨contract, hcontract, normalizeVerb_ok.1 hnormal⟩

/-- A normal definition is one of the three kinds, spelled as the source spells them. -/
theorem normalizeTypeDefinition_self {env : Environment} {name : Text} {definition : TypeDefinition}
    (h : env.checkTypeDefinition name (normalizeTypeDefinition definition) = .ok ()) :
    normalizeTypeDefinition (normalizeTypeDefinition definition) = normalizeTypeDefinition definition := by
  have hkind : (normalizeTypeDefinition definition).kind ∈ [typeKindObject, typeKindList, typeKindMap] := by
    unfold Environment.checkTypeDefinition at h
    dsimp only at h
    split at h
    · rename_i hobject
      simp [hobject]
    · split at h
      · rename_i hother
        rcases hother with hother | hother
        · simp [hother]
        · simp [hother]
      · cases h
  have hspelled : ∀ kind ∈ [typeKindObject, typeKindList, typeKindMap], Text.toLower (Text.trimSpace kind) = kind := by
    decide
  have hself := hspelled _ hkind
  generalize hn : normalizeTypeDefinition definition = normal at hself ⊢
  rw [normalizeTypeDefinition, hself]
  subst hn
  simp only [normalizeTypeDefinition, Text.trimSpace_trimSpace, sortedStrings_sortedStrings]

/-- A normal environment is its own normal form. -/
theorem normalizeEnvironment_self {environment env : Environment} (h : normalizeEnvironment environment = .ok env) :
    normalizeEnvironment env = .ok env := by
  obtain ⟨hnamed, htyped, hverbs, hfacts, hfunctions, htypes⟩ := normalizeEnvironment_ok.1 h
  have hkeys := Assoc.keys_mapM (Dict.entries_mapM hverbs)
  refine normalizeEnvironment_ok.2 ⟨⟨?_, ?_, ?_, ?_⟩, htyped, ?_, ?_, ?_, ?_⟩
  · rw [htypes]
    intro entry hentry
    obtain ⟨x, hx, rfl⟩ := List.mem_map.1 hentry
    exact hnamed.types x hx
  · rw [hfacts]
    intro entry hentry
    obtain ⟨x, hx, rfl⟩ := List.mem_map.1 hentry
    exact hnamed.facts x hx
  · intro entry hentry
    have hmem : entry.1 ∈ environment.verbs.entries.map Prod.fst := hkeys ▸ List.mem_map_of_mem hentry
    obtain ⟨x, hx, he⟩ := List.mem_map.1 hmem
    exact he ▸ hnamed.verbs x hx
  · rw [hfunctions]
    intro entry hentry
    obtain ⟨x, hx, rfl⟩ := List.mem_map.1 hentry
    exact hnamed.functions x hx
  · refine Dict.mapM_self fun x hx => normalizeVerb_ok.2 ?_
    obtain ⟨contract, -, hcontract⟩ := Assoc.mem_mapM (Dict.entries_mapM hverbs) hx
    obtain ⟨hn, he⟩ := normalizeVerbContract_ok.1 (normalizeVerb_ok.1 hcontract)
    rw [he]
    exact normalizeVerbContract_ok.2 ⟨hn.normalized, contract.normalized_normalized.symm⟩
  · rw [hfacts]
    simp [Dict.map, Text.trimSpace_trimSpace]
  · rw [hfunctions]
    simp [Dict.map, normalizeFunction, Text.trimSpace_trimSpace]
  · refine (Dict.map_self fun x hx => ?_).symm
    have hcheck := htyped.types x hx
    rw [htypes] at hx
    obtain ⟨y, -, rfl⟩ := List.mem_map.1 hx
    exact normalizeTypeDefinition_self hcheck

theorem environmentDigest_self [Platform] {environment env : Environment} (h : normalizeEnvironment environment = .ok env) :
    environmentDigest env = environmentDigest environment := by
  rw [environmentDigest, environmentDigest, normalizeEnvironment_self h, h]

end Effectus

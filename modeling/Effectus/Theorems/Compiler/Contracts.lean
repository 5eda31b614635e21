import Effectus.Compiler.Lower
import Effectus.Go.Reference
import Effectus.IR.Value
import Effectus.Theorems.IR.Environment
import Mathlib.Data.List.Nodup

/-!
Compensation sends the arguments of a step to the inverse of its verb. The compiler compares the two contracts as they
are written, where an argument list that was left out looks like an empty one; the checker takes it for all arguments.
-/

namespace Effectus

namespace Compiler

open Fallible

/-! ### Comparing contracts -/

/-- The arguments a contract requires: all of them when it lists none. -/
def required (contract : VerbContract) : List Text :=
  contract.requiredArgs.getD (contract.arguments.entries.map Prod.fst)

theorem mem_requiredArguments {contract : VerbContract} {name : Text} :
    name ∈ requiredArguments contract ↔ name ∈ required contract :=
  mem_sortedStrings

/-- Names that join to nothing are none. -/
theorem eq_nil_of_intercalate {ls : List Text} (hls : ∀ l ∈ ls, l ≠ []) (h : List.intercalate [0] ls = []) : ls = [] := by
  cases ls with
  | nil => rfl
  | cons l ls =>
    cases ls with
    | nil => exact absurd (by simpa using h) (hls l (List.mem_singleton_self _))
    | cons m ls => simp [List.intercalate] at h

/-- Names without a separator are found again in what they are joined to. -/
theorem intercalate_inj {ls ms : List Text} (hl : ∀ l ∈ ls, l ≠ [] ∧ 0 ∉ l) (hm : ∀ l ∈ ms, l ≠ [] ∧ 0 ∉ l)
    (h : List.intercalate [0] ls = List.intercalate [0] ms) : ls = ms := by
  by_cases hls : ls = []
  · subst hls
    exact (eq_nil_of_intercalate (fun l hmem => (hm l hmem).1) h.symm).symm
  by_cases hms : ms = []
  · subst hms
    exact eq_nil_of_intercalate (fun l hmem => (hl l hmem).1) h
  rw [← List.splitOn_intercalate 0 (fun l hl' => (hl l hl').2) hls, h,
    List.splitOn_intercalate 0 (fun l hl' => (hm l hl').2) hms]

theorem length_intercalate {ls : List Text} (h : ls ≠ []) :
    (List.intercalate [0] ls).length + 1 = (ls.map fun l => l.length + 1).sum := by
  induction ls with
  | nil => exact absurd rfl h
  | cons l ls ih =>
    cases ls with
    | nil => simp
    | cons m ls =>
      have hjoin : List.intercalate [0] (l :: m :: ls) = l ++ 0 :: List.intercalate [0] (m :: ls) := by
        simp [List.intercalate]
      rw [hjoin, List.map_cons, List.sum_cons, ← ih (by simp)]
      simp
      omega

/-- Some of the names do not join to what all of them join to, whatever bytes they hold. -/
theorem subset_of_intercalate {ls ms : List Text} (hl : ∀ l ∈ ls, l ≠ []) (hn : ms.Nodup) (hsub : ms ⊆ ls)
    (h : List.intercalate [0] ls = List.intercalate [0] ms) : ls ⊆ ms := by
  by_cases hms : ms = []
  · subst hms
    rw [eq_nil_of_intercalate hl h]
    exact List.Subset.refl _
  obtain ⟨ms', hperm, hsublist⟩ := List.subperm_of_subset hn hsub
  obtain ⟨rest, hrest⟩ := hsublist.exists_perm_append
  have hall : ls.Perm (ms ++ rest) := hrest.trans (hperm.append_right rest)
  have hls : ls ≠ [] := by
    rintro rfl
    exact hms (List.eq_nil_of_subset_nil hsub)
  have hsum := (hall.map fun l => l.length + 1).sum_eq
  rw [← length_intercalate hls, h, length_intercalate hms, List.map_append, List.sum_append] at hsum
  cases rest with
  | nil =>
    rw [List.append_nil] at hall
    exact fun l hmem => hall.mem_iff.1 hmem
  | cons l rest =>
    rw [List.map_cons, List.sum_cons] at hsum
    omega

theorem nodup_of_duplicate? {names : List Text} (h : duplicate? names = none) : names.Nodup := by
  induction names with
  | nil => exact List.nodup_nil
  | cons name rest ih =>
    rw [duplicate?] at h
    split at h
    · cases h
    · rename_i hmem
      exact List.nodup_cons.2 ⟨by simpa using hmem, ih h⟩

theorem equalStringSet_iff {ls ms : List Text} (hl : ∀ l ∈ ls, l ≠ [] ∧ 0 ∉ l) (hm : ∀ l ∈ ms, l ≠ [] ∧ 0 ∉ l)
    (h : equalStringSet ls ms = true) : ∀ name, name ∈ ls ↔ name ∈ ms := by
  have hsorted : sortedStrings ls = sortedStrings ms := by
    refine intercalate_inj (fun l hmem => hl l (mem_sortedStrings.1 hmem)) (fun l hmem => hm l (mem_sortedStrings.1 hmem)) ?_
    exact of_decide_eq_true h
  intro name
  rw [← mem_sortedStrings, hsorted, mem_sortedStrings]

/-- Declarations that are found equal are declared by both, if no type name is empty. -/
theorem equalStringMap_get? {left right : Dict Text Text} (htypes : ∀ entry ∈ left.entries, entry.2 ≠ [])
    (h : equalStringMap left right = true) {name typeName : Text} (hl : left.get? name = some typeName) :
    right.get? name = some typeName := by
  have hmem : (name, typeName) ∈ left.entries := Assoc.mem_of_get? hl
  have hequal := of_decide_eq_true (List.all_eq_true.1 (Bool.and_eq_true_iff.1 h).2 _ hmem)
  cases hr : right.get? name with
  | none =>
    rw [hr] at hequal
    exact absurd hequal.symm (htypes _ hmem)
  | some other =>
    rw [hr] at hequal
    exact congrArg some hequal

theorem equalStringMap_keys {left right : Dict Text Text} (htypes : ∀ entry ∈ left.entries, entry.2 ≠ [])
    (h : equalStringMap left right = true) : ∀ name, name ∈ right.entries.map Prod.fst → name ∈ left.entries.map Prod.fst := by
  have hsub : left.entries.map Prod.fst ⊆ right.entries.map Prod.fst := by
    intro name hm
    obtain ⟨⟨_, typeName⟩, hentry, rfl⟩ := List.mem_map.1 hm
    have hright := equalStringMap_get? htypes h (left.ordered.get?_of_mem hentry)
    exact List.mem_map.2 ⟨_, Assoc.mem_of_get? hright, rfl⟩
  have hnodup : (left.entries.map Prod.fst).Nodup := by
    rw [List.Nodup, List.pairwise_map]
    refine List.Pairwise.imp ?_ left.ordered
    intro a b hlt heq
    rw [heq] at hlt
    exact Std.Irrefl.irrefl (r := fun x y : Text => x < y) _ hlt
  have hlength : left.entries.length = right.entries.length := of_decide_eq_true (Bool.and_eq_true_iff.1 h).1
  have hperm := (List.subperm_of_subset hnodup hsub).perm_of_length_le (by simp [hlength])
  exact fun name hm => hperm.mem_iff.2 hm

/-! ### Argument maps -/

/-- An argument map a verb takes: its names are declared, what the checker requires is there, and each value normalizes
at its declared type. -/
def Takes (environment : Environment) (verb : Text) (arguments : List (Text × GoValue)) : Prop :=
  ∃ env contract, normalizeEnvironment environment = .ok env ∧ env.verbs.get? verb = some contract ∧
    (∀ x ∈ arguments, ∃ typeName v, contract.arguments.get? x.1 = some typeName ∧
      normalizeValue environment typeName x.2 = .ok v) ∧
    ∀ name ∈ contract.requiredArgs.getD [], name ∈ arguments.map Prod.fst

section

variable {environment env : Environment} {verb : Text} {contract : VerbContract} {arguments : List (Text × GoValue)}

/-- The verbs of an environment and of its normal form. -/
theorem normalizeEnvironment_get? (h : normalizeEnvironment environment = .ok env)
    (hverb : environment.verbs.get? verb = some contract) :
    env.verbs.get? verb = some contract.normalized ∧ contract.Normalizes := by
  obtain ⟨-, -, hverbs, -⟩ := normalizeEnvironment_ok.1 h
  have hmem : (verb, contract) ∈ environment.verbs.entries := Assoc.mem_of_get? hverb
  obtain ⟨normal, hnormal, hget⟩ := Assoc.exists_mem_mapM (Dict.entries_mapM hverbs) hmem
  obtain ⟨hnormalizes, rfl⟩ := normalizeVerbContract_ok.1 (normalizeVerb_ok.1 hnormal)
  exact ⟨env.verbs.ordered.get?_of_mem hget, hnormalizes⟩

/-- A contract of an environment that is accepted. -/
theorem type_ne_nil (h : normalizeEnvironment environment = .ok env) (hverb : environment.verbs.get? verb = some contract) :
    ∀ entry ∈ contract.arguments.entries, entry.2 ≠ [] := by
  intro entry hentry hnil
  obtain ⟨hget, -⟩ := normalizeEnvironment_get? h hverb
  obtain ⟨-, htyped, -⟩ := normalizeEnvironment_ok.1 h
  obtain ⟨u, hparses, -⟩ := bind_ok.1 (htyped.verbs _ (Assoc.mem_of_get? hget))
  have hmem : (entry.1, Text.trimSpace entry.2) ∈ contract.normalized.arguments.entries :=
    List.mem_map.2 ⟨entry, hentry, rfl⟩
  have hparse := forM_ok.1 hparses _ hmem
  rw [hnil] at hparse
  dsimp only at hparse
  split at hparse
  · cases hparse
  · cases hparse

/-- What a verb takes, by its contract as it is written. -/
theorem takes_iff (h : normalizeEnvironment environment = .ok env) (hverb : environment.verbs.get? verb = some contract) :
    Takes environment verb arguments ↔
      (∀ x ∈ arguments, ∃ typeName v, contract.arguments.get? x.1 = some typeName ∧
        normalizeValue environment (Text.trimSpace typeName) x.2 = .ok v) ∧
      ∀ name ∈ required contract, name ∈ arguments.map Prod.fst := by
  obtain ⟨hget, -⟩ := normalizeEnvironment_get? h hverb
  have hdeclared : ∀ name typeName, contract.normalized.arguments.get? name = some typeName ↔
      ∃ written, contract.arguments.get? name = some written ∧ Text.trimSpace written = typeName := by
    intro name typeName
    show (contract.arguments.map Text.trimSpace).get? name = some typeName ↔ _
    rw [Dict.get?_map, Option.map_eq_some_iff]
  constructor
  · rintro ⟨env', contract', henv, hcontract, hvalues, hrequired⟩
    cases h.symm.trans henv
    cases hget.symm.trans hcontract
    refine ⟨fun x hx => ?_, fun name hname => hrequired name (mem_requiredArguments.2 hname)⟩
    obtain ⟨typeName, v, htype, hv⟩ := hvalues x hx
    obtain ⟨written, hwritten, rfl⟩ := (hdeclared _ _).1 htype
    exact ⟨written, v, hwritten, hv⟩
  · rintro ⟨hvalues, hrequired⟩
    refine ⟨env, _, h, hget, fun x hx => ?_, fun name hname => hrequired name (mem_requiredArguments.1 hname)⟩
    obtain ⟨written, v, hwritten, hv⟩ := hvalues x hx
    exact ⟨_, v, (hdeclared _ _).2 ⟨written, hwritten, rfl⟩, hv⟩

/-- What the compiler finds of a verb it can compensate. -/
theorem validateCompensationContract_ok (h : validateCompensationContract verb contract environment = .ok ()) :
    ∃ inverse, environment.verbs.get? contract.inverseVerb = some inverse ∧
      equalStringMap contract.arguments inverse.arguments = true ∧
      equalStringSet (contract.requiredArgs.getD []) (inverse.requiredArgs.getD []) = true := by
  unfold validateCompensationContract at h
  split at h
  · cases h
  split at h
  · cases h
  rename_i inverse hinverse
  split at h
  · cases h
  rename_i hequal
  push Not at hequal
  exact ⟨inverse, hinverse, by simpa using hequal.1, by simpa using hequal.2⟩

theorem required_eq {names : List Text} (h : contract.requiredArgs = some names) : required contract = names := by
  rw [required, h, Option.getD_some]

/-- A required argument is declared, so its name is not empty. -/
theorem required_declared (hn : contract.Normalizes) {name : Text} (hname : name ∈ required contract) :
    name ≠ [] ∧ name ∈ contract.arguments.entries.map Prod.fst := by
  obtain ⟨typeName, htype⟩ := Option.isSome_iff_exists.1 (hn.declared name (mem_requiredArguments.2 hname))
  have hmem : (name, typeName) ∈ contract.arguments.entries := Assoc.mem_of_get? htype
  refine ⟨?_, List.mem_map.2 ⟨_, hmem, rfl⟩⟩
  rintro rfl
  exact (hn.names _ hmem).1 rfl

/-- The two contracts require the same: both leave their lists out, or the verb does and requires all there is, or both
give the same names. A verb that gives a list, and an inverse that does not, have no arguments. -/
def SameRequired (contract inverse : VerbContract) : Prop :=
  match contract.requiredArgs, inverse.requiredArgs with
  | none, _ => True
  | some _, none => contract.arguments.entries = []
  | some names, some names' => ∀ name, name ∈ names ↔ name ∈ names'

variable {inverse : VerbContract}

/-- What the inverse requires is then required by the verb. -/
theorem SameRequired.subset (h : SameRequired contract inverse) (hn : inverse.Normalizes)
    (hkeys : ∀ name, name ∈ inverse.arguments.entries.map Prod.fst → name ∈ contract.arguments.entries.map Prod.fst) :
    ∀ name ∈ required inverse, name ∈ required contract := by
  intro name hname
  have hdeclared := hkeys name (required_declared hn hname).2
  cases hc : contract.requiredArgs with
  | none => rwa [required, hc, Option.getD_none]
  | some names =>
    cases hi : inverse.requiredArgs with
    | none =>
      simp only [SameRequired, hc, hi] at h
      simp [h] at hdeclared
    | some names' =>
      simp only [SameRequired, hc, hi] at h
      rw [required_eq hi] at hname
      rw [required_eq hc]
      exact (h name).2 hname

/-- Without the byte the names are joined with, only a list that was left out is confused with another. -/
theorem sameRequired_iff (hn : contract.Normalizes) (hn' : inverse.Normalizes)
    (hkeys : ∀ name, name ∈ inverse.arguments.entries.map Prod.fst → name ∈ contract.arguments.entries.map Prod.fst)
    (hset : equalStringSet (contract.requiredArgs.getD []) (inverse.requiredArgs.getD []) = true)
    (hnames : ∀ entry ∈ contract.arguments.entries, 0 ∉ entry.1) :
    SameRequired contract inverse ↔
      (inverse.requiredArgs = none → contract.requiredArgs = none ∨ contract.arguments.entries = []) := by
  have hclean : ∀ name ∈ contract.arguments.entries.map Prod.fst, 0 ∉ name := by
    intro name hname
    obtain ⟨entry, hentry, rfl⟩ := List.mem_map.1 hname
    exact hnames entry hentry
  cases hc : contract.requiredArgs with
  | none => simp [SameRequired, hc]
  | some names =>
    cases hi : inverse.requiredArgs with
    | none => simp [SameRequired, hc, hi]
    | some names' =>
      simp only [SameRequired, hc, hi, reduceCtorEq, false_implies, iff_true]
      rw [hc, hi, Option.getD_some, Option.getD_some] at hset
      refine equalStringSet_iff (fun name hname => ?_) (fun name hname => ?_) hset
      · obtain ⟨hne, hdeclared⟩ := required_declared hn ((required_eq hc).symm ▸ hname)
        exact ⟨hne, hclean name hdeclared⟩
      · obtain ⟨hne, hdeclared⟩ := required_declared hn' ((required_eq hi).symm ▸ hname)
        exact ⟨hne, hclean name (hkeys name hdeclared)⟩

/-- The arguments that are required are enough. -/
theorem Takes.required (h : normalizeEnvironment environment = .ok env)
    (hverb : environment.verbs.get? verb = some contract) (htakes : Takes environment verb arguments) :
    Takes environment verb (arguments.filter fun x => x.1 ∈ Compiler.required contract) := by
  obtain ⟨hvalues, hrequired⟩ := (takes_iff h hverb).1 htakes
  refine (takes_iff h hverb).2 ⟨fun x hx => hvalues x (List.mem_filter.1 hx).1, fun name hname => ?_⟩
  obtain ⟨x, hx, rfl⟩ := List.mem_map.1 (hrequired name hname)
  exact List.mem_map.2 ⟨x, List.mem_filter.2 ⟨hx, by simpa using hname⟩, rfl⟩

/-- An inverse that takes what the verb takes requires the same. -/
theorem sameRequired_of_takes (henv : normalizeEnvironment environment = .ok env)
    (hverb : environment.verbs.get? verb = some contract)
    (hinverse : environment.verbs.get? contract.inverseVerb = some inverse)
    (hkeys : contract.arguments.entries.length = inverse.arguments.entries.length)
    (hset : equalStringSet (contract.requiredArgs.getD []) (inverse.requiredArgs.getD []) = true)
    (htaken : Takes environment verb arguments)
    (hall : ∀ arguments, Takes environment verb arguments → Takes environment contract.inverseVerb arguments) :
    SameRequired contract inverse := by
  obtain ⟨-, hn⟩ := normalizeEnvironment_get? henv hverb
  obtain ⟨-, hn'⟩ := normalizeEnvironment_get? henv hinverse
  -- Sent what the verb requires and no more, the inverse finds all that it requires itself.
  have hsub : ∀ name ∈ required inverse, name ∈ required contract := by
    intro name hname
    obtain ⟨x, hx, rfl⟩ := List.mem_map.1
      (((takes_iff henv hinverse).1 (hall _ (htaken.required henv hverb))).2 name hname)
    simpa using (List.mem_filter.1 hx).2
  cases hc : contract.requiredArgs with
  | none => simp [SameRequired, hc]
  | some names =>
    have hne : ∀ name ∈ sortedStrings names, name ≠ [] := fun name hname =>
      (required_declared hn ((required_eq hc).symm ▸ mem_sortedStrings.1 hname)).1
    have hjoin := of_decide_eq_true hset
    rw [hc, Option.getD_some] at hjoin
    rw [required_eq hc] at hsub
    cases hi : inverse.requiredArgs with
    | none =>
      simp only [SameRequired, hc, hi]
      -- The verb's list looks like none, so it is empty, and the inverse requires all it declares.
      rw [hi] at hjoin
      have hnil : sortedStrings names = [] := eq_nil_of_intercalate hne hjoin
      have hempty : inverse.arguments.entries.map Prod.fst = [] := by
        refine List.eq_nil_iff_forall_not_mem.2 fun name hname => ?_
        have hm := mem_sortedStrings.2 (hsub name (by rwa [required, hi, Option.getD_none]))
        simp [hnil] at hm
      rw [List.map_eq_nil_iff] at hempty
      exact List.eq_nil_of_length_eq_zero (by rw [hkeys, hempty, List.length_nil])
    | some names' =>
      simp only [SameRequired, hc, hi]
      rw [required_eq hi] at hsub
      rw [hi, Option.getD_some] at hjoin
      have hnodup : (sortedStrings names').Nodup := by
        have hdistinct := nodup_of_duplicate? hn'.distinct
        rwa [requiredArguments, hi] at hdistinct
      have hback := subset_of_intercalate hne hnodup
        (fun name hname => mem_sortedStrings.2 (hsub name (mem_sortedStrings.1 hname))) hjoin
      exact fun name => ⟨fun hname => mem_sortedStrings.1 (hback (mem_sortedStrings.2 hname)), hsub name⟩

variable [Platform]

/-- The inverse of a verb the compiler lets be compensated takes every argument map the verb takes exactly if the two
contracts require the same, provided the verb takes any. If no name holds the byte the names are joined with, they do
unless the inverse alone leaves its list out and there are arguments. -/
theorem inverse_takes_arguments {digest : Text} (haccepted : environmentDigest environment = .ok digest)
    (hverb : environment.verbs.get? verb = some contract)
    (hvalid : validateCompensationContract verb contract environment = .ok ()) :
    ∃ inverse, environment.verbs.get? contract.inverseVerb = some inverse ∧
      ((∃ arguments, Takes environment verb arguments) →
        ((∀ arguments, Takes environment verb arguments → Takes environment contract.inverseVerb arguments) ↔
          SameRequired contract inverse)) ∧
      ((∀ entry ∈ contract.arguments.entries, 0 ∉ entry.1) → (SameRequired contract inverse ↔
        (inverse.requiredArgs = none → contract.requiredArgs = none ∨ contract.arguments.entries = []))) := by
  obtain ⟨env, henv, -⟩ := map_ok.1 haccepted
  obtain ⟨inverse, hinverse, hmap, hset⟩ := validateCompensationContract_ok hvalid
  obtain ⟨-, hn⟩ := normalizeEnvironment_get? henv hverb
  obtain ⟨-, hn'⟩ := normalizeEnvironment_get? henv hinverse
  have htypes := type_ne_nil henv hverb
  have hkeys := equalStringMap_keys htypes hmap
  refine ⟨inverse, hinverse, ?_, sameRequired_iff hn hn' hkeys hset⟩
  rintro ⟨arguments, htaken⟩
  refine ⟨fun hall => ?_, fun hsame arguments htakes => ?_⟩
  · have hlength := of_decide_eq_true (Bool.and_eq_true_iff.1 hmap).1
    exact sameRequired_of_takes henv hverb hinverse hlength hset htaken hall
  · obtain ⟨hvalues, hrequired⟩ := (takes_iff henv hverb).1 htakes
    refine (takes_iff henv hinverse).2 ⟨fun x hx => ?_, fun name hname =>
      hrequired name (hsame.subset hn' hkeys name hname)⟩
    obtain ⟨typeName, v, htype, hv⟩ := hvalues x hx
    exact ⟨typeName, v, equalStringMap_get? htypes hmap htype, hv⟩

end

section

attribute [local instance] reference

def paymentArguments : Dict Text Text := .ofEntries [("amount", "int")]

/-- A contract with these required arguments. -/
def paymentContract (requiredArgs : Option (List Text)) (inverseVerb : Text) : VerbContract where
  arguments := paymentArguments
  requiredArgs := requiredArgs
  resultType := "void"
  inverseVerb := inverseVerb
  retryPolicy := ⟨1, 0, 0⟩
  idempotencyPolicy := []
  fencingRequired := false

/-- A verb whose inverse has these required arguments. -/
def paymentEnvironment (chargeArgs refundArgs : Option (List Text)) : Environment where
  facts := .empty
  verbs := .ofEntries [("charge", paymentContract chargeArgs "refund"), ("refund", paymentContract refundArgs [])]
  functions := .empty
  types := .empty

section

variable (chargeArgs refundArgs : Option (List Text))

theorem charge_declared : (paymentEnvironment chargeArgs refundArgs).verbs.get? "charge" =
    some (paymentContract chargeArgs "refund") := rfl

theorem refund_declared : (paymentEnvironment chargeArgs refundArgs).verbs.get? "refund" =
    some (paymentContract refundArgs []) := rfl

theorem paymentEnvironment_accepted
    (h : (normalizeEnvironment (paymentEnvironment chargeArgs refundArgs)).toOption.isSome = true) :
    (∃ env, normalizeEnvironment (paymentEnvironment chargeArgs refundArgs) = .ok env) ∧
      ∃ digest, environmentDigest (paymentEnvironment chargeArgs refundArgs) = .ok digest := by
  cases henv : normalizeEnvironment (paymentEnvironment chargeArgs refundArgs) with
  | error err => simp [henv, Except.toOption] at h
  | ok env => exact ⟨⟨env, rfl⟩, _, by rw [environmentDigest, henv]; rfl⟩

end

/-- The verb requires nothing and its inverse, which leaves its list out, everything. -/
theorem inverse_takes_fewer : (∃ digest, environmentDigest (paymentEnvironment (some []) none) = .ok digest) ∧
    validateCompensationContract "charge" (paymentContract (some []) "refund") (paymentEnvironment (some []) none) =
      .ok () ∧
    Takes (paymentEnvironment (some []) none) "charge" [] ∧ ¬Takes (paymentEnvironment (some []) none) "refund" [] := by
  obtain ⟨⟨env, henv⟩, hdigest⟩ := paymentEnvironment_accepted (some []) none (by decide)
  refine ⟨hdigest, by decide, ?_, ?_⟩
  · exact (takes_iff henv (charge_declared ..)).2 ⟨by simp, by decide⟩
  · rw [takes_iff henv (refund_declared ..)]
    rintro ⟨-, hrequired⟩
    exact absurd (hrequired "amount" (by decide)) (by simp)

theorem inverse_takes_listed :
    (∃ digest, environmentDigest (paymentEnvironment (some ["amount"]) (some ["amount"])) = .ok digest) ∧
    Takes (paymentEnvironment (some ["amount"]) (some ["amount"])) "charge" [("amount", .ofInt64 5)] ∧
    Takes (paymentEnvironment (some ["amount"]) (some ["amount"])) "refund" [("amount", .ofInt64 5)] := by
  obtain ⟨⟨env, henv⟩, digest, hdigest⟩ := paymentEnvironment_accepted (some ["amount"]) (some ["amount"])
    (by decide)
  have hvalue : normalizeValue (paymentEnvironment (some ["amount"]) (some ["amount"])) "int" (.ofInt64 5) =
      .ok (.ofInt64 5) := by
    rw [normalizeValue, henv]
    rfl
  have htakes : Takes (paymentEnvironment (some ["amount"]) (some ["amount"])) "charge" [("amount", .ofInt64 5)] := by
    refine (takes_iff henv (charge_declared ..)).2 ⟨fun x hx => ?_, by decide⟩
    rw [List.mem_singleton.1 hx]
    exact ⟨"int", _, rfl, hvalue⟩
  obtain ⟨inverse, hinverse, hiff, hsame⟩ := inverse_takes_arguments hdigest (charge_declared ..) (by decide)
  cases hinverse
  exact ⟨⟨digest, hdigest⟩, htakes, (hiff ⟨_, htakes⟩).2 ((hsame (by decide)).2 (by simp [paymentContract])) _ htakes⟩

end

end Compiler

end Effectus

import Effectus.Lib.Frame
import Effectus.Theorems.IR.Checked

/-!
What the checker remembers across the plans of an artifact: their ids and their places. In an accepted artifact both
are distinct, and the plans are in strict order.
-/

namespace Effectus

open Fallible

namespace Checker

/-- What is remembered of the plans seen so far. -/
def seenPlans (s : CheckState) : List Text × List (SourceDialect × UInt32) := (s.planIDs, s.sourceOrders)

variable {c : Checker}

/-! ### Checks within a plan -/

theorem within_keeps (name : Text) (actual limit : Int) : Fallible.Keeps seenPlans (within name actual limit) :=
  .ite (keeps_throw _) (keeps_pure _)

theorem text_keeps (location value : Text) (required : Bool) : Fallible.Keeps seenPlans (c.text location value required) := by
  refine .guard (.guard (.guard ?_))
  refine (within_keeps ..).bind fun _ => Fallible.Keeps.bind (keeps_modify fun _ => rfl) fun _ => keeps_get.bind fun _ => ?_
  exact within_keeps ..

theorem enterLiteral_keeps (depth : Nat) : Fallible.Keeps seenPlans (c.enterLiteral depth) :=
  (within_keeps ..).bind fun _ => Fallible.Keeps.bind (keeps_modify fun _ => rfl) fun _ => keeps_get.bind fun _ => within_keeps ..

mutual

theorem checkLiteralStructure_keeps (depth : Nat) (value : Literal) :
    Fallible.Keeps seenPlans (c.checkLiteralStructure depth value) := by
  cases value with
  | absent => exact keeps_throw _
  | unset => exact (enterLiteral_keeps _).bind fun _ => keeps_throw _
  | null value => exact (enterLiteral_keeps _).bind fun _ => .ite (keeps_throw _) (keeps_pure _)
  | bool _ => exact enterLiteral_keeps _
  | int _ => exact enterLiteral_keeps _
  | double f => exact (enterLiteral_keeps _).bind fun _ => .ite (keeps_throw _) (keeps_pure _)
  | string s => exact (enterLiteral_keeps _).bind fun _ => text_keeps ..
  | bytes b => exact (enterLiteral_keeps _).bind fun _ => within_keeps ..
  | list values =>
    exact (enterLiteral_keeps _).bind fun _ => (within_keeps ..).bind fun _ => checkLiteralItems_keeps _ values
  | object fields =>
    exact (enterLiteral_keeps _).bind fun _ => (within_keeps ..).bind fun _ => checkLiteralFields_keeps _ _ fields

theorem checkLiteralItems_keeps (depth : Nat) (values : List Literal) :
    Fallible.Keeps seenPlans (c.checkLiteralItems depth values) := by
  cases values with
  | nil => exact keeps_pure _
  | cons value rest =>
    exact (checkLiteralStructure_keeps depth value).bind fun _ => checkLiteralItems_keeps depth rest

theorem checkLiteralFields_keeps (depth : Nat) (previous : Option Text) (fields : List (Text × Literal)) :
    Fallible.Keeps seenPlans (c.checkLiteralFields depth previous fields) := by
  cases fields with
  | nil => exact keeps_pure _
  | cons field rest =>
    obtain ⟨name, value⟩ := field
    exact (text_keeps ..).bind fun _ => .guard ((checkLiteralStructure_keeps depth value).bind fun _ =>
      checkLiteralFields_keeps depth (some name) rest)

end

theorem enterExpression_keeps (depth : Nat) : Fallible.Keeps seenPlans (c.enterExpression depth) :=
  (within_keeps ..).bind fun _ => Fallible.Keeps.bind (keeps_modify fun _ => rfl) fun _ => keeps_get.bind fun _ => within_keeps ..

theorem calledFunction_keeps (function : Text) (arguments : Nat) : Fallible.Keeps seenPlans (c.calledFunction function arguments) := by
  refine (text_keeps ..).bind fun _ => ?_
  split
  · exact keeps_throw _
  · exact .guard (.guard (keeps_pure _))

mutual

theorem checkExpression_keeps (depth : Nat) (expression : Expression) :
    Fallible.Keeps seenPlans (c.checkExpression depth expression) := by
  cases expression with
  | absent => exact keeps_throw _
  | unset => exact (enterExpression_keeps _).bind fun _ => keeps_throw _
  | literal value =>
    exact (enterExpression_keeps _).bind fun _ => (checkLiteralStructure_keeps _ _).bind fun _ => keeps_lift _
  | factPath path =>
    refine (enterExpression_keeps _).bind fun _ => (text_keeps ..).bind fun _ => ?_
    split
    · exact keeps_throw _
    · exact keeps_lift _
  | unary operator operand =>
    exact (enterExpression_keeps _).bind fun _ => (checkExpression_keeps _ operand).bind fun _ => keeps_lift _
  | binary operator left right =>
    exact (enterExpression_keeps _).bind fun _ => (checkExpression_keeps _ left).bind fun _ =>
      (checkExpression_keeps _ right).bind fun _ => keeps_lift _
  | call function arguments =>
    exact (enterExpression_keeps _).bind fun _ => (calledFunction_keeps ..).bind fun _ =>
      (checkArguments_keeps _ _ _ _ arguments).bind fun _ => keeps_lift _

theorem checkArguments_keeps (depth : Nat) (function : Text) (types : List Text) (index : Nat)
    (arguments : List Expression) : Fallible.Keeps seenPlans (c.checkArguments depth function types index arguments) := by
  cases arguments with
  | nil => exact keeps_pure _
  | cons argument rest =>
    exact (checkExpression_keeps depth argument).bind fun _ => .guard (checkArguments_keeps depth function types _ rest)

end

theorem checkValue_keeps (value : ArgumentValue) (expected : TypeRef) (slots : List TypeRef) (location : Text) :
    Fallible.Keeps seenPlans (c.checkValue value expected slots location) := by
  cases value with
  | absent => exact keeps_throw _
  | unset => exact keeps_throw _
  | literal literal =>
    refine (checkLiteralStructure_keeps ..).rethrow.bind fun _ => ?_
    split
    · exact keeps_throw _
    · exact keeps_pure _
  | factPath path =>
    refine (text_keeps ..).bind fun _ => ?_
    split
    · exact keeps_throw _
    · exact .ite (keeps_throw _) (keeps_pure _)
  | resultSlot slot =>
    rw [checkValue]
    split
    · exact keeps_throw _
    · exact .ite (keeps_throw _) (keeps_pure _)

theorem checkStepArguments_keeps (location verb : Text) (contract : VerbContract) (slots : List TypeRef) :
    ∀ (arguments : List Argument) (previous : Option Text) (index : Nat),
    Fallible.Keeps seenPlans (c.checkStepArguments location verb contract slots previous index arguments)
  | [], _, _ => keeps_pure _
  | argument :: rest, previous, index => by
    have hrest := checkStepArguments_keeps location verb contract slots rest (some argument.name) (index + 1)
    refine (text_keeps ..).bind fun _ => .guard ?_
    split
    · exact (keeps_throw _).bind fun _ => hrest
    · split
      · exact (keeps_throw _).bind fun _ => hrest
      · exact (checkValue_keeps ..).bind fun _ => hrest

theorem checkPlanIdentity_seen {location : Text} {plan : Plan} {s s' : CheckState}
    (h : c.checkPlanIdentity location plan s = .ok ((), s')) :
    plan.id ∉ s.planIDs ∧ (plan.sourceDialect, plan.sourceOrder) ∉ s.sourceOrders ∧
      seenPlans s' = (plan.id :: s.planIDs, (plan.sourceDialect, plan.sourceOrder) :: s.sourceOrders) := by
  unfold checkPlanIdentity at h
  obtain ⟨_, s₁, hid, h⟩ := run_bind_ok.1 h
  obtain ⟨hplanIDs, horders⟩ := Prod.mk.inj (text_keeps _ _ _ hid)
  obtain ⟨seen, s₂, hget, h⟩ := run_bind_ok.1 h
  obtain ⟨rfl, rfl⟩ := Prod.mk.inj (run_get_ok.1 hget)
  obtain ⟨hfresh, h⟩ := run_guard_ok.1 h
  obtain ⟨_, s₃, hmodify, h⟩ := run_bind_ok.1 h
  obtain ⟨-, rfl⟩ := Prod.mk.inj (run_modify_ok.1 hmodify)
  obtain ⟨-, h⟩ := run_guard_ok.1 h
  obtain ⟨seen, s₄, hget, h⟩ := run_bind_ok.1 h
  obtain ⟨rfl, rfl⟩ := Prod.mk.inj (run_get_ok.1 hget)
  obtain ⟨hfresh', h⟩ := run_guard_ok.1 h
  obtain ⟨_, s₅, hmodify, h⟩ := run_bind_ok.1 h
  obtain ⟨-, rfl⟩ := Prod.mk.inj (run_modify_ok.1 hmodify)
  rw [← hplanIDs, ← horders]
  refine ⟨by simpa using hfresh, by simpa using hfresh', ?_⟩
  exact (Fallible.Keeps.ite (keeps_throw _) (keeps_pure _) : Fallible.Keeps seenPlans _) h

theorem checkPredicate_keeps (location : Text) (predicate : Expression) :
    Fallible.Keeps seenPlans (c.checkPredicate location predicate) := by
  unfold checkPredicate
  split
  · exact keeps_throw _
  · refine Fallible.Keeps.bind (keeps_modify fun _ => rfl) fun _ => (checkExpression_keeps ..).rethrow.bind fun _ => ?_
    exact .ite (keeps_throw _) (keeps_pure _)

section

variable [Platform]

theorem checkStep_keeps (planLocation : Text) (index : Nat) (step : Step) (slots : List TypeRef) (policy : ExecutionPolicy) :
    Fallible.Keeps seenPlans (c.checkStep planLocation index step slots policy) := by
  refine .guard ((text_keeps ..).bind fun _ => keeps_get.bind fun _ => .guard ?_)
  refine Fallible.Keeps.bind (keeps_modify fun _ => rfl) fun _ => (text_keeps ..).bind fun _ => ?_
  split
  · exact keeps_throw _
  rename_i contract _
  cases contractHash contract
  case' error err => refine (keeps_throw _).bind fun _ => ?_
  case' ok hash => refine .guard ?_
  -- What is left when the hash of the contract is the step's.
  all_goals
    refine (text_keeps ..).bind fun _ => (keeps_lift _).bind fun _ => (within_keeps ..).bind fun _ => ?_
    refine (checkStepArguments_keeps ..).bind fun _ => ?_
    split
    · exact keeps_throw _
    split
    · exact keeps_throw _
    · exact (keeps_lift _).bind fun _ => keeps_pure _

theorem checkSteps_keeps (location : Text) (policy : ExecutionPolicy) : ∀ (steps : List Step) (index : Nat)
    (slots : List TypeRef), Fallible.Keeps seenPlans (c.checkSteps location policy index steps slots)
  | [], _, _ => keeps_pure _
  | _ :: rest, _, _ =>
    (checkStep_keeps ..).bind fun _ => (checkSteps_keeps location policy rest _ _).bind fun _ => keeps_pure _

/-! ### Plans -/

/-- A plan that passes is new, and is remembered. -/
theorem checkPlan_seen {index : Nat} {plan checked : Plan} {s s' : CheckState}
    (h : c.checkPlan index plan s = .ok (checked, s')) :
    plan.id ∉ s.planIDs ∧ (plan.sourceDialect, plan.sourceOrder) ∉ s.sourceOrders ∧
      seenPlans s' = (plan.id :: s.planIDs, (plan.sourceDialect, plan.sourceOrder) :: s.sourceOrders) := by
  unfold checkPlan at h
  obtain ⟨_, s₁, hidentity, h⟩ := run_bind_ok.1 h
  obtain ⟨hid, horder, hseen⟩ := checkPlanIdentity_seen hidentity
  refine ⟨hid, horder, .trans ?_ hseen⟩
  refine Fallible.Keeps.bind (checkPredicate_keeps ..) (fun _ => (within_keeps ..).bind fun _ => ?_) h
  refine Fallible.Keeps.bind (keeps_modify fun _ => rfl) fun _ => keeps_get.bind fun _ => (within_keeps ..).bind fun _ => ?_
  exact (checkSteps_keeps ..).bind fun _ => keeps_pure _

/-- Neither an id nor a place in its dialect is taken twice. -/
theorem checkPlans_distinct : ∀ {plans checked : List Plan} {previous : Option Plan} {index : Nat} {s s' : CheckState},
    c.checkPlans previous index plans s = .ok (checked, s') →
    (plans.map (·.id)).Nodup ∧ (plans.map fun plan => (plan.sourceDialect, plan.sourceOrder)).Nodup ∧
      ∀ plan ∈ plans, plan.id ∉ s.planIDs ∧ (plan.sourceDialect, plan.sourceOrder) ∉ s.sourceOrders
  | [], _, _, _, _, _, _ => ⟨List.nodup_nil, List.nodup_nil, nofun⟩
  | plan :: rest, checked, previous, index, s, s', h => by
    unfold checkPlans at h
    obtain ⟨-, h⟩ := run_guard_ok.1 h
    obtain ⟨head, s₁, hplan, h⟩ := run_bind_ok.1 h
    obtain ⟨tail, s₂, hrest, h⟩ := run_bind_ok.1 h
    obtain ⟨hid, horder, hseen⟩ := checkPlan_seen hplan
    obtain ⟨hids, horders⟩ := Prod.mk.inj hseen
    obtain ⟨hnodup, hnodup', hfresh⟩ := checkPlans_distinct hrest
    rw [hids, horders] at hfresh
    refine ⟨?_, ?_, ?_⟩
    · refine List.nodup_cons.2 ⟨fun hm => ?_, hnodup⟩
      obtain ⟨other, hother, heq⟩ := List.mem_map.1 hm
      exact (hfresh other hother).1 (heq ▸ List.mem_cons_self ..)
    · refine List.nodup_cons.2 ⟨fun hm => ?_, hnodup'⟩
      obtain ⟨other, hother, heq⟩ := List.mem_map.1 hm
      exact (hfresh other hother).2 (heq ▸ List.mem_cons_self ..)
    · refine List.forall_mem_cons.2 ⟨⟨hid, horder⟩, fun other hother => ?_⟩
      obtain ⟨hother, hother'⟩ := hfresh other hother
      exact ⟨fun hm => hother (List.mem_cons_of_mem _ hm), fun hm => hother' (List.mem_cons_of_mem _ hm)⟩

/-- Each plan comes strictly before the next one. -/
theorem checkPlans_chain : ∀ {plans checked : List Plan} {previous : Option Plan} {index : Nat} {s s' : CheckState},
    c.checkPlans previous index plans s = .ok (checked, s') →
    (previous.toList ++ plans).IsChain fun a b => comparePlans a b < 0
  | [], _, none, _, _, _, _ => .nil
  | [], _, some previous, _, _, _, _ => .singleton previous
  | plan :: rest, checked, previous, index, s, s', h => by
    unfold checkPlans at h
    obtain ⟨horder, h⟩ := run_guard_ok.1 h
    obtain ⟨head, s₁, -, h⟩ := run_bind_ok.1 h
    obtain ⟨tail, s₂, hrest, h⟩ := run_bind_ok.1 h
    have hchain := checkPlans_chain hrest
    cases previous with
    | none => exact hchain
    | some previous => exact .cons_cons (by simpa using horder) hchain

end

end Checker

/-- The plans of an accepted artifact. -/
theorem checkArtifact_distinct [Platform] [Protobuf] {artifact : RuleArtifact} {environment : Environment} {limits : Limits}
    {checked : Checked} (h : checkArtifact artifact environment limits = .ok checked) :
    (artifact.plans.map (·.id)).Nodup ∧
      (artifact.plans.map fun plan => (plan.sourceDialect, plan.sourceOrder)).Nodup ∧
      artifact.plans.IsChain fun a b => Checker.comparePlans a b < 0 := by
  obtain ⟨full, env, s, -, -, -, -, hcheck, -⟩ := checkArtifact_ok.1 h
  obtain ⟨-, ⟨_, _, hplans⟩, -⟩ := Checker.check_plans hcheck
  obtain ⟨hids, horders, -⟩ := Checker.checkPlans_distinct hplans
  exact ⟨hids, horders, Checker.checkPlans_chain hplans⟩

end Effectus

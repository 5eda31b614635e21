import Effectus.IR.Environment
import Effectus.Lib.Fallible
import Effectus.Lib.RunningBound

/-!
Assignability of closed types. One level of the comparison is a relation between resolved types over the relation one level
down, so that reflexivity and transitivity climb from one level to the next; the room left at a level never has to be more
than that of either comparison composed.
-/

namespace Effectus

/-- Kinds that are compared by themselves. -/
def TypeKind.isPlain : TypeKind → Bool
  | .void | .list | .map | .object => false
  | _ => true

namespace Environment

variable {env : Environment}

/-- One level of `assignableDepth`, between resolved types. -/
inductive Assigns (env : Environment) (deeper : TypeRef → TypeRef → Prop) : TypeRef → TypeRef → Prop
  | widen : Assigns env deeper .int .float
  | plain {a e : TypeRef} (hk : a.kind = e.kind) (hp : a.kind.isPlain = true) :
    Assigns env deeper a e
  | list {n n' : Text} {a e : TypeRef} (h : deeper a e) : Assigns env deeper (.list n a) (.list n' e)
  | map {n n' : Text} {a e : TypeRef} (h : deeper a e) : Assigns env deeper (.map n a) (.map n' e)
  | object {n n' : Text} {fields expected : List (Text × TypeRef)}
    (hf : ∀ f ∈ fields, ∃ e, Assoc.get? expected f.1 = some e ∧ deeper f.2 e)
    (hr : ∀ r ∈ env.requiredObjectFields n' expected, r ∈ env.requiredObjectFields n fields) :
    Assigns env deeper (.object n fields) (.object n' expected)

theorem assignableResolved_iff {deeper : TypeRef → TypeRef → Bool} {a e : TypeRef} :
    env.assignableResolved deeper a e = true ↔ Assigns env (fun a e => deeper a e = true) a e := by
  constructor
  · intro h
    unfold assignableResolved at h
    split at h
    · rename_i hwiden
      cases a <;> cases hwiden.1
      cases e <;> cases hwiden.2
      exact .widen
    split at h
    · cases h
    rename_i hk
    have hk : a.kind = e.kind := not_not.1 hk
    split at h
    · exact .list h
    · exact .map h
    · rw [Bool.and_eq_true, List.all_eq_true, List.all_eq_true] at h
      refine .object (fun f hf => ?_) fun r hr => List.contains_iff_mem.1 (h.2 r hr)
      have hfield := h.1 f hf
      split at hfield
      · exact ⟨_, ‹_›, hfield⟩
      · cases hfield
    · rename_i hlist hmap hobject
      refine .plain hk ?_
      cases a with
      | void => cases h
      | list n x => cases e <;> first | exact (hlist _ _ _ _ rfl rfl).elim | cases hk
      | map n x => cases e <;> first | exact (hmap _ _ _ _ rfl rfl).elim | cases hk
      | object n fields => cases e <;> first | exact (hobject _ _ _ _ rfl rfl).elim | cases hk
      | _ => rfl
  · intro h
    cases h with
    | widen => rfl
    | plain hk hp =>
      unfold assignableResolved
      split
      · rfl
      rw [if_neg (not_not.2 hk)]
      cases a <;> cases hp <;> cases e <;> cases hk <;> rfl
    | list h => exact h
    | map h => exact h
    | @object n n' fields expected hf hr =>
      show (_ && _) = true
      rw [Bool.and_eq_true, List.all_eq_true, List.all_eq_true]
      refine ⟨fun f hm => ?_, fun r hm => List.contains_iff_mem.2 (hr r hm)⟩
      obtain ⟨x, hx, hfx⟩ := hf f hm
      rw [hx]
      exact hfx

theorem Assigns.mono {R S : TypeRef → TypeRef → Prop} (hRS : ∀ a e, R a e → S a e) {a e : TypeRef}
    (h : Assigns env R a e) : Assigns env S a e := by
  cases h with
  | widen => exact .widen
  | plain hk hp => exact .plain hk hp
  | list h => exact .list (hRS _ _ h)
  | map h => exact .map (hRS _ _ h)
  | object hf hr => exact .object (fun f hm => (hf f hm).imp fun e he => ⟨he.1, hRS _ _ he.2⟩) hr

theorem Assigns.trans {R : TypeRef → TypeRef → Prop} (hR : ∀ a b c, R a b → R b c → R a c) {a b c : TypeRef}
    (hab : Assigns env R a b) (hbc : Assigns env R b c) : Assigns env R a c := by
  cases hab with
  | widen =>
    cases hbc with
    | plain hk hp =>
      cases c <;> cases hk
      exact .widen
  | plain hk hp =>
    cases hbc with
    | widen =>
      cases a <;> cases hk
      exact .widen
    | plain hk' hp' => exact .plain (hk.trans hk') hp
    | list h => cases hk ▸ hp
    | map h => cases hk ▸ hp
    | object hf hr => cases hk ▸ hp
  | list h =>
    cases hbc with
    | plain hk hp => cases hp
    | list h' => exact .list (hR _ _ _ h h')
  | map h =>
    cases hbc with
    | plain hk hp => cases hp
    | map h' => exact .map (hR _ _ _ h h')
  | object hf hr =>
    cases hbc with
    | plain hk hp => cases hp
    | object hf' hr' =>
      refine .object (fun f hm => ?_) fun r hm => hr r (hr' r hm)
      obtain ⟨b, hb, hfb⟩ := hf f hm
      obtain ⟨c, hc, hbc⟩ := hf' _ (Assoc.mem_of_get? hb)
      exact ⟨c, hc, hR _ _ _ hfb hbc⟩

/-! ### Levels -/

/-- One level of `assignableDepth`: a shared name, or types that resolve and compare. -/
theorem assignableDepth_succ {room : Nat} {a e : TypeRef} : env.assignableDepth (room + 1) a e = true ↔
    a.isSameNamed e = true ∨ ∃ a' e', env.resolve a = .ok a' ∧ env.resolve e = .ok e' ∧
      Assigns env (fun a e => env.assignableDepth room a e = true) a' e' := by
  rw [assignableDepth]
  by_cases hname : a.isSameNamed e = true
  · simp [hname]
  rw [if_neg hname]
  cases env.resolve a <;> cases env.resolve e <;> simp [hname, assignableResolved_iff]

theorem assignableDepth_mono : ∀ {m n : Nat} {a e : TypeRef}, m ≤ n → env.assignableDepth m a e = true →
    env.assignableDepth n a e = true
  | 0, _, _, _, _, h => by cases h
  | m + 1, 0, _, _, hmn, _ => absurd hmn (Nat.not_succ_le_zero m)
  | m + 1, n + 1, a, e, hmn, h => by
    rcases assignableDepth_succ.1 h with hname | ⟨a', e', ha, he, h⟩
    · exact assignableDepth_succ.2 (.inl hname)
    · exact assignableDepth_succ.2
        (.inr ⟨a', e', ha, he, h.mono fun _ _ h => assignableDepth_mono (Nat.le_of_succ_le_succ hmn) h⟩)

theorem isSameNamed_iff {a e : TypeRef} : a.isSameNamed e = true ↔ ∃ n, a = .named n ∧ e = .named n := by
  cases a <;> cases e <;> simp [TypeRef.isSameNamed, eq_comm]

/-- Composing two comparisons takes no more room than they had. -/
theorem assignableDepth_trans : ∀ {room : Nat} {a b c : TypeRef}, env.assignableDepth room a b = true →
    env.assignableDepth room b c = true → env.assignableDepth room a c = true
  | 0, _, _, _, h, _ => by cases h
  | room + 1, a, b, c, hab, hbc => by
    rcases assignableDepth_succ.1 hab with hname | ⟨a', b', ha, hb, hab'⟩
    · obtain ⟨n, rfl, rfl⟩ := isSameNamed_iff.1 hname
      exact hbc
    rcases assignableDepth_succ.1 hbc with hname | ⟨b'', c', hb', hc, hbc'⟩
    · obtain ⟨n, rfl, rfl⟩ := isSameNamed_iff.1 hname
      exact hab
    cases hb.symm.trans hb'
    have hdeeper : ∀ a b c, env.assignableDepth room a b = true → env.assignableDepth room b c = true →
        env.assignableDepth room a c = true := fun _ _ _ => assignableDepth_trans
    exact assignableDepth_succ.2 (.inr ⟨a', c', ha, hc, hab'.trans hdeeper hbc'⟩)

theorem assignable_trans (a b c : TypeRef) (hab : env.assignable a b = true) (hbc : env.assignable b c = true) :
    env.assignable a c = true := assignableDepth_trans hab hbc

/-! ### Types within the room -/

/-- A written type that a comparison with so many levels goes through: names are not followed, and `void` is only a
result. -/
inductive Within : Nat → TypeRef → Prop
  | plain {room : Nat} {ref : TypeRef} (h : ref.kind.isPlain = true) : Within (room + 1) ref
  | list {room : Nat} {element : TypeRef} (h : Within room element) : Within (room + 1) (.list [] element)
  | map {room : Nat} {element : TypeRef} (h : Within room element) : Within (room + 1) (.map [] element)
  | object {room : Nat} {fields : List (Text × TypeRef)} (ho : Assoc.Ordered fields)
    (hf : ∀ f ∈ fields, Within room f.2) : Within (room + 1) (.object [] fields)

theorem Within.refl {room : Nat} {ref : TypeRef} (h : Within room ref) : env.assignableDepth room ref ref = true := by
  induction h with
  | @plain room ref h =>
    by_cases hn : ∃ n, ref = .named n
    · exact assignableDepth_succ.2 (.inl (isSameNamed_iff.2 (by obtain ⟨n, rfl⟩ := hn; exact ⟨n, rfl, rfl⟩)))
    · have hr : env.resolve ref = .ok ref := by
        cases ref with
        | named n => exact absurd ⟨n, rfl⟩ hn
        | _ => rfl
      exact assignableDepth_succ.2 (.inr ⟨ref, ref, hr, hr, .plain rfl h⟩)
  | list h ih => exact assignableDepth_succ.2 (.inr ⟨_, _, rfl, rfl, .list ih⟩)
  | map h ih => exact assignableDepth_succ.2 (.inr ⟨_, _, rfl, rfl, .map ih⟩)
  | object ho hf ih =>
    exact assignableDepth_succ.2 (.inr ⟨_, _, rfl, rfl,
      .object (fun f hm => ⟨f.2, ho.get?_of_mem hm, ih f hm⟩) fun r hr => hr⟩)

theorem builtinType_plain {allowVoid : Bool} {name lower : Text} {ref : TypeRef}
    (h : builtinType allowVoid name lower = some (.ok ref)) :
    ref.kind.isPlain = true ∨ (allowVoid = true ∧ ref = .void) := by
  unfold builtinType at h
  iterate 6
    split at h
    · cases h
      exact .inl rfl
  split at h
  · split at h <;> cases h
    exact .inr ⟨‹_›, rfl⟩
  split at h <;> cases h

/-- An element of a structure is never `void`. -/
theorem parseDepth_within : ∀ {room : Nat} {allowVoid : Bool} {name : Text} {ref : TypeRef},
    env.parseDepth room allowVoid name = .ok ref → Within room ref ∨ (allowVoid = true ∧ ref = .void)
  | 0, _, _, _, h => by cases h
  | room + 1, allowVoid, name, ref, h => by
    have element : ∀ {inner : Text} {element : TypeRef}, env.parseDepth room false inner = .ok element →
        Within room element := fun h => (parseDepth_within h).resolve_right nofun
    rw [parseDepth] at h
    split at h
    · cases h
    split at h
    · rename_i result hbuiltin
      subst h
      exact (builtinType_plain hbuiltin).imp_left .plain
    split at h
    · split at h <;> cases h
      exact .inl (.list (element ‹_›))
    split at h
    · split at h <;> cases h
      exact .inl (.list (element ‹_›))
    split at h
    · split at h <;> cases h
      exact .inl (.map (element ‹_›))
    split at h <;> cases h
    exact .inl (.plain rfl)

mutual

theorem literalType_within : ∀ {literal : Literal} {room : Nat} {ref : TypeRef},
    env.literalType room literal = .ok ref → Within room ref
  | literal, 0, _, h => by
    unfold literalType at h
    cases h
  | .absent, _ + 1, _, h | .unset, _ + 1, _, h | .list [], _ + 1, _, h => by
    rw [literalType, if_neg (Nat.succ_ne_zero _)] at h
    cases h
  | .null value, _ + 1, _, h => by
    rw [literalType, if_neg (Nat.succ_ne_zero _)] at h
    split at h <;> cases h
    exact .plain rfl
  | .bool _, _ + 1, _, h | .int _, _ + 1, _, h | .double _, _ + 1, _, h | .string _, _ + 1, _, h
  | .bytes _, _ + 1, _, h => by
    rw [literalType, if_neg (Nat.succ_ne_zero _)] at h
    cases h
    exact .plain rfl
  | .list (first :: rest), room + 1, ref, h => by
    rw [literalType, if_neg (Nat.succ_ne_zero _)] at h
    split at h
    · cases h
    rename_i bound hfirst
    obtain ⟨element, helement, rfl⟩ := Fallible.map_ok.1 h
    exact .list (literalUpperBound_within (literalType_within hfirst) helement)
  | .object fields, room + 1, ref, h => by
    rw [literalType, if_neg (Nat.succ_ne_zero _)] at h
    obtain ⟨types, htypes, rfl⟩ := Fallible.map_ok.1 h
    obtain ⟨hordered, hwithin⟩ := literalFields_within htypes
    exact .object hordered hwithin

theorem literalUpperBound_within : ∀ {rest : List Literal} {room : Nat} {first ref : TypeRef},
    Within room first → env.literalUpperBound room first rest = .ok ref → Within room ref
  | [], _, _, _, hfirst, h => by
    cases h
    exact hfirst
  | value :: rest, room, first, ref, hfirst, h => by
    rw [literalUpperBound] at h
    split at h
    · cases h
    split at h
    · exact literalUpperBound_within hfirst h
    split at h
    · exact literalUpperBound_within (literalType_within ‹_›) h
    · cases h

theorem literalFields_within : ∀ {fields : List (Text × Literal)} {room : Nat} {types : List (Text × TypeRef)},
    env.literalFields room fields = .ok types → Assoc.Ordered types ∧ ∀ f ∈ types, Within room f.2
  | [], _, _, h => by
    cases h
    exact ⟨.nil, List.forall_mem_nil _⟩
  | (name, value) :: rest, room, types, h => by
    rw [literalFields] at h
    split at h
    · cases h
    rename_i fieldType hvalue
    split at h
    · cases h
    rename_i others hothers
    cases h
    obtain ⟨hordered, hwithin⟩ := literalFields_within hothers
    split
    · exact ⟨hordered, hwithin⟩
    · refine ⟨hordered.set, fun f hf => ?_⟩
      rcases Assoc.mem_set hf with rfl | hf
      · exact literalType_within hvalue
      · exact hwithin f hf

end

/-! ### Room for literals -/

mutual

/-- More room changes nothing for a literal that has a type. -/
theorem literalType_mono : ∀ {literal : Literal} {room more : Nat} {ref : TypeRef}, room ≤ more →
    env.literalType room literal = .ok ref → env.literalType more literal = .ok ref
  | literal, 0, _, _, _, h => by
    unfold literalType at h
    cases h
  | literal, room + 1, 0, _, hle, _ => absurd hle (Nat.not_succ_le_zero room)
  | .list (first :: rest), room + 1, more + 1, ref, hle, h => by
    rw [literalType, if_neg (Nat.succ_ne_zero _), Nat.add_sub_cancel] at h ⊢
    split at h
    · cases h
    rename_i bound hfirst
    obtain ⟨element, helement, rfl⟩ := Fallible.map_ok.1 h
    rw [literalType_mono (Nat.le_of_succ_le_succ hle) hfirst]
    exact Fallible.map_ok.2 ⟨element, literalUpperBound_mono (Nat.le_of_succ_le_succ hle) helement, rfl⟩
  | .object fields, room + 1, more + 1, ref, hle, h => by
    rw [literalType, if_neg (Nat.succ_ne_zero _)] at h ⊢
    obtain ⟨types, htypes, rfl⟩ := Fallible.map_ok.1 h
    exact Fallible.map_ok.2 ⟨types, literalFields_mono (Nat.le_of_succ_le_succ hle) htypes, rfl⟩
  | .list [], room + 1, more + 1, ref, _, h | .absent, room + 1, more + 1, ref, _, h
  | .unset, room + 1, more + 1, ref, _, h | .null _, room + 1, more + 1, ref, _, h
  | .bool _, room + 1, more + 1, ref, _, h | .int _, room + 1, more + 1, ref, _, h
  | .double _, room + 1, more + 1, ref, _, h | .string _, room + 1, more + 1, ref, _, h
  | .bytes _, room + 1, more + 1, ref, _, h => by
    rw [literalType, if_neg (Nat.succ_ne_zero _)] at h ⊢
    exact h

theorem literalUpperBound_mono : ∀ {rest : List Literal} {room more : Nat} {first ref : TypeRef}, room ≤ more →
    env.literalUpperBound room first rest = .ok ref → env.literalUpperBound more first rest = .ok ref
  | [], _, _, _, _, _, h => h
  | value :: rest, room, more, first, ref, hle, h => by
    rw [literalUpperBound] at h ⊢
    split at h
    · cases h
    rename_i current hcurrent
    rw [literalType_mono hle hcurrent]
    dsimp only
    split at h
    · rw [if_pos ‹_›]
      exact literalUpperBound_mono hle h
    rw [if_neg ‹_›]
    split at h
    · rw [if_pos ‹_›]
      exact literalUpperBound_mono hle h
    · cases h

theorem literalFields_mono : ∀ {fields : List (Text × Literal)} {room more : Nat} {types : List (Text × TypeRef)},
    room ≤ more → env.literalFields room fields = .ok types → env.literalFields more fields = .ok types
  | [], _, _, _, _, h => h
  | (name, value) :: rest, room, more, types, hle, h => by
    rw [literalFields] at h ⊢
    split at h
    · cases h
    rename_i fieldType hvalue
    split at h
    · cases h
    rename_i others hothers
    rw [literalType_mono hle hvalue, literalFields_mono hle hothers]
    exact h

end

/-! ### Lists -/

/-- The types of the elements that have one. -/
def elementTypes (env : Environment) (room : Nat) (values : List Literal) : List TypeRef :=
  values.filterMap fun value => (env.literalType room value).toOption

/-- Every element has a type. -/
def EachTyped (env : Environment) (room : Nat) (values : List Literal) : Prop :=
  ∀ value ∈ values, ∃ ref, env.literalType room value = .ok ref

theorem literalUpperBound_ok {room : Nat} {first u : TypeRef} {rest : List Literal} :
    env.literalUpperBound room first rest = .ok u ↔
      env.EachTyped room rest ∧ RunningBound.from? env.assignable first (env.elementTypes room rest) = some u := by
  induction rest generalizing first with
  | nil => simp [literalUpperBound, EachTyped, elementTypes, RunningBound.from?]
  | cons value rest ih =>
    rw [literalUpperBound, EachTyped, List.forall_mem_cons]
    cases hvalue : env.literalType room value with
    | error err => simp
    | ok current =>
      have hcons : env.elementTypes room (value :: rest) = current :: env.elementTypes room rest := by
        simp [elementTypes, hvalue, Except.toOption]
      rw [hcons, RunningBound.from?]
      dsimp only
      split
      · rw [ih]
        simp [EachTyped]
      split
      · rw [ih]
        simp [EachTyped]
      · simp

theorem literalType_list {room : Nat} {values : List Literal} (hne : values ≠ []) {ref : TypeRef} :
    env.literalType (room + 1) (.list values) = .ok ref ↔
      env.EachTyped room values ∧
        ∃ u, RunningBound.bound? env.assignable (env.elementTypes room values) = some u ∧ ref = .list [] u := by
  cases values with
  | nil => exact absurd rfl hne
  | cons first rest =>
    rw [literalType, if_neg (Nat.succ_ne_zero _), Nat.add_sub_cancel, EachTyped, List.forall_mem_cons]
    cases hfirst : env.literalType room first with
    | error err => simp
    | ok start =>
      have hcons : env.elementTypes room (first :: rest) = start :: env.elementTypes room rest := by
        simp [elementTypes, hfirst, Except.toOption]
      rw [hcons, RunningBound.bound?, Fallible.map_ok]
      simp only [literalUpperBound_ok, EachTyped]
      constructor
      · rintro ⟨u, ⟨htyped, hu⟩, rfl⟩
        exact ⟨⟨⟨start, rfl⟩, htyped⟩, u, hu, rfl⟩
      · rintro ⟨⟨-, htyped⟩, u, hu, rfl⟩
        exact ⟨u, ⟨htyped, hu⟩, rfl⟩

theorem mem_elementTypes {room : Nat} {values : List Literal} {ref : TypeRef} :
    ref ∈ env.elementTypes room values ↔ ∃ value ∈ values, env.literalType room value = .ok ref := by
  rw [elementTypes, List.mem_filterMap]
  refine exists_congr fun value => and_congr_right fun _ => ?_
  cases env.literalType room value <;> simp [Except.toOption]

theorem elementTypes_refl {room : Nat} (hroom : room ≤ 65) {values : List Literal} :
    ∀ ref ∈ env.elementTypes room values, env.assignable ref ref = true := by
  intro ref hm
  obtain ⟨value, -, hvalue⟩ := mem_elementTypes.1 hm
  exact assignableDepth_mono hroom (literalType_within hvalue).refl

/-- A type the checker can parse, other than `void`, or one it infers for a literal. -/
def CheckedType (env : Environment) (ref : TypeRef) : Prop :=
  (∃ name allowVoid, env.parse name allowVoid = .ok ref ∧ ref ≠ .void) ∨ ∃ literal, env.literalType 65 literal = .ok ref

theorem CheckedType.refl {ref : TypeRef} (h : env.CheckedType ref) : env.assignable ref ref = true := by
  rcases h with ⟨name, allowVoid, hparse, hvoid⟩ | ⟨literal, hliteral⟩
  · exact ((parseDepth_within hparse).resolve_right fun h => hvoid h.2).refl
  · exact (literalType_within hliteral).refl

/-- The inferred element type is above the type of every element. -/
theorem literalType_above {room : Nat} (hroom : room ≤ 65) {values : List Literal} {element : TypeRef}
    (h : env.literalType room (.list values) = .ok (.list [] element)) {value : Literal} (hv : value ∈ values) :
    ∃ ref, env.literalType 65 value = .ok ref ∧ env.assignable ref element = true := by
  cases room with
  | zero =>
    unfold literalType at h
    cases h
  | succ room =>
    obtain ⟨htyped, u, hu, he⟩ := (literalType_list (List.ne_nil_of_mem hv)).1 h
    cases he
    obtain ⟨ref, href⟩ := htyped value hv
    have hle : room ≤ 65 := Nat.le_of_succ_le hroom
    have hbound := RunningBound.bound?_spec assignable_trans (elementTypes_refl hle) hu
    exact ⟨ref, literalType_mono hle href, hbound.2 ref (mem_elementTypes.2 ⟨value, hv, href⟩)⟩

/-- Assignability is a preorder on the types the checker works with, whatever the declarations. -/
theorem assignable_preorder (env : Environment) :
    (∀ ref, env.CheckedType ref → env.assignable ref ref = true) ∧
    (∀ a b c, env.CheckedType a → env.CheckedType b → env.CheckedType c → env.assignable a b = true →
      env.assignable b c = true → env.assignable a c = true) ∧
    ∀ room values element, room ≤ 65 → env.literalType room (.list values) = .ok (.list [] element) →
      ∀ value ∈ values, ∃ ref, env.literalType 65 value = .ok ref ∧ env.assignable ref element = true :=
  ⟨fun _ => CheckedType.refl, fun a b c _ _ _ => assignable_trans a b c, fun _ _ _ hroom h _ => literalType_above hroom h⟩

/-- A declared type whose elements are lists of it. -/
def forest : Environment where
  facts := .empty
  verbs := .empty
  functions := .empty
  types := ⟨[("tree", ⟨typeKindList, "list<tree>", .empty, []⟩)], List.pairwise_singleton ..⟩

theorem forest_parses {t : Text} {p : TypeRef → Bool}
    (h : (forest.parse t false).toOption.any (fun ref => decide (ref.kind ≠ .void) && p ref) = true) :
    ∃ ref, forest.parse t false = .ok ref ∧ forest.CheckedType ref ∧ p ref = true := by
  obtain ⟨ref, hok, hfound⟩ := Fallible.ok_of_any h
  obtain ⟨hkind, hp⟩ := Bool.and_eq_true_iff.1 hfound
  refine ⟨ref, hok, .inl ⟨_, _, hok, ?_⟩, hp⟩
  rintro rfl
  cases hkind

/-- Declared, the recursive type compares with itself under lists without being followed, and with the lists it is unfolded
to. -/
theorem assignable_preorder_recursive : (normalizeEnvironment forest).toOption.isSome = true ∧
    ∃ far ref tree, forest.parse "list<list<list<list<tree>>>>" false = .ok far ∧
      forest.parse "list<list<tree>>" false = .ok ref ∧ forest.parse "tree" false = .ok tree ∧
      forest.assignable ref ref = true ∧ forest.assignable far ref = true ∧ forest.assignable ref tree = true ∧
      forest.assignable far tree = true := by
  obtain ⟨tree, htree, hchecked, -⟩ := forest_parses (t := "tree") (p := fun _ => true) (by decide)
  obtain ⟨ref, href, hchecked', hunfold⟩ := forest_parses (t := "list<list<tree>>")
    (p := fun ref => (forest.parse "tree" false).toOption.any (forest.assignable ref)) (by decide)
  obtain ⟨far, hfar, hchecked'', hunfold'⟩ := forest_parses (t := "list<list<list<list<tree>>>>")
    (p := fun far => (forest.parse "list<list<tree>>" false).toOption.any (forest.assignable far)) (by decide)
  rw [htree] at hunfold
  rw [href] at hunfold'
  exact ⟨by decide, far, ref, tree, hfar, href, htree, (assignable_preorder forest).1 _ hchecked', hunfold', hunfold,
    (assignable_preorder forest).2.1 _ _ _ hchecked'' hchecked' hchecked hunfold' hunfold⟩

/-! ### Order of the elements -/

/-- Two orders of the elements are both accepted or both rejected, and their element types are assignable to each
other. -/
def OrderFree (env : Environment) (room : Nat) (values : List Literal) : Prop :=
  ∀ first second : List Literal, first.Perm values → second.Perm values →
    ((∃ ref, env.literalType room (.list first) = .ok ref) ↔ ∃ ref, env.literalType room (.list second) = .ok ref) ∧
    ∀ a b, env.literalType room (.list first) = .ok (.list [] a) → env.literalType room (.list second) = .ok (.list [] b) →
      env.assignable a b = true ∧ env.assignable b a = true

/-- Unless an element has no type, one whose type is above all others comes with types that compare two by two. -/
def ChainBelowGreatest (env : Environment) (room : Nat) (values : List Literal) : Prop :=
  env.EachTyped room values → RunningBound.HasGreatest env.assignable (env.elementTypes room values) →
    RunningBound.IsChain env.assignable (env.elementTypes room values)

theorem EachTyped.perm {room : Nat} {values others : List Literal} (h : env.EachTyped room values)
    (hp : others.Perm values) : env.EachTyped room others := fun value hv => h value (hp.mem_iff.1 hv)

theorem EachTyped.forall₂ {room : Nat} : ∀ {values : List Literal}, env.EachTyped room values →
    List.Forall₂ (fun ref value => env.literalType room value = .ok ref) (env.elementTypes room values) values
  | [], _ => .nil
  | value :: rest, h => by
    obtain ⟨⟨ref, href⟩, hrest⟩ := List.forall_mem_cons.1 h
    have hcons : env.elementTypes room (value :: rest) = ref :: env.elementTypes room rest := by
      simp [elementTypes, href, Except.toOption]
    rw [hcons]
    exact .cons href (EachTyped.forall₂ hrest)

theorem elementTypes_eq {room : Nat} {types : List TypeRef} {values : List Literal}
    (h : List.Forall₂ (fun ref value => env.literalType room value = .ok ref) types values) :
    env.elementTypes room values = types := by
  induction h with
  | nil => rfl
  | @cons ref value _ _ href _ ih =>
    rw [← ih]
    simp [elementTypes, href, Except.toOption]

/-- An order of the types is that of an order of the elements. -/
theorem EachTyped.reorder {room : Nat} {values : List Literal} (h : env.EachTyped room values) {types : List TypeRef}
    (hp : types.Perm (env.elementTypes room values)) :
    ∃ others : List Literal, others.Perm values ∧ env.elementTypes room others = types := by
  obtain ⟨others, htypes, hothers⟩ := List.perm_comp_forall₂ hp h.forall₂
  exact ⟨others, hothers, elementTypes_eq htypes⟩

theorem accepted_iff {room : Nat} {values : List Literal} (hne : values ≠ []) :
    (∃ ref, env.literalType (room + 1) (.list values) = .ok ref) ↔
      env.EachTyped room values ∧ (RunningBound.bound? env.assignable (env.elementTypes room values)).isSome := by
  simp only [literalType_list hne, Option.isSome_iff_exists]
  exact ⟨fun ⟨_, htyped, u, hu, _⟩ => ⟨htyped, u, hu⟩, fun ⟨htyped, u, hu⟩ => ⟨_, htyped, u, hu, rfl⟩⟩

/-- Accepted orders agree on the element type up to assignability. -/
theorem mutually_assignable {room : Nat} (hroom : room < 65) {first second : List Literal} (hp : first.Perm second)
    (hne : second ≠ []) {a b : TypeRef} (ha : env.literalType (room + 1) (.list first) = .ok (.list [] a))
    (hb : env.literalType (room + 1) (.list second) = .ok (.list [] b)) : env.assignable a b = true := by
  have hne' : first ≠ [] := fun hnil => hne (List.perm_nil.1 (hnil ▸ hp.symm))
  obtain ⟨-, u, hu, he⟩ := (literalType_list hne').1 ha
  cases he
  obtain ⟨-, v, hv, he⟩ := (literalType_list hne).1 hb
  cases he
  have hmem := (RunningBound.bound?_spec assignable_trans (elementTypes_refl hroom.le) hu).1
  have habove := (RunningBound.bound?_spec assignable_trans (elementTypes_refl hroom.le) hv).2
  exact habove _ ((hp.filterMap _).mem_iff.1 hmem)

/-- The order of a list literal's elements does not matter exactly when an element above all others comes with elements
that compare two by two: the running bound only ever compares neighbours, and gives up at the first two that do not. -/
theorem list_order_free_iff (env : Environment) {room : Nat} (hroom : room < 65) {values : List Literal}
    (hne : values ≠ []) : env.OrderFree (room + 1) values ↔ env.ChainBelowGreatest room values := by
  have nonempty : ∀ {others : List Literal}, others.Perm values → others ≠ [] := fun hp hnil =>
    hne (List.perm_nil.1 (hnil ▸ hp.symm))
  have types : env.EachTyped room values → env.elementTypes room values ≠ [] := fun htyped hnil => by
    have hlength := htyped.forall₂.length_eq
    rw [hnil] at hlength
    exact hne (List.length_eq_zero_iff.1 hlength.symm)
  constructor
  · intro h htyped
    refine (RunningBound.order_free_iff assignable_trans (types htyped) (elementTypes_refl hroom.le)).1 fun ys zs hy hz => ?_
    obtain ⟨first, hfirst, rfl⟩ := htyped.reorder hy
    obtain ⟨second, hsecond, rfl⟩ := htyped.reorder hz
    have hiff := (h first second hfirst hsecond).1
    rw [accepted_iff (nonempty hfirst), accepted_iff (nonempty hsecond)] at hiff
    simpa [htyped.perm hfirst, htyped.perm hsecond] using hiff
  · intro h first second hfirst hsecond
    refine ⟨?_, fun a b ha hb => ⟨?_, ?_⟩⟩
    · rw [accepted_iff (nonempty hfirst), accepted_iff (nonempty hsecond)]
      by_cases htyped : env.EachTyped room values
      · have hfree := (RunningBound.order_free_iff assignable_trans (types htyped) (elementTypes_refl hroom.le)).2 (h htyped)
        have hiff := hfree _ _ (hfirst.filterMap _) (hsecond.filterMap _)
        exact and_congr (iff_of_true (htyped.perm hfirst) (htyped.perm hsecond)) hiff
      · have hno : ∀ {others : List Literal}, others.Perm values → ¬env.EachTyped room others := fun hp ht =>
          htyped (ht.perm hp.symm)
        simp [hno hfirst, hno hsecond]
    · exact mutually_assignable hroom (hfirst.trans hsecond.symm) (nonempty hsecond) ha hb
    · exact mutually_assignable hroom (hsecond.trans hfirst.symm) (nonempty hfirst) hb ha

/-- An object literal with the fields `x` and `y`. -/
def literalPair (x y : Literal) : Literal := .object [(("x" : Text), x), (("y" : Text), y)]

def literalOne : Literal := .int 1

def literalHalf : Literal := .double (.ofRat false (1 / 2))

/-- Three pairs of numbers: the first two do not compare, and the third is above both. -/
def literalPairs : List Literal :=
  [literalPair literalOne literalHalf, literalPair literalHalf literalOne, literalPair literalHalf literalHalf]

/-- An environment that declares nothing. -/
def bare : Environment := ⟨.empty, .empty, .empty, .empty⟩

def isAccepted (env : Environment) (literal : Literal) : Bool := (env.literalType 65 literal).toOption.isSome

theorem isAccepted_iff {literal : Literal} : env.isAccepted literal = true ↔ ∃ ref, env.literalType 65 literal = .ok ref := by
  unfold isAccepted
  cases env.literalType 65 literal <;> simp [Except.toOption]

/-- A pair of an integer and a float does not compare with one of a float and an integer. After a pair of floats, above
both, either is accepted; next to each other they end the run. -/
theorem list_order_matters :
    bare.isAccepted (.list [literalPairs[0], literalPairs[2], literalPairs[1]]) = true ∧
    bare.isAccepted (.list literalPairs) = false ∧ ¬bare.OrderFree 65 literalPairs := by
  have hyes : bare.isAccepted (.list [literalPairs[0], literalPairs[2], literalPairs[1]]) = true := by decide
  have hno : bare.isAccepted (.list literalPairs) = false := by decide
  refine ⟨hyes, hno, fun h => ?_⟩
  have hperm : [literalPairs[0], literalPairs[2], literalPairs[1]].Perm literalPairs := (List.Perm.swap ..).cons _
  have hiff := (h _ _ hperm (.refl _)).1
  rw [← isAccepted_iff, ← isAccepted_iff, hyes, hno] at hiff
  simp at hiff

/-- Integers and floats compare, so their order does not matter. -/
theorem list_order_free_numbers : bare.OrderFree 65 [literalOne, literalHalf, literalOne] := by
  have htypes : bare.elementTypes 64 [literalOne, literalHalf, literalOne] = [.int, .float, .int] := by
    simp [elementTypes, literalOne, literalHalf, literalType, Except.toOption]
  refine (list_order_free_iff bare (by decide) (by simp)).2 fun _ _ => ?_
  rw [htypes]
  unfold RunningBound.IsChain
  decide

end Environment

end Effectus
